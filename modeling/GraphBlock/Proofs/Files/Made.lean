import GraphBlock.Proofs.Files.Directories

/-!
# Directories that are made

`Made ps d e` says what may happen to a disk when directories are made at the paths `ps`: all that
was there is kept, and what is new is a directory to which one of the paths leads.  One directory
that is made is an instance (`made_makeDirectory`), and instances compose (`Made.trans`).
-/

namespace GraphBlock

namespace Disk

variable {d e : Disk} {p : Path} {ps ps' : List Path} {q : Place}

structure Made (ps : List Path) (d e : Disk) : Prop where
  kept : ∀ q x, d.entryAt? q = some x → e.entryAt? q = some x
  workingDirectory : d.workingDirectory = e.workingDirectory
  new : ∀ q x, d.entryAt? q = none → e.entryAt? q = some x →
    x = .directory ∧ ∃ p ∈ ps, e.resolve p = .ok (q, .directory)

namespace Made

theorem keepsDirectories (h : Made ps d e) : KeepsDirectories d e :=
  ⟨fun q => h.kept q .directory, h.workingDirectory⟩

theorem refl (ps : List Path) (d : Disk) : Made ps d d :=
  ⟨fun _ _ h => h, rfl, fun _ _ h h' => by rw [h] at h'; cases h'⟩

theorem trans {e' : Disk} (h : Made ps d e) (h' : Made ps e e') : Made ps d e' := by
  refine ⟨fun q x hq => h'.kept q x (h.kept q x hq), h.workingDirectory.trans h'.workingDirectory,
    fun q x hd he' => ?_⟩
  rcases he : e.entryAt? q with _ | y
  · exact h'.new q x he he'
  · obtain ⟨rfl, p, hp, hr⟩ := h.new q y hd he
    have hx := h'.kept q .directory he
    rw [he'] at hx
    exact ⟨Option.some.inj hx, p, hp, h'.keepsDirectories.resolve_directory hr⟩

theorem mono (hps : ∀ p ∈ ps, p ∈ ps') (h : Made ps d e) : Made ps' d e :=
  ⟨h.kept, h.workingDirectory, fun q x hd he =>
    (h.new q x hd he).imp id fun ⟨p, hp, hr⟩ => ⟨p, hps p hp, hr⟩⟩

/-- A path that leads somewhere still leads there. -/
theorem resolve {x : Entry} (h : Made ps d e) (hd : d.resolve p = .ok (q, x)) :
    e.resolve p = .ok (q, x) := by
  have hx := h.kept q x (resolve_ok hd).2
  rcases x with b | _
  · exact h.keepsDirectories.resolve_file hd hx
  · exact h.keepsDirectories.resolve_directory hd

end Made

theorem run_makeDirectory (p : Path) (d : Disk) :
    (FileSystem.makeDirectory p : StateM Disk _).run d = match d.vacant p with
      | .error e => (.error e, d)
      | .ok q => (.ok (), d.set q .directory) := by
  have hrun : (FileSystem.makeDirectory p : StateM Disk _).run d = StateT.run
    (match d.vacant p with
    | .error e => return .error e
    | .ok q => do modify (·.set q .directory); return .ok () : StateM Disk _) d := rfl
  rw [hrun]
  rcases d.vacant p with e | q <;> rfl

theorem entryAt?_of_vacant (h : d.vacant p = .ok q) : d.entryAt? q = none := by
  obtain ⟨parent, name, -, -, hfree, rfl⟩ := vacant_eq_ok_iff.1 h
  exact hfree

theorem kept_of_vacant (h : d.vacant p = .ok q) {r : Place} {x y : Entry}
    (hr : d.entryAt? r = some x) : (d.set q y).entryAt? r = some x := by
  rw [entryAt?_set_of_ne, hr]
  rintro rfl
  rw [entryAt?_of_vacant h] at hr
  cases hr

/-- A path leads to the directory that was made by it. -/
theorem resolve_set_directory (h : d.vacant p = .ok q) :
    (d.set q .directory).resolve p = .ok (q, .directory) := by
  have hkeeps : KeepsDirectories d (d.set q .directory) :=
    ⟨fun _ hr => kept_of_vacant h hr, rfl⟩
  obtain ⟨parent, name, hslot, hlen, -, rfl⟩ := vacant_eq_ok_iff.1 h
  exact resolve_of_slot (hkeeps.slot_ok hslot) hlen (entryAt?_set_concat d parent name _)
    fun h => absurd rfl h

theorem made_set (h : d.vacant p = .ok q) (hp : p ∈ ps) : Made ps d (d.set q .directory) := by
  refine ⟨fun r x => kept_of_vacant h, rfl, fun r x hd he => ?_⟩
  by_cases hr : r = q
  · subst hr
    obtain ⟨parent, name, -, -, -, rfl⟩ := vacant_eq_ok_iff.1 h
    rw [entryAt?_set_concat] at he
    exact ⟨(Option.some.inj he).symm, p, hp, resolve_set_directory h⟩
  · rw [entryAt?_set_of_ne hr, hd] at he
    cases he

theorem made_makeDirectory (hp : p ∈ ps) (d : Disk) :
    Made ps d ((FileSystem.makeDirectory p : StateM Disk _).run d).2 := by
  rw [run_makeDirectory]
  rcases hv : d.vacant p with e | q
  · exact .refl ps d
  · exact made_set hv hp

section Tree

variable {start parent : Place} {n : List Char} {x : Entry} {occupied : IoError}

/-- Whatever is on the disk stands in a directory. -/
def IsTree (d : Disk) : Prop :=
  ∀ q n x, d.entryAt? (q ++ [n]) = some x → d.entryAt? q = some .directory

theorem isTree_of_entries
    (h : d.entries.all (fun e => d.entryAt? e.1.dropLast = some .directory) = true) :
    d.IsTree := by
  intro q n x hx
  rw [entryAt?, if_neg (by simp)] at hx
  obtain ⟨e, he, -⟩ := Option.map_eq_some_iff.1 hx
  have hplace : e.1 = q ++ [n] := by simpa using List.find?_some he
  have hparent := List.all_eq_true.1 h e (List.mem_of_find?_eq_some he)
  rw [hplace, List.dropLast_concat] at hparent
  exact of_decide_eq_true hparent

/-- A walk downwards to a directory of the tree does not need anything else. -/
theorem IsTree.walk (hd : d.IsTree) : ∀ {ns : List (List Char)} {q : Place}, ['.', '.'] ∉ ns →
    e.walk start ns = .ok q → d.entryAt? q = some .directory → d.walk start ns = .ok q := by
  intro ns
  induction ns using List.reverseRecOn with
  | nil => exact fun _ hw _ => hw
  | append_singleton ns n ih =>
    intro q hup hw hq
    simp only [List.mem_append, List.mem_singleton, not_or] at hup
    rw [walk_concat] at hw ⊢
    rcases hplace : e.walk start ns with err | place
    · rw [hplace] at hw
      cases hw
    · rw [hplace] at hw
      have hstep : e.step place n = .ok q := hw
      rw [step] at hstep
      split at hstep
      · cases hstep
      · cases hstep
      · split_ifs at hstep with hdot hdots hlen hsome
        · cases hstep
          rw [ih hup.1 hplace hq]
          change d.step q n = .ok q
          rw [step, hq]
          exact if_pos hdot
        · exact absurd hdots.symm hup.2
        · cases hstep
          have hdir := hd place n _ hq
          rw [ih hup.1 hplace hdir]
          change d.step place n = .ok (place ++ [n])
          rw [step, hdir]
          simp [hdot, hdots, hlen, hq]

/-- What stands where a path without steps upwards could be written was there for it before. -/
theorem IsTree.slot_ok (hd : d.IsTree) (hs : d.workingDirectory = e.workingDirectory)
    (hup : ['.', '.'] ∉ p.names) (h : e.slot p occupied = .ok (parent, n))
    (hx : d.entryAt? (parent ++ [n]) = some x) : d.slot p occupied = .ok (parent, n) := by
  obtain ⟨hc, hl, hw, -, hn⟩ := slot_eq_ok_iff.1 h
  have hparent := hd parent n x hx
  have hstart : e.start p = d.start p := by rw [start, start, hs]
  rw [hstart] at hw
  exact slot_eq_ok_iff.2
    ⟨hc, hl, hd.walk (fun hm => hup (List.dropLast_subset _ hm)) hw hparent, hparent, hn⟩

end Tree

end Disk

end GraphBlock
