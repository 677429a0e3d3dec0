import GraphBlock.Proofs.Files.Places

/-!
# Disks with the same directories

A write makes or replaces a file and no directory (`sameDirectories_set`).  If the directories of
one disk are directories of another, a path that leads to one of them does so on the other
(`KeepsDirectories.resolve_directory`), and a path that leads to a file reaches the same place if a
file is there (`KeepsDirectories.resolve_file`).  If both have the same directories, a write goes
to the same place (`SameDirectories.writable_ok`).  Why a write fails may differ, because a file
can stand in the way where nothing stood, but not if the way to the file is there
(`SameDirectories.writable_eq`).  A write leads its path to the file that was written
(`resolve_set`), and every path to another place leads where it led before (`resolve_set_iff`).
-/

namespace GraphBlock

open Text

namespace Path

theorem names_join {p q : Path} (hp : p.text ≠ "") (hq : q.isAbsolute = false) :
    (p.join q).names = p.names ++ q.names := by
  have hcut : ∀ (a : List Char) (r : Path), r.text.toList = a ++ '/' :: q.text.toList →
      r.names = ((pieces (· == '/') a).filter (· ≠ [])) ++ q.names := fun a r hr => by
    simp only [names, rawNames]
    rw [hr, pieces_append_cons (by simp), List.filter_append]
  rw [join, if_neg (by simp [hp, hq])]
  split
  · rename_i hl
    obtain ⟨a, ha⟩ := List.getLast?_eq_some_iff.1 (by simpa using hl)
    have hnames : p.names = (pieces (· == '/') a).filter (· ≠ []) := by
      rw [names, rawNames, ha, pieces_append_cons (by simp), List.filter_append]
      simp [pieces]
    rw [hcut a _ (by simp [ha]), hnames]
  · exact hcut p.text.toList _ (by simp)

theorem isAbsolute_join {p q : Path} (hp : p.text ≠ "") (hq : q.isAbsolute = false) :
    (p.join q).isAbsolute = p.isAbsolute := by
  obtain ⟨c, s, hs⟩ := List.exists_cons_of_ne_nil fun h => hp (String.toList_eq_nil_iff.1 h)
  rw [join, if_neg (by simp [hp, hq])]
  split <;> simp [isAbsolute, hs]

theorem join_eq {p q : Path} (hp : p.text ≠ "") (hq : q.isAbsolute = false) :
    p.join q = ⟨p.text ++ (if p.endsInSlash then "" else "/") ++ q.text⟩ := by
  rw [join, if_neg (by simp [hp, hq]), endsInSlash]
  split <;> simp

/-- A join is the left side, perhaps a slash, and the right side. -/
theorem exists_text_join {p q : Path} (hp : p.text ≠ "") (hq : q.isAbsolute = false) :
    ∃ s : String, (s = "" ∨ s = "/") ∧ (p.join q).text = p.text ++ s ++ q.text := by
  rw [join_eq hp hq]
  exact ⟨_, by split <;> simp, rfl⟩

theorem names_of_not_mem {p : Path} (hp : p.text ≠ "") (h : '/' ∉ p.text.toList) :
    p.names = [p.text.toList] := by
  have hne : p.text.toList ≠ [] := fun h => hp (String.toList_eq_nil_iff.1 h)
  rw [names, rawNames, pieces_of_forall fun c hc => by simpa using fun hs : c = '/' => h (hs ▸ hc)]
  simp [hne]

end Path

namespace Disk

variable {d e : Disk} {p : Path} {q parent place start : Place} {n : List Char} {x : Entry}
  {b b' : Bytes}

/-- The directories of the one disk are directories of the other. -/
structure KeepsDirectories (d e : Disk) : Prop where
  entry : ∀ q, d.entryAt? q = some .directory → e.entryAt? q = some .directory
  workingDirectory : d.workingDirectory = e.workingDirectory

structure SameDirectories (d e : Disk) : Prop where
  entry : ∀ q, d.entryAt? q = some .directory ↔ e.entryAt? q = some .directory
  workingDirectory : d.workingDirectory = e.workingDirectory

theorem sameDirectories_set (h : d.entryAt? q ≠ some .directory) (b : Bytes) :
    SameDirectories (d.set q (.file b)) d := by
  refine ⟨fun r => ?_, rfl⟩
  have hq : q ≠ [] := by
    rintro rfl
    exact h rfl
  rw [entryAt?_set d hq]
  split_ifs with hr
  · subst hr
    simpa using h
  · exact Iff.rfl

namespace KeepsDirectories

theorem start_eq (h : KeepsDirectories d e) (p : Path) : d.start p = e.start p := by
  rw [Disk.start, Disk.start, h.workingDirectory]

theorem step (h : KeepsDirectories d e) (hs : d.step place n = .ok q)
    (hq : (e.entryAt? q).isSome = true) :
    d.entryAt? place = some .directory ∧ e.step place n = .ok q := by
  rw [Disk.step] at hs
  split at hs
  · cases hs
  · cases hs
  · rename_i hp
    refine ⟨hp, ?_⟩
    rw [Disk.step, h.entry place hp]
    split_ifs at hs with hdot hup hlen hsome
    · simpa [hdot] using hs
    · simpa [hdot, hup] using hs
    · simp only [Except.ok.injEq] at hs
      subst hs
      simp [hdot, hup, hlen, hq]

/-- Who passes through directories passes through them on the other disk, and gets to the end if
something is there. -/
theorem walk (h : KeepsDirectories d e) : ∀ {ns : List (List Char)} {q : Place},
    d.walk start ns = .ok q → (e.entryAt? q).isSome = true → e.walk start ns = .ok q := by
  intro ns
  induction ns using List.reverseRecOn with
  | nil => exact fun hw _ => hw
  | append_singleton ns n ih =>
    intro q hw hq
    rw [walk_concat] at hw ⊢
    rcases hplace : d.walk start ns with err | place
    · rw [hplace] at hw
      cases hw
    · rw [hplace] at hw
      obtain ⟨hdir, hstep⟩ := h.step hw hq
      rw [ih hplace (by rw [h.entry place hdir]; rfl)]
      exact hstep

theorem resolve_directory (h : KeepsDirectories d e) (hd : d.resolve p = .ok (q, .directory)) :
    e.resolve p = .ok (q, .directory) := by
  obtain ⟨hc, hw, hq, hs⟩ := resolve_eq_ok_iff.1 hd
  have he := h.entry q hq
  exact resolve_eq_ok_iff.2 ⟨hc, h.walk (h.start_eq p ▸ hw) (by rw [he]; rfl), he, hs⟩

theorem resolve_file (h : KeepsDirectories d e) (hd : d.resolve p = .ok (q, .file b))
    (he : e.entryAt? q = some (.file b')) : e.resolve p = .ok (q, .file b') := by
  obtain ⟨hc, hw, -, hs⟩ := resolve_eq_ok_iff.1 hd
  exact resolve_eq_ok_iff.2 ⟨hc, h.walk (h.start_eq p ▸ hw) (by rw [he]; rfl), he,
    fun _ => hs (by simp)⟩

theorem slot_ok (h : KeepsDirectories d e) {occupied : IoError}
    (hd : d.slot p occupied = .ok (parent, n)) : e.slot p occupied = .ok (parent, n) := by
  obtain ⟨hc, hl, hw, hp, hn⟩ := slot_eq_ok_iff.1 hd
  have he := h.entry parent hp
  exact slot_eq_ok_iff.2 ⟨hc, hl, h.walk (h.start_eq p ▸ hw) (by rw [he]; rfl), he, hn⟩

end KeepsDirectories

namespace SameDirectories

theorem refl (d : Disk) : SameDirectories d d :=
  ⟨fun _ => Iff.rfl, rfl⟩

theorem symm (h : SameDirectories d e) : SameDirectories e d :=
  ⟨fun q => (h.entry q).symm, h.workingDirectory.symm⟩

theorem trans {d' : Disk} (h : SameDirectories d e) (h' : SameDirectories e d') :
    SameDirectories d d' :=
  ⟨fun q => (h.entry q).trans (h'.entry q), h.workingDirectory.trans h'.workingDirectory⟩

theorem keeps (h : SameDirectories d e) : KeepsDirectories d e :=
  ⟨fun q => (h.entry q).1, h.workingDirectory⟩

theorem resolve_directory (h : SameDirectories d e) (hd : d.resolve p = .ok (q, .directory)) :
    e.resolve p = .ok (q, .directory) :=
  h.keeps.resolve_directory hd

theorem resolve_file (h : SameDirectories d e) (hd : d.resolve p = .ok (q, .file b))
    (he : e.entryAt? q = some (.file b')) : e.resolve p = .ok (q, .file b') :=
  h.keeps.resolve_file hd he

theorem writable_ok (h : SameDirectories d e) (hd : d.writable p = .ok q) :
    e.writable p = .ok q := by
  obtain ⟨parent, name, hslot, hs, hlen, hfree, rfl⟩ := writable_eq_ok_iff.1 hd
  exact writable_eq_ok_iff.2 ⟨parent, name, h.keeps.slot_ok hslot, hs, hlen,
    fun hdir => hfree ((h.entry _).2 hdir), rfl⟩

/-- Where the way to the file is there, a write also fails alike. -/
theorem writable_eq (h : SameDirectories d e)
    (hw : d.walk (d.start p) p.names.dropLast = .ok parent)
    (hp : d.entryAt? parent = some .directory) : d.writable p = e.writable p := by
  have he := (h.entry parent).1 hp
  have hw' := h.keeps.walk (h.keeps.start_eq p ▸ hw) (by rw [he]; rfl)
  rw [writable, writable, slot, slot, hw, hw']
  rcases checkPath p with err | u
  · rfl
  · rcases p.names.getLast? with _ | name
    · rfl
    · simp only [bind, Except.bind, hp, he]
      split
      · rfl
      · rename_i v hv
        split_ifs at hv
        cases hv
        split_ifs with hs hlen
        · rfl
        · rfl
        · by_cases hdir : d.entryAt? (parent ++ [name]) = some .directory
          · rw [hdir, (h.entry _).1 hdir]
          · have hdir' : e.entryAt? (parent ++ [name]) ≠ some .directory :=
              fun h' => hdir ((h.entry _).2 h')
            split
            · exact absurd ‹_› hdir
            · rfl

end SameDirectories

section Writing

variable {r : Place}

theorem run_write (p : Path) (b : Bytes) (d : Disk) :
    (FileSystem.write p b : StateM Disk _).run d = match d.writable p with
      | .error e => (.error e, d)
      | .ok q => (.ok (), d.set q (.file b)) := by
  have hrun : (FileSystem.write p b : StateM Disk _).run d = StateT.run (match d.writable p with
    | .error e => return .error e
    | .ok q => do modify (·.set q (.file b)); return .ok () : StateM Disk _) d := rfl
  rw [hrun]
  rcases d.writable p with e | q <;> rfl

/-- A path leads to what stands at its last name. -/
theorem resolve_of_slot {occupied : IoError} (h : d.slot p occupied = .ok (parent, n))
    (hlen : (Utf8.encode n).length ≤ maxNameLength) (hx : d.entryAt? (parent ++ [n]) = some x)
    (hs : x ≠ .directory → p.endsInSlash = false) : d.resolve p = .ok (parent ++ [n], x) := by
  obtain ⟨hc, hl, hw, hp, hdot, hup⟩ := slot_eq_ok_iff.1 h
  have hstep : d.step parent n = .ok (parent ++ [n]) := by
    unfold step
    rw [hp]
    simp only [hdot, hup, Nat.not_lt.2 hlen, hx, Option.isSome_some, if_true, if_false]
  refine resolve_eq_ok_iff.2 ⟨hc, ?_, hx, hs⟩
  obtain ⟨ns, hns⟩ := List.getLast?_eq_some_iff.1 hl
  rw [hns, List.dropLast_concat] at hw
  rw [hns, walk_concat, hw]
  exact hstep

theorem entryAt?_set_concat (d : Disk) (q : Place) (n : List Char) (x : Entry) :
    (d.set (q ++ [n]) x).entryAt? (q ++ [n]) = some x := by
  rw [entryAt?_set d (by simp), if_pos rfl]

/-- A path leads to the file that was written by it. -/
theorem resolve_set (h : d.writable p = .ok q) (b : Bytes) :
    (d.set q (.file b)).resolve p = .ok (q, .file b) := by
  have hsame := (sameDirectories_set (not_directory_of_writable h) b).symm
  obtain ⟨parent, name, hslot, hs, hlen, -, rfl⟩ := writable_eq_ok_iff.1 h
  exact resolve_of_slot (hsame.keeps.slot_ok hslot) hlen (entryAt?_set_concat d parent name _)
    fun _ => hs

theorem SameDirectories.resolve_imp (h : SameDirectories d e) (hr : d.entryAt? r = e.entryAt? r)
    (hd : d.resolve p = .ok (r, x)) : e.resolve p = .ok (r, x) := by
  cases x with
  | directory => exact h.resolve_directory hd
  | file b => exact h.resolve_file hd (hr.symm.trans (resolve_ok hd).2)

/-- A path that leads to another place does not see the write. -/
theorem resolve_set_iff (h : d.entryAt? q ≠ some .directory) (b : Bytes) (hr : r ≠ q) :
    (d.set q (.file b)).resolve p = .ok (r, x) ↔ d.resolve p = .ok (r, x) := by
  have hsame := sameDirectories_set h b
  have hentry := entryAt?_set_of_ne hr (d := d) (.file b)
  exact ⟨hsame.resolve_imp hentry, hsame.symm.resolve_imp hentry.symm⟩

end Writing

end Disk

end GraphBlock
