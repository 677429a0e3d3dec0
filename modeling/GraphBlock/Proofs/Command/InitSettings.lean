import GraphBlock.Proofs.Settings.Saved

/-!
# Writing the default settings

The command that writes the default settings does nothing if something is at the path, unless it is
forced.  Otherwise it makes ancestors of the path that are missing and then writes the file or
fails (`Command.run_initSettings`).  A path with a step upwards may lead nowhere until its ancestors
are made, and then to a file that was there: this file is overwritten, although nothing was found
and nobody forced it (`init_overwrites_file_beyond_missing_directory`).  Apart from that, whatever
the result, only the file at the path is changed, and only if it is forced, and after a success the
default settings are loaded (`init_touches_settings_file_only`).
-/

namespace GraphBlock

open Disk

variable {colors force : Bool} {path : Path} {stdin : Bytes} {d d' : Disk} {places : Surroundings}
  {args : List String} {lib : Toml.Library}

/-- The program is asked to write the default settings to the path. -/
def AsksInit (args : List String) (places : Surroundings) (force : Bool) (path : Path) : Prop :=
  ∃ i, Invocation.parse args = .ok i ∧ i.action = .configInit force
    ∧ i.configPath.elim places.settingsPath .ok = .ok path

/-- Something is at the path. -/
def Disk.Occupied (d : Disk) (path : Path) : Prop :=
  ∃ r, d.resolve path = .ok r

/-- Ancestors of the path may be made, and then the file may be written. -/
def Disk.FileMade (path : Path) (contents : Bytes) (d d' : Disk) : Prop :=
  ∃ d₁, Made path.lineage.tail d d₁
    ∧ (d' = d₁ ∨ ∃ q, d₁.writable path = .ok q ∧ d' = d₁.set q (.file contents))

namespace Disk.FileMade

variable {contents : Bytes} {q : Place} {x : Entry}

/-- What changes is a file to which the path leads afterwards.  It was at the path before, or
nothing was at the path, which has a step upwards. -/
theorem changed (h : FileMade path contents d d') (hd : d.IsTree) (hx : d.entryAt? q = some x)
    (hne : d'.entryAt? q ≠ some x) : (∃ b, x = .file b) ∧ d'.resolve path = .ok (q, .file contents)
      ∧ (d.resolve path = .ok (q, x) ∨ ¬d.Occupied path ∧ ['.', '.'] ∈ path.names) := by
  obtain ⟨d₁, hmade, rfl | ⟨r, hr, rfl⟩⟩ := h
  · exact absurd (hmade.kept q x hx) hne
  · have hx₁ := hmade.kept q x hx
    obtain rfl : q = r := by
      by_contra hq
      exact hne ((entryAt?_set_of_ne hq _).trans hx₁)
    have hfile : ∃ b, x = .file b := by
      rcases x with b | _
      · exact ⟨b, rfl⟩
      · exact absurd hx₁ (not_directory_of_writable hr)
    refine ⟨hfile, resolve_set hr contents, ?_⟩
    obtain ⟨parent, name, hslot, hs, hlen, -, rfl⟩ := writable_eq_ok_iff.1 hr
    by_cases hoccupied : d.Occupied path
    · obtain ⟨⟨q, y⟩, hy⟩ := hoccupied
      have hleads := resolve_of_slot hslot hlen hx₁ fun _ => hs
      rw [hmade.resolve hy] at hleads
      exact .inl (hy.trans hleads)
    · refine .inr ⟨hoccupied, ?_⟩
      -- Without a step upwards the directories that the path passes through were there before.
      by_contra hup
      have hbefore := hd.slot_ok hmade.workingDirectory hup hslot hx
      exact hoccupied ⟨_, resolve_of_slot hbefore hlen hx fun _ => hs⟩

/-- What is new is the file, or a directory to which an ancestor leads. -/
theorem new (h : FileMade path contents d d') (hd : d.entryAt? q = none)
    (hx : d'.entryAt? q = some x) : x = .file contents ∧ d'.resolve path = .ok (q, x)
      ∨ x = .directory ∧ ∃ a : Path, a.IsAncestor path ∧ d'.resolve a = .ok (q, .directory) := by
  have hancestor : ∀ {d₁ : Disk}, Made path.lineage.tail d d₁ → d₁.entryAt? q = some x →
      x = .directory ∧ ∃ a : Path, a.IsAncestor path ∧ d₁.resolve a = .ok (q, .directory) :=
    fun hmade hx₁ => (hmade.new q x hd hx₁).imp id fun ⟨a, ha, hr⟩ =>
      ⟨a, Path.isAncestor_of_mem_tail rfl ha, hr⟩
  obtain ⟨d₁, hmade, rfl | ⟨r, hr, rfl⟩⟩ := h
  · exact .inr (hancestor hmade hx)
  · by_cases hq : q = r
    · subst hq
      have hfile := resolve_set hr contents
      have hx' := (resolve_eq_ok_iff.1 hfile).2.2.1
      rw [hx] at hx'
      obtain rfl := Option.some.inj hx'
      exact .inl ⟨rfl, hfile⟩
    · rw [entryAt?_set_of_ne hq] at hx
      obtain ⟨hdir, a, ha, hra⟩ := hancestor hmade hx
      have hsame := sameDirectories_set (not_directory_of_writable hr) contents
      exact .inr ⟨hdir, a, ha, hsame.symm.resolve_directory hra⟩

end Disk.FileMade

theorem Command.run_initSettings {r : Except Trouble String}
    (h : (initSettings colors force path lib : OnDisk _).run stdin d = (r, d')) :
    force = false ∧ d.Occupied path ∧ d' = d
    ∨ (force = true ∨ ¬d.Occupied path) ∧ FileMade path (Settings.default.file lib) d d'
      ∧ ∀ s, r = .ok s → ∃ q, d'.resolve path = .ok (q, .file (Settings.default.file lib)) := by
  have hoccupied : (d.resolve path).isOk = true ↔ d.Occupied path := by
    rcases hr : d.resolve path with err | r <;> simp [Disk.Occupied, hr, Except.isOk, Except.toBool]
  rw [initSettings, (OnDisk.reads_present path).run_bind, OnDisk.run_present] at h
  by_cases hc : ((d.resolve path).isOk && !force) = true
  · rw [if_pos hc] at h
    obtain ⟨hok, hforce⟩ := Bool.and_eq_true_iff.1 hc
    cases h
    exact .inl ⟨by simpa using hforce, hoccupied.1 hok, rfl⟩
  · rw [if_neg hc] at h
    have hallowed : force = true ∨ ¬d.Occupied path := by
      rw [← hoccupied]
      cases force <;> simp_all
    rcases hs : (Settings.default.save path lib : OnDisk _).run stdin d with ⟨r₁, d₂⟩
    rw [OnDisk.run_bind_of hs] at h
    obtain ⟨d₁, hmade, ⟨⟨t, rfl⟩, rfl⟩ | ⟨rfl, q, hq, rfl⟩⟩ := Settings.run_save hs
    · cases h
      exact .inr ⟨hallowed, ⟨_, hmade, .inl rfl⟩, fun s hs => by cases hs⟩
    · cases h
      exact .inr ⟨hallowed, ⟨d₁, hmade, .inr ⟨q, hq, rfl⟩⟩, fun _ _ => ⟨q, resolve_set hq _⟩⟩

theorem run_runOn_init {e : Exit} (hask : AsksInit args places force path)
    (h : runOn d stdin colors places args lib = (e, d')) :
    ∃ r, (Command.initSettings colors force path lib : OnDisk _).run stdin d = (r, d')
      ∧ (e.code = 0 → ∃ s, r = .ok s) := by
  obtain ⟨i, hparse, haction, hpath⟩ := hask
  rcases hr : (Command.initSettings colors force path lib : OnDisk _).run stdin d with ⟨r, d₁⟩
  have hact : (i.action.run colors places i.configPath lib : OnDisk _).run stdin d = (r, d₁) := by
    rw [haction, Action.run, hpath]
    exact hr
  rw [runOn, runProgram, hparse] at h
  dsimp only at h
  rw [OnDisk.run_bind_of hact] at h
  rcases r with t | s
  · cases h
    exact ⟨_, rfl, fun hcode => by cases hcode⟩
  · cases h
    exact ⟨_, rfl, fun _ => ⟨s, rfl⟩⟩

/-- Unless it is forced, the command leaves everything as it is if something is at the path.
Otherwise, whatever its result, what is there is kept, unless it is the file at the path, and then
the command was forced; or nothing was at the path, which has a step upwards, and it is the file to
which the path leads now.  What is new is the file to which the path leads or a directory to which
an ancestor of the path leads.  After a success the default settings are loaded. -/
theorem init_touches_settings_file_only {e : Exit} (hask : AsksInit args places force path)
    (hrun : runOn d stdin colors places args lib = (e, d')) (hd : d.IsTree) :
    (force = false → d.Occupied path → d' = d)
    ∧ (∀ q x, d.entryAt? q = some x → d'.entryAt? q = some x
      ∨ ((∃ b, x = .file b) ∧ d'.resolve path = .ok (q, .file (Settings.default.file lib)))
        ∧ (force = true ∧ d.resolve path = .ok (q, x)
          ∨ ¬d.Occupied path ∧ ['.', '.'] ∈ path.names))
    ∧ (∀ q x, d.entryAt? q = none → d'.entryAt? q = some x →
      x = .file (Settings.default.file lib) ∧ d'.resolve path = .ok (q, x)
      ∨ x = .directory ∧ ∃ a : Path, a.IsAncestor path ∧ d'.resolve a = .ok (q, .directory))
    ∧ (lib.ReadsBack → (force = true ∨ ¬d.Occupied path) → e.code = 0 →
      (Settings.loadFrom path lib : OnDisk _).run stdin d' = (.ok .default, d')) := by
  have hfree : force = true ∨ ¬d.Occupied path → force = false → ¬d.Occupied path :=
    fun hallowed hforce => hallowed.resolve_left fun h => Bool.false_ne_true (hforce.symm.trans h)
  obtain ⟨r, hinit, hcode⟩ := run_runOn_init hask hrun
  rcases Command.run_initSettings hinit with ⟨hforce, hoccupied, rfl⟩ | ⟨hallowed, hwritten, hok⟩
  · refine ⟨fun _ _ => rfl, fun q x h => .inl h, fun q x h h' => ?_, fun _ hallowed => ?_⟩
    · rw [h] at h'
      cases h'
    · exact absurd hoccupied (hfree hallowed hforce)
  · refine ⟨fun hforce hoccupied => ?_, fun q x hx => ?_, fun q x => hwritten.new,
      fun hlib _ he => ?_⟩
    · exact absurd hoccupied (hfree hallowed hforce)
    · by_cases hx' : d'.entryAt? q = some x
      · exact .inl hx'
      · obtain ⟨hfile, hleads, hbefore⟩ := hwritten.changed hd hx hx'
        refine .inr ⟨⟨hfile, hleads⟩, hbefore.imp_left fun hr => ⟨?_, hr⟩⟩
        exact hallowed.resolve_right (not_not_intro ⟨_, hr⟩)
    · obtain ⟨s, hs⟩ := hcode he
      obtain ⟨q, hq⟩ := hok s hs
      exact Settings.run_loadFrom (read_eq_ok_iff.2 ⟨q, hq⟩) (Settings.ofToml?_toToml hlib _)

/-- Two directories are missing, a file stands beside them, and a second run finds the settings. -/
theorem init_touches_settings_file_only_nested :
    let places : Surroundings := ⟨none, some "a/b/config.toml", ⟨"/tmp"⟩, ⟨"/"⟩⟩
    let d : Disk := ⟨[([['c']], .file [1])], []⟩
    let left := (runOn d [] false places ["config", "init"]).2
    left.entryAt? [['c']] = some (.file [1])
    ∧ (Settings.loadFrom ⟨"a/b/config.toml"⟩ : OnDisk _).run [] left = (.ok .default, left)
    ∧ (runOn left [] false places ["config", "init"]).2 = left := by
  intro places d left
  have hask : AsksInit ["config", "init"] places false ⟨"a/b/config.toml"⟩ := ⟨_, rfl, rfl, rfl⟩
  have hfree : ¬d.Occupied ⟨"a/b/config.toml"⟩ := by
    rintro ⟨r, hr⟩
    have herror : d.resolve ⟨"a/b/config.toml"⟩ = .error .noSuchEntry := by rfl
    rw [herror] at hr
    cases hr
  have hfound : left.Occupied ⟨"a/b/config.toml"⟩ :=
    ⟨([['a'], ['b'], "config.toml".toList], .file Settings.default.file), by rfl⟩
  have hrun : runOn d [] false places ["config", "init"] = (_, left) := (Prod.eta _).symm
  have hagain : runOn left [] false places ["config", "init"] = (_, _) := (Prod.eta _).symm
  have hfirst := init_touches_settings_file_only hask hrun (isTree_of_entries (by rfl))
  have hsecond := init_touches_settings_file_only hask hagain (isTree_of_entries (by rfl))
  obtain ⟨-, hkept, -, hloads⟩ := hfirst
  refine ⟨?_, hloads Toml.Library.standard_readsBack (.inr hfree) (by rfl), hsecond.1 rfl hfound⟩
  refine (hkept [['c']] (.file [1]) (by rfl)).resolve_right fun h => ?_
  rcases h.2 with ⟨hforced, -⟩ | ⟨-, hup⟩
  · cases hforced
  · exact absurd hup (by decide +kernel)

/-- Nothing is found at the path, because the directory that it passes through is missing; once
that is made, the path leads to a file that was there, which is overwritten. -/
theorem init_overwrites_file_beyond_missing_directory :
    let places : Surroundings := ⟨none, none, ⟨"/tmp"⟩, ⟨"/"⟩⟩
    let args := ["config", "init", "--config", "x/../c"]
    let d : Disk := ⟨[([['c']], .file [1])], []⟩
    let left := (runOn d [] false places args).2
    d.IsTree ∧ AsksInit args places false ⟨"x/../c"⟩ ∧ d.resolve ⟨"x/../c"⟩ = .error .noSuchEntry
    ∧ d.entryAt? [['c']] = some (.file [1])
    ∧ left.entryAt? [['c']] = some (.file Settings.default.file)
    ∧ Settings.default.file ≠ [1] := by
  intro places args d left
  exact ⟨isTree_of_entries (by rfl), ⟨_, rfl, rfl, rfl⟩, by rfl, by rfl, by rfl, by decide +kernel⟩

end GraphBlock
