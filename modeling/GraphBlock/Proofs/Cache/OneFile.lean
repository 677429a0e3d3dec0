import GraphBlock.Proofs.Render.Holdings

/-!
# A store touches one file

A store either fails and leaves the disk as it was, or writes the image to the file that is
reported as its target and changes nothing else, so every path to another place leads where it led
before; a lookup finds what that file holds (`DirectoryCache.store_touches_target_only`).
-/

namespace GraphBlock

namespace DirectoryCache

open Disk

variable {c : DirectoryCache} {d : Disk} {f : String} {b : Bytes}

theorem place_eq_error {e : CacheError} (h : c.place d f = .error e) :
    e = .directoryMissing c.directory ∨ ∃ source, e = .ioFailure (c.pathFor f) source := by
  unfold place at h
  split at h
  · rcases hw : d.writable (c.pathFor f) with err | q <;> rw [hw] at h
    · obtain rfl := Except.error.inj h
      exact .inr ⟨err, rfl⟩
    · cases h
  · exact .inl (Except.error.inj h).symm

theorem run_store_error {e : CacheError} {d' : Disk}
    (h : (c.store f b : StateM Disk _).run d = (.error e, d')) :
    c.place d f = .error e ∧ d' = d := by
  rw [run_store_eq, written] at h
  rcases hp : c.place d f with err | q <;> rw [hp] at h
  · obtain ⟨he, hd⟩ := Prod.mk.inj h
    exact ⟨congrArg Except.error (Except.error.inj he), hd.symm⟩
  · cases (Prod.mk.inj h).1

theorem run_store_ok {d' : Disk} (h : (c.store f b : StateM Disk _).run d = (.ok (), d')) :
    ∃ q, d.writable (c.pathFor f) = .ok q ∧ d' = d.set q (.file b) := by
  rw [run_store_eq, written] at h
  rcases hp : c.place d f with err | q <;> rw [hp] at h
  · cases (Prod.mk.inj h).1
  · exact ⟨q, (place_eq_ok hp).2, (Prod.mk.inj h).2.symm⟩

theorem lookup_eq_some_iff :
    (c.file? d f).map Prod.snd = some b ↔ ∃ q, d.resolve (c.pathFor f) = .ok (q, .file b) := by
  simp [← file?_eq_some]

/-- A store that fails leaves the disk as it was, and one that succeeds changes nothing but the
file that its target leads to: it holds the image, a lookup finds it, every other place has what it
had, every path to another place leads there as before, and the directories are the same.  A lookup
changes nothing and finds what is in the file that the target leads to, if it leads to one. -/
theorem store_touches_target_only (c : DirectoryCache) (f : String) (image : Bytes) (d : Disk) :
    ∃ target, (CacheStore.directory c).target f = .file target
      ∧ (∀ e d', (c.store f image : StateM Disk _).run d = (.error e, d') → d' = d
        ∧ (e = .directoryMissing c.directory ∨ ∃ source, e = .ioFailure target source))
      ∧ (∀ d', (c.store f image : StateM Disk _).run d = (.ok (), d') →
        (∃ q, d'.resolve target = .ok (q, .file image)
          ∧ (∀ r, r ≠ q → d'.entryAt? r = d.entryAt? r)
          ∧ ∀ p r x, r ≠ q → (d'.resolve p = .ok (r, x) ↔ d.resolve p = .ok (r, x)))
        ∧ SameDirectories d' d
        ∧ (c.lookup f : StateM Disk _).run d' = (some image, d'))
      ∧ ∃ found, (c.lookup f : StateM Disk _).run d = (found, d)
        ∧ ∀ b, found = some b ↔ ∃ q, d.resolve target = .ok (q, .file b) := by
  refine ⟨c.pathFor f, rfl, fun e d' h => ?_, fun d' h => ?_, ?_⟩
  · obtain ⟨hp, rfl⟩ := run_store_error h
    exact ⟨rfl, place_eq_error hp⟩
  · obtain ⟨q, hw, rfl⟩ := run_store_ok h
    have hfree := not_directory_of_writable hw
    have hfile := resolve_set hw image
    refine ⟨⟨q, hfile, fun r hr => entryAt?_set_of_ne hr _, fun p r x hr => ?_⟩, ?_, ?_⟩
    · exact resolve_set_iff hfree image hr
    · exact sameDirectories_set hfree image
    · rw [run_lookup, lookup_eq_some_iff.2 ⟨q, hfile⟩]
  · exact ⟨_, run_lookup c f d, fun b => lookup_eq_some_iff⟩

/-- A prefix with a step upwards puts the file beside the directory, and what stands there stays;
a file in the place of the directory is left alone. -/
theorem store_touches_target_only_upwards :
    (store ⟨⟨"k"⟩, "../p"⟩ "f" [1, 2] : StateM Disk _).run
        ⟨[([['k']], .directory), ([['n']], .file [7])], []⟩
        = (.ok (), ⟨[([['k']], .directory), ([['n']], .file [7]),
          (["p-graph-f.png".toList], .file [1, 2])], []⟩)
      ∧ (lookup ⟨⟨"k"⟩, "../p"⟩ "f" : StateM Disk _).run ⟨[([['k']], .directory),
          ([['n']], .file [7]), (["p-graph-f.png".toList], .file [1, 2])], []⟩
        = (some [1, 2], ⟨[([['k']], .directory), ([['n']], .file [7]),
          (["p-graph-f.png".toList], .file [1, 2])], []⟩)
      ∧ ∃ e d', (store ⟨⟨"n"⟩, "p"⟩ "f" [1, 2] : StateM Disk _).run ⟨[([['n']], .file [7])], []⟩
          = (.error e, d') ∧ d' = ⟨[([['n']], .file [7])], []⟩ := by
  have hstore : (store ⟨⟨"k"⟩, "../p"⟩ "f" [1, 2] : StateM Disk _).run
      ⟨[([['k']], .directory), ([['n']], .file [7])], []⟩
      = (.ok (), ⟨[([['k']], .directory), ([['n']], .file [7]),
        (["p-graph-f.png".toList], .file [1, 2])], []⟩) := by rfl
  have hmissing : (store ⟨⟨"n"⟩, "p"⟩ "f" [1, 2] : StateM Disk _).run ⟨[([['n']], .file [7])], []⟩
      = (.error (.directoryMissing ⟨"n"⟩), ⟨[([['n']], .file [7])], []⟩) := by rfl
  obtain ⟨_, -, -, hok, -⟩ := store_touches_target_only ⟨⟨"k"⟩, "../p"⟩ "f" [1, 2]
    ⟨[([['k']], .directory), ([['n']], .file [7])], []⟩
  obtain ⟨_, -, herror, -⟩ := store_touches_target_only ⟨⟨"n"⟩, "p"⟩ "f" [1, 2]
    ⟨[([['n']], .file [7])], []⟩
  obtain ⟨-, -, hlookup⟩ := hok _ hstore
  exact ⟨hstore, hlookup, _, _, hmissing, (herror _ _ hmissing).1⟩

end DirectoryCache

end GraphBlock
