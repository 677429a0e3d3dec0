import GraphBlock.Proofs.Cache.EntryPlace

/-!
# What is held for one fingerprint

What a cache service keeps for a fingerprint makes no difference for any other
(`CacheStore.kept_alike`), and what is found for it was kept last or was found before
(`CacheStore.found?_of_kept`).  Since stores make no directories, whether an image can be kept does
not depend on the images that were (`DirectoryCache.bare_place`).  So a render ends with the same
result whatever is held for other fingerprints, as far as one sees it through a view that is
`Impartial`: one that leaves out the system's reason for a failed write (`impartial_bare`), or any
view at all unless the prefix of files has a slash in it (`impartial_id`).
-/

namespace GraphBlock

open Disk

section Impartial

/-- The failure without the reason that the system gave. -/
def CacheError.bare : CacheError → CacheError
  | directoryMissing path => .directoryMissing path
  | ioFailure path _ => .ioFailure path ⟨.other, ""⟩
  | readFailed path _ => .readFailed path ⟨.other, ""⟩

/-- The image with its warning, but without the reason that the system gave. -/
def Rendered.bare (r : Rendered) : Rendered :=
  { r with cacheWarning := r.cacheWarning.map CacheError.bare }

namespace DirectoryCache

variable {c : DirectoryCache} {d e : Disk} {f : String}

/-- If an entry's file stands in the directory itself, why it cannot be written is a matter of the
directories as well. -/
theorem place_eq_of_sameDirectories (h : SameDirectories d e) (hp : '/' ∉ c.filePrefix.toList)
    (hf : '/' ∉ f.toList) : c.place d f = c.place e f := by
  by_cases hdir : ∃ q, d.resolve c.directory = .ok (q, .directory)
  · obtain ⟨q, hq⟩ := hdir
    rw [place, place, hq, h.resolve_directory hq]
    dsimp only
    rw [h.writable_eq (walk_dropLast hp hf hq) (resolve_eq_ok_iff.1 hq).2.2.1]
  · rw [not_exists] at hdir
    rw [place_eq_missing_iff.2 ⟨rfl, hdir⟩,
      place_eq_missing_iff.2 ⟨rfl, fun r hr => hdir r (h.symm.resolve_directory hr)⟩]

/-- Whether an entry cannot be written, and whether for the lack of its directory, is a matter of
the directories.  If the prefix has a slash in it, another entry's file may stand in the way of this
one where nothing stood, and then the system gives another reason for the same failure. -/
theorem bare_place (h : SameDirectories d e) :
    (c.place d f).mapError CacheError.bare = (c.place e f).mapError CacheError.bare := by
  by_cases hdir : ∃ q, d.resolve c.directory = .ok (q, .directory)
  · obtain ⟨q, hq⟩ := hdir
    rw [place, place, hq, h.resolve_directory hq]
    dsimp only
    rcases hw : d.writable (c.pathFor f) with err | r
    · rcases hw' : e.writable (c.pathFor f) with err' | r'
      · rfl
      · rw [h.symm.writable_ok hw'] at hw
        cases hw
    · rw [h.writable_ok hw]
  · rw [not_exists] at hdir
    rw [place_eq_missing_iff.2 ⟨rfl, hdir⟩,
      place_eq_missing_iff.2 ⟨rfl, fun r hr => hdir r (h.symm.resolve_directory hr)⟩]

end DirectoryCache

variable {s : CacheService} {d e : Disk} {f : String}

theorem CacheStore.warning?_congr (view : CacheError → CacheError) (root : Path)
    (hplace : ∀ c, s.store? root = some (.directory c) →
      (c.place d f).mapError view = (c.place e f).mapError view) :
    (warning? (s.store? root) f d).map view = (warning? (s.store? root) f e).map view := by
  rcases hs : s.store? root with _ | _ | c
  · rfl
  · rfl
  · have hplace := hplace c hs
    simp only [warning?]
    generalize c.place d f = x, c.place e f = y at hplace ⊢
    rcases x with err | q <;> rcases y with err' | q' <;>
      simp only [Except.mapError, Except.error.injEq, reduceCtorEq] at hplace
    · exact congrArg some hplace
    · rfl

/-- What one sees of how a render ends is a matter of its outcome and of the directories. -/
def CacheService.Impartial (s : CacheService) (see : RenderResult → RenderResult) : Prop :=
  ∀ {f : String}, '/' ∉ f.toList → ∀ {d e : Disk}, SameDirectories d e →
    ∀ (root : Path) (o : Outcome),
      see (o.result f (s.store? root) d) = see (o.result f (s.store? root) e)

theorem CacheService.impartial_bare (s : CacheService) :
    s.Impartial (Except.map Rendered.bare) := by
  intro f _ d e h root o
  rcases o with b | message
  · have hwarn := CacheStore.warning?_congr (s := s) CacheError.bare root
      fun c _ => c.bare_place (f := f) h
    simp only [Outcome.result, Except.map, Rendered.bare, hwarn]
  · rfl

/-- If the service keeps files at all, they stand in the directory itself. -/
def CacheService.Flat (s : CacheService) : Prop :=
  s.settings.enabled = true → s.settings.location = .filesystem → '/' ∉ s.filePrefix.toList

theorem CacheService.Flat.slash_not_mem {root : Path} {c : DirectoryCache} (hs : s.Flat)
    (hc : s.store? root = some (.directory c)) : '/' ∉ c.filePrefix.toList := by
  unfold store? storeFor at hc
  split_ifs at hc with hon
  split at hc
  · cases hc
  · cases hc
    exact hs hon ‹_›

theorem CacheService.impartial_id (hs : s.Flat) : s.Impartial id := by
  intro f hf d e h root o
  rcases o with b | message
  · have hwarn := CacheStore.warning?_congr (s := s) id root fun c hc =>
      congrArg _ (c.place_eq_of_sameDirectories h (hs.slash_not_mem hc) hf)
    rw [Option.map_id, id, id] at hwarn
    simp only [Outcome.result, hwarn]
  · rfl

end Impartial

section Alike

variable {s : CacheService} {f g : String} {root root' : Path} {b b' : Bytes} {o : Outcome}
  {k : Holdings}

/-- What is held for one fingerprint is the same, and so are the directories. -/
structure CacheService.Alike (s : CacheService) (f : String) (k l : Holdings) : Prop where
  images : k.1.lookup f = l.1.lookup f
  files : ∀ q, s.Names q f → k.2.entryAt? q = l.2.entryAt? q
  directories : SameDirectories k.2 l.2

namespace CacheService.Alike

variable {l m : Holdings}

theorem refl (s : CacheService) (f : String) (k : Holdings) : s.Alike f k k :=
  ⟨rfl, fun _ _ => rfl, .refl _⟩

theorem symm (h : s.Alike f k l) : s.Alike f l k :=
  ⟨h.images.symm, fun q hq => (h.files q hq).symm, h.directories.symm⟩

theorem trans (h : s.Alike f k l) (h' : s.Alike f l m) : s.Alike f k m :=
  ⟨h.images.trans h'.images, fun q hq => (h.files q hq).trans (h'.files q hq),
    h.directories.trans h'.directories⟩

theorem file?_eq (h : s.Alike f k l) (hf : '/' ∉ f.toList) (dir : Path) :
    DirectoryCache.file? ⟨dir, s.filePrefix⟩ k.2 f
      = DirectoryCache.file? ⟨dir, s.filePrefix⟩ l.2 f := by
  have hmp : ∀ {k l : Holdings}, s.Alike f k l → ∀ x,
      DirectoryCache.file? ⟨dir, s.filePrefix⟩ k.2 f = some x →
        DirectoryCache.file? ⟨dir, s.filePrefix⟩ l.2 f = some x := by
    rintro k l h ⟨q, b⟩ hk
    obtain ⟨hnames, hentry⟩ := CacheService.names_of_file? hf hk
    rw [h.files q hnames] at hentry
    exact DirectoryCache.file?_eq_some.2
      (h.directories.resolve_file (DirectoryCache.file?_eq_some.1 hk) hentry)
  exact Option.ext fun x => ⟨hmp h x, hmp h.symm x⟩

theorem found?_storeFor (h : s.Alike f k l) (hf : '/' ∉ f.toList) (root : Path) :
    CacheStore.found? (some (s.storeFor root)) k.1 k.2 f
      = CacheStore.found? (some (s.storeFor root)) l.1 l.2 f := by
  rcases s.storeFor_cases with hs | hs
  · rw [hs]
    exact h.images
  · obtain ⟨dir, hdir⟩ := hs root
    rw [hdir]
    exact congrArg (Option.map Prod.snd) (h.file?_eq hf dir)

theorem found?_eq (h : s.Alike f k l) (hf : '/' ∉ f.toList) (root : Path) :
    CacheStore.found? (s.store? root) k.1 k.2 f = CacheStore.found? (s.store? root) l.1 l.2 f := by
  rw [CacheService.store?]
  split
  · exact h.found?_storeFor hf root
  · rfl

theorem kept (h : s.Alike f k l) (root : Path) (b : Bytes) :
    s.Alike f (CacheStore.kept (s.store? root) f b k) (CacheStore.kept (s.store? root) f b l) := by
  refine ⟨?_, fun q hq => ?_, (CacheStore.sameDirectories_kept _ _ _ _).trans
    (h.directories.trans (CacheStore.sameDirectories_kept _ _ _ _).symm)⟩
  all_goals rcases s.store?_cases with hs | hs | hs
  · rw [hs]
    exact h.images
  · simp only [hs, CacheStore.kept, MemoryCache.lookup_insert, if_true]
  · obtain ⟨dir, hdir⟩ := hs root
    rw [hdir]
    exact h.images
  · rw [hs]
    exact h.files q hq
  · rw [hs]
    exact h.files q hq
  · obtain ⟨dir, hdir⟩ := hs root
    simp only [hdir, CacheStore.kept, DirectoryCache.entryAt?_written,
      DirectoryCache.place_eq_ok_iff h.directories, h.files q hq]

theorem filled (h : s.Alike f k l) (root : Path) (o : Outcome) :
    s.Alike f (o.filled f (s.store? root) k) (o.filled f (s.store? root) l) := by
  rcases o with b | message
  · exact h.kept root b
  · exact h

end CacheService.Alike

/-- What is kept for another fingerprint makes no difference. -/
theorem CacheStore.kept_alike (hf : '/' ∉ f.toList) (hg : '/' ∉ g.toList) (hne : f ≠ g) :
    s.Alike f (kept (s.store? root) g b k) k := by
  refine ⟨?_, fun q hq => ?_, sameDirectories_kept _ _ _ _⟩
  all_goals rcases s.store?_cases with hs | hs | hs
  · rw [hs]
    rfl
  · simp only [hs, kept, MemoryCache.lookup_insert, if_neg hne]
  · obtain ⟨dir, hdir⟩ := hs root
    rw [hdir]
    rfl
  · rw [hs]
    rfl
  · rw [hs]
    rfl
  · obtain ⟨dir, hdir⟩ := hs root
    simp only [hdir, kept, DirectoryCache.entryAt?_written]
    refine if_neg fun hplace => hne ?_
    have hnames := CacheService.names_of_writable hg (DirectoryCache.place_eq_ok hplace).2
    exact hq.unique hnames hf hg

/-- Of what is kept for a fingerprint, the last is found, or what was found before. -/
theorem CacheStore.found?_of_kept
    (h : found? (s.store? root) (kept (s.store? root') f b k).1 (kept (s.store? root') f b k).2 f
      = some b') :
    found? (s.store? root) k.1 k.2 f = some b' ∨ b' = b := by
  rcases s.store?_cases with hs | hs | hs
  · rw [hs] at h
    simp [found?] at h
  · rw [hs, hs] at h
    simp only [found?, kept, MemoryCache.lookup_insert, if_true] at h
    exact .inr (Option.some.inj h).symm
  · obtain ⟨dir, hdir⟩ := hs root
    obtain ⟨dir', hdir'⟩ := hs root'
    rw [hdir, hdir'] at h
    rw [hdir]
    obtain ⟨⟨q, b''⟩, hfile, rfl⟩ := Option.map_eq_some_iff.1 h
    have hres := DirectoryCache.file?_eq_some.1 hfile
    have hentry := (resolve_ok hres).2
    simp only [kept, DirectoryCache.entryAt?_written] at hentry
    split_ifs at hentry
    · exact .inr (Entry.file.inj (Option.some.inj hentry)).symm
    · refine .inl (Option.map_eq_some_iff.2 ⟨(q, b''), DirectoryCache.file?_eq_some.2 ?_, rfl⟩)
      exact DirectoryCache.sameDirectories_written.resolve_file hres hentry

namespace Outcome

theorem filled_alike (hf : '/' ∉ f.toList) (hg : '/' ∉ g.toList) (hne : f ≠ g) :
    s.Alike f (o.filled g (s.store? root) k) k := by
  rcases o with b | message
  · exact CacheStore.kept_alike hf hg hne
  · exact .refl s f k

theorem found?_of_filled (hf : '/' ∉ f.toList) (hg : '/' ∉ g.toList)
    (h : CacheStore.found? (s.store? root) (o.filled g (s.store? root') k).1
      (o.filled g (s.store? root') k).2 f = some b) :
    CacheStore.found? (s.store? root) k.1 k.2 f = some b ∨ f = g ∧ o = .success b := by
  by_cases hfg : f = g
  · subst hfg
    rcases o with b' | message
    · rcases CacheStore.found?_of_kept h with h | rfl
      · exact .inl h
      · exact .inr ⟨rfl, rfl⟩
    · exact .inl h
  · rw [(filled_alike hf hg hfg).found?_eq hf] at h
    exact .inl h

end Outcome

end Alike

end GraphBlock
