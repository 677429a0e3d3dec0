import GraphBlock.Proofs.Files.Directories
import GraphBlock.Proofs.Render.Moves

/-!
# What the cache holds

What is kept for later renders are the images in memory and the disk (`Holdings`).  A store is a
function on them, and so is the end of a render with an outcome (`CacheStore.kept`,
`Outcome.filled`, `Coordinator.run_finish_some`).  A store writes one file at most and makes no
directory (`DirectoryCache.entryAt?_written`, `CacheStore.sameDirectories_kept`).
-/

namespace GraphBlock

open Disk

/-- The images in memory, and the disk. -/
abbrev Holdings := MemoryCache × Disk

namespace DirectoryCache

variable {c : DirectoryCache} {d e : Disk} {f g : String} {q : Place} {b : Bytes}

/-- Where a store writes the image of an entry, or why it fails. -/
def place (c : DirectoryCache) (d : Disk) (f : String) : Except CacheError Place :=
  match d.resolve c.directory with
  | .ok (_, .directory) => (d.writable (c.pathFor f)).mapError (.ioFailure (c.pathFor f))
  | _ => .error (.directoryMissing c.directory)

/-- The disk after a store. -/
def written (c : DirectoryCache) (d : Disk) (f : String) (b : Bytes) : Disk :=
  match c.place d f with
  | .ok q => d.set q (.file b)
  | .error _ => d

theorem run_store_eq (c : DirectoryCache) (f : String) (b : Bytes) (d : Disk) :
    (c.store f b : StateM Disk _).run d = ((c.place d f).map fun _ => (), c.written d f b) := by
  have hdir : (FileSystem.isDirectory c.directory : StateM Disk _).run d
      = ((match d.resolve c.directory with
        | .ok (_, .directory) => true
        | _ => false), d) := by
    refine run_bind_eq.2 ⟨_, d, rfl, ?_⟩
    rcases d.resolve c.directory with err | ⟨q, _ | _⟩ <;> rfl
  refine run_bind_eq.2 ⟨_, d, hdir, ?_⟩
  rcases hr : d.resolve c.directory with err | ⟨q, _ | _⟩
  · simp only [place, written, hr]
    rfl
  · simp only [place, written, hr]
    rfl
  · refine run_bind_eq.2 ⟨_, _, run_write (c.pathFor f) b d, ?_⟩
    simp only [place, written, hr]
    rcases d.writable (c.pathFor f) with err | q <;> rfl

theorem place_eq_ok (h : c.place d f = .ok q) :
    (∃ r, d.resolve c.directory = .ok (r, .directory)) ∧ d.writable (c.pathFor f) = .ok q := by
  rw [place] at h
  split at h
  · rename_i r hr
    refine ⟨⟨r, hr⟩, ?_⟩
    rcases hw : d.writable (c.pathFor f) with err | q' <;> rw [hw] at h
    · cases h
    · exact congrArg Except.ok (Except.ok.inj h)
  · cases h

theorem place_eq_missing_iff {p : Path} : c.place d f = .error (.directoryMissing p) ↔
    p = c.directory ∧ ∀ r, d.resolve c.directory ≠ .ok (r, .directory) := by
  rw [place]
  split
  · rename_i r hr
    refine iff_of_false (fun h => ?_) fun h => h.2 r hr
    rcases hw : d.writable (c.pathFor f) with err | q' <;> rw [hw] at h <;> cases h
  · rename_i hno
    exact ⟨fun h => ⟨(CacheError.directoryMissing.inj (Except.error.inj h)).symm, hno⟩,
      fun h => by rw [h.1]⟩

theorem sameDirectories_written : SameDirectories (c.written d f b) d := by
  rw [written]
  split
  · rename_i q hq
    exact sameDirectories_set (not_directory_of_writable (place_eq_ok hq).2) b
  · exact .refl d

end DirectoryCache

/-- Where an image can be kept is a matter of the directories. -/
theorem DirectoryCache.place_eq_ok_iff {c : DirectoryCache} {d e : Disk} {f : String} {q : Place}
    (h : SameDirectories d e) : c.place d f = .ok q ↔ c.place e f = .ok q := by
  have hmp : ∀ {d e : Disk}, SameDirectories d e → c.place d f = .ok q → c.place e f = .ok q := by
    intro d e h hd
    obtain ⟨⟨r, hr⟩, hw⟩ := place_eq_ok hd
    rw [place, h.resolve_directory hr]
    dsimp only
    rw [h.writable_ok hw]
    rfl
  exact ⟨hmp h, hmp h.symm⟩

theorem DirectoryCache.entryAt?_written (c : DirectoryCache) (d : Disk) (f : String) (b : Bytes)
    (r : Place) : (c.written d f b).entryAt? r
      = if c.place d f = .ok r then some (.file b) else d.entryAt? r := by
  rcases hp : c.place d f with err | q
  · rw [written, hp, if_neg (by simp)]
  · have hq : q ≠ [] := by
      rintro rfl
      exact not_directory_of_writable (place_eq_ok hp).2 rfl
    simp only [written, hp, entryAt?_set d hq, Except.ok.injEq, eq_comm]

namespace CacheStore

theorem run_store_directory (c : DirectoryCache) (map : MemoryCache) (f : String) (b : Bytes)
    (d : Disk) : ((directory c).store map f b : StateM Disk _).run d
      = ((map, (c.place d f).map fun _ => ()), c.written d f b) :=
  run_bind_eq.2 ⟨_, _, c.run_store_eq f b d, rfl⟩

/-- What is held after an image was kept, or could not be. -/
def kept : Option CacheStore → String → Bytes → Holdings → Holdings
  | none, _, _, k => k
  | some .memory, f, b, k => (k.1.insert f b, k.2)
  | some (.directory c), f, b, k => (k.1, c.written k.2 f b)

/-- Why an image could not be kept. -/
def warning? : Option CacheStore → String → Disk → Option CacheError
  | some (.directory c), f, d =>
    match c.place d f with
    | .ok _ => none
    | .error e => some e
  | some .memory, _, _ | none, _, _ => none

theorem sameDirectories_kept (store : Option CacheStore) (f : String) (b : Bytes) (k : Holdings) :
    SameDirectories (kept store f b k).2 k.2 := by
  rcases store with _ | (_ | c)
  · exact .refl _
  · exact .refl _
  · exact DirectoryCache.sameDirectories_written

end CacheStore

namespace Outcome

/-- The result of a render that ends with this outcome. -/
def result (f : String) (store : Option CacheStore) (d : Disk) : Outcome → RenderResult
  | failure message => .error (.renderFailed f message)
  | success b => .ok ⟨b, .renderer, CacheStore.warning? store f d⟩

/-- What is held after a render ended with this outcome. -/
def filled (f : String) (store : Option CacheStore) : Outcome → Holdings → Holdings
  | failure _, k => k
  | success b, k => CacheStore.kept store f b k

theorem sameDirectories_filled (o : Outcome) (f : String) (store : Option CacheStore)
    (k : Holdings) : SameDirectories (o.filled f store k).2 k.2 := by
  rcases o with b | message
  · exact CacheStore.sameDirectories_kept store f b k
  · exact .refl _

end Outcome

namespace Coordinator

theorem run_keep_eq (c : Coordinator) (store : Option CacheStore) (f : String) (b : Bytes)
    (d : Disk) : (c.keep store f b : StateM Disk _).run d
      = (({ c with images := (CacheStore.kept store f b (c.images, d)).1 },
        CacheStore.warning? store f d), (CacheStore.kept store f b (c.images, d)).2) := by
  rcases store with _ | (_ | dir)
  · rfl
  · rfl
  · refine run_bind_eq.2 ⟨_, _, CacheStore.run_store_directory dir c.images f b d, ?_⟩
    simp only [CacheStore.kept, CacheStore.warning?]
    rcases dir.place d f with err | q <;> rfl

variable {c : Coordinator} {p : PendingRender}

theorem run_finish_some {o : Outcome} (h : c.router.outcome? p.listener = some o) (d : Disk) :
    (c.finish p : StateM Disk _).run d
      = (({ c with
          router := c.router.release p.listener
          images := (o.filled p.fingerprint p.store (c.images, d)).1 },
        some (o.result p.fingerprint p.store d)),
        (o.filled p.fingerprint p.store (c.images, d)).2) := by
  rw [finish, h]
  rcases o with b | message
  · exact run_bind_eq.2 ⟨_, _, run_keep_eq _ p.store p.fingerprint b d, rfl⟩
  · rfl

end Coordinator

/-- The store of a request, if the service keeps images at all. -/
def CacheService.store? (s : CacheService) (root : Path) : Option CacheStore :=
  if s.settings.enabled then some (s.storeFor root) else none

theorem Coordinator.store?_eq (c : Coordinator) (root : Path) :
    c.store? root = c.cache.store? root := rfl

theorem CacheService.store?_of_memory {s : CacheService} (hon : s.settings.enabled = true)
    (hmem : s.settings.location = .memory) (root : Path) : s.store? root = some .memory := by
  rw [store?, if_pos hon, storeFor, hmem]

/-- All images are in memory, or each root has its directory. -/
theorem CacheService.storeFor_cases (s : CacheService) : (∀ root, s.storeFor root = .memory)
    ∨ ∀ root, ∃ dir, s.storeFor root = .directory ⟨dir, s.filePrefix⟩ := by
  simp only [storeFor]
  split
  · exact .inl fun _ => rfl
  · exact .inr fun _ => ⟨_, rfl⟩

/-- Images are not kept, or all are in memory, or each root has its directory. -/
theorem CacheService.store?_cases (s : CacheService) : (∀ root, s.store? root = none)
    ∨ (∀ root, s.store? root = some .memory)
    ∨ ∀ root, ∃ dir, s.store? root = some (.directory ⟨dir, s.filePrefix⟩) := by
  simp only [store?]
  split
  · exact .inr (s.storeFor_cases.imp (fun h root => congrArg some (h root))
      fun h root => (h root).imp fun dir hdir => congrArg some hdir)
  · exact .inl fun _ => rfl

end GraphBlock
