import GraphBlock.Cache.Service
import GraphBlock.Proofs.Files.Places
import GraphBlock.Spec.Basic

/-!
# The file of an entry

On a disk a directory cache reads an image from the file that its path leads to and changes
nothing (`DirectoryCache.run_lookup`), and a store changes that file alone or nothing
(`DirectoryCache.run_store`).  The last name of a place tells the fingerprint of the entry that it
may hold (`CacheService.Names.unique`), because no fingerprint of a spec has a slash in it.
-/

namespace GraphBlock

namespace Disk

variable {α β : Type} {d : Disk}

theorem run_bind_eq {x : StateM Disk α} {f : α → StateM Disk β} {r : β × Disk} :
    (x >>= f).run d = r ↔ ∃ a d', x.run d = (a, d') ∧ (f a).run d' = r :=
  ⟨fun h => ⟨_, _, rfl, h⟩, by
    rintro ⟨a, d', hx, hf⟩
    rw [StateT.run_bind, hx]
    exact hf⟩

end Disk

theorem Sha256.mem_hex {c : Char} {s : Bytes} (h : c ∈ hex s) : ∃ n : Fin 16, c = hexDigit n := by
  obtain ⟨b, -, hb⟩ := List.mem_flatMap.1 h
  have hlt := b.toNat_lt
  rcases List.mem_cons.1 hb with rfl | hb
  · exact ⟨⟨b.toNat / 16, by omega⟩, rfl⟩
  · exact ⟨⟨b.toNat % 16, by omega⟩, List.mem_singleton.1 hb⟩

/-- A fingerprint is a row of hexadecimal digits. -/
theorem Spec.mem_fingerprint {s : Spec} {c : Char} (h : c ∈ s.fingerprint.toList) :
    ∃ n : Fin 16, c = Sha256.hexDigit n := by
  rw [s.fingerprint_eq, fingerprintOf, String.toList_ofList] at h
  exact Sha256.mem_hex h

theorem Spec.slash_not_mem_fingerprint (s : Spec) : '/' ∉ s.fingerprint.toList := by
  have hdigit : ∀ n : Fin 16, '/' ≠ Sha256.hexDigit n := by decide
  intro h
  obtain ⟨n, hn⟩ := mem_fingerprint h
  exact hdigit n hn

namespace DirectoryCache

variable {c : DirectoryCache} {d : Disk} {f : String} {q : Place} {b image : Bytes}

def fileOf : Except IoError (Place × Entry) → Option (Place × Bytes)
  | .ok (q, .file b) => some (q, b)
  | _ => none

/-- The place and the contents of the file that the path of an entry leads to. -/
def file? (c : DirectoryCache) (d : Disk) (f : String) : Option (Place × Bytes) :=
  fileOf (d.resolve (c.pathFor f))

theorem file?_eq_some : c.file? d f = some (q, b) ↔ d.resolve (c.pathFor f) = .ok (q, .file b) := by
  rw [file?]
  rcases d.resolve (c.pathFor f) with e | ⟨r, b' | -⟩ <;> simp [fileOf]

theorem run_lookup (c : DirectoryCache) (f : String) (d : Disk) :
    (c.lookup f : StateM Disk _).run d = ((c.file? d f).map Prod.snd, d) := by
  have hexists : (FileSystem.exists? (c.pathFor f) : StateM Disk _).run d
      = ((match d.resolve (c.pathFor f) with
        | .ok _ => .ok true
        | .error e => if e.kind = .notFound then .ok false else .error e), d) := by
    refine Disk.run_bind_eq.2 ⟨_, d, rfl, ?_⟩
    rcases d.resolve (c.pathFor f) with e | r <;> rfl
  refine Disk.run_bind_eq.2 ⟨_, d, hexists, ?_⟩
  rcases hr : d.resolve (c.pathFor f) with e | ⟨q, b | -⟩
  · simp only [file?, hr]
    split_ifs <;> rfl
  · have hread : d.read (c.pathFor f) = .ok b := by simp [Disk.read, hr, bind, Except.bind]
    refine Disk.run_bind_eq.2 ⟨.ok b, d, congrArg (·, d) hread, ?_⟩
    simp only [file?, hr]
    rfl
  · have hread : d.read (c.pathFor f) = .error .isADirectory := by
      simp [Disk.read, hr, bind, Except.bind]
    refine Disk.run_bind_eq.2 ⟨.error .isADirectory, d, congrArg (·, d) hread, ?_⟩
    simp only [file?, hr]
    rfl

theorem run_store {d' : Disk} {r : Except CacheError Unit}
    (h : (c.store f image : StateM Disk _).run d = (r, d')) :
    d' = d ∨ ∃ q, d.writable (c.pathFor f) = .ok q ∧ d' = d.set q (.file image) := by
  obtain ⟨isDir, d₁, hdir, h⟩ := Disk.run_bind_eq.1 h
  have hd : d₁ = d := by
    obtain ⟨k, d₂, hk, hdir⟩ := Disk.run_bind_eq.1 hdir
    cases hk
    split at hdir <;> cases hdir <;> rfl
  subst hd
  cases isDir with
  | false =>
    cases h
    exact .inl rfl
  | true =>
    obtain ⟨w, d₂, hw, h⟩ := Disk.run_bind_eq.1 h
    have hd' : d' = d₂ := by
      cases w <;> cases h <;> rfl
    subst hd'
    obtain ⟨d₃, d₄, hget, hw⟩ := Disk.run_bind_eq.1 hw
    cases hget
    rcases hp : d₁.writable (c.pathFor f) with e | q
    · rw [hp] at hw
      cases hw
      exact .inl rfl
    · rw [hp] at hw
      cases hw
      exact .inr ⟨q, rfl, rfl⟩

end DirectoryCache

namespace CacheService

variable {s : CacheService} {q : Place} {f g : String}

/-- The place ends in the name of the file of this entry. -/
def Names (s : CacheService) (q : Place) (f : String) : Prop :=
  ∀ dir, q.getLast? = (DirectoryCache.pathFor ⟨dir, s.filePrefix⟩ f).names.getLast?

theorem exists_getLast?_pathFor (s : CacheService) : ∃ w : List Char, ∀ f dir,
    '/' ∉ f.toList → (DirectoryCache.pathFor ⟨dir, s.filePrefix⟩ f).names.getLast?
      = some (w ++ f.toList ++ ".png".toList) := by
  obtain ⟨w, hw⟩ := Path.exists_getLast?_pieces (s.filePrefix ++ "-graph-").toList
  refine ⟨w, fun f dir hf => ?_⟩
  have hraw : (Path.rawNames ⟨DirectoryCache.fileName ⟨dir, s.filePrefix⟩ f⟩).getLast?
      = some (w ++ f.toList ++ ".png".toList) := by
    have h := hw (f.toList ++ ".png".toList) (by simpa using hf)
    rw [List.append_assoc, ← h, Path.rawNames, DirectoryCache.fileName]
    simp only [String.toList_append, List.append_assoc]
  have hnames := Path.getLast?_filter_of_ne_nil (by simp) hraw
  have hne : Path.names ⟨DirectoryCache.fileName ⟨dir, s.filePrefix⟩ f⟩ ≠ [] := by
    intro hnil
    rw [Path.names] at hnil
    rw [hnil] at hnames
    simp at hnames
  rw [DirectoryCache.pathFor, Path.getLast?_names_join _ _ hne]
  exact hnames

/-- A place holds the entry of one fingerprint at most. -/
theorem Names.unique (hf : s.Names q f) (hg : s.Names q g) (hf' : '/' ∉ f.toList)
    (hg' : '/' ∉ g.toList) : f = g := by
  obtain ⟨w, hw⟩ := s.exists_getLast?_pathFor
  have h := (hf ⟨""⟩).symm.trans (hg ⟨""⟩)
  rw [hw f ⟨""⟩ hf', hw g ⟨""⟩ hg', Option.some.injEq, List.append_cancel_right_eq,
    List.append_cancel_left_eq] at h
  exact String.toList_inj.1 h

theorem names_of_getLast? (dir : Path) (hf : '/' ∉ f.toList)
    (h : q.getLast? = (DirectoryCache.pathFor ⟨dir, s.filePrefix⟩ f).names.getLast?) :
    s.Names q f := by
  obtain ⟨w, hw⟩ := s.exists_getLast?_pathFor
  intro dir'
  rw [h, hw f dir hf, hw f dir' hf]

theorem names_of_file? {dir : Path} {b : Bytes} {d : Disk} (hf : '/' ∉ f.toList)
    (h : DirectoryCache.file? ⟨dir, s.filePrefix⟩ d f = some (q, b)) :
    s.Names q f ∧ d.entryAt? q = some (.file b) := by
  obtain ⟨w, hw⟩ := s.exists_getLast?_pathFor
  have hr := DirectoryCache.file?_eq_some.1 h
  have hlong : ∀ n : List Char, n.length < 3 → w ++ f.toList ++ ".png".toList ≠ n := by
    rintro n hn rfl
    simp at hn
    omega
  refine ⟨names_of_getLast? dir hf ?_, (Disk.resolve_ok hr).2⟩
  rw [hw f dir hf]
  exact Disk.getLast?_of_resolve hr (hw f dir hf) (hlong _ (by decide)) (hlong _ (by decide))

theorem names_of_writable {dir : Path} {d : Disk} (hf : '/' ∉ f.toList)
    (h : d.writable (DirectoryCache.pathFor ⟨dir, s.filePrefix⟩ f) = .ok q) : s.Names q f :=
  names_of_getLast? dir hf (Disk.getLast?_of_writable h)

end CacheService

end GraphBlock
