import GraphBlock.Proofs.Cache.Backends

/-!
# Prefixes with a slash

A prefix with a slash in it names a directory below that of the cache, whose files bear the rest of
the prefix (`DirectoryCache.pathFor_of_prefix`).  Stores make no directories, and why an image
cannot be written there depends on what stands in the directory's place: nothing, or a file, which
may be the entry of another graph (`DirectoryCache.writable_below_entry`).  It is one if the prefix
begins with the name of that entry and the directories bear this name too (`nest`).
-/

namespace GraphBlock

open Disk

namespace Path

variable {p q : Path} {n : String}

theorem endsInSlash_join (hp : p.text ≠ "") (hq : q.isAbsolute = false) (hne : q.text ≠ "") :
    (p.join q).endsInSlash = q.endsInSlash := by
  have hnil : q.text.toList ≠ [] := fun h => hne (String.toList_eq_nil_iff.1 h)
  rw [join_eq hp hq, endsInSlash, String.toList_append, List.getLast?_append_of_ne_nil _ hnil,
    ← endsInSlash]

/-- To join names one by one is to join them at once. -/
theorem join_append (hp : p.text ≠ "") (hq : q.isAbsolute = false) (hne : q.text ≠ "")
    (hend : q.endsInSlash = false) (hn : Path.isAbsolute ⟨n⟩ = false) :
    p.join ⟨q.text ++ "/" ++ n⟩ = (p.join q).join ⟨n⟩ := by
  have hrel : Path.isAbsolute ⟨q.text ++ "/" ++ n⟩ = false := by
    obtain ⟨x, s, hs⟩ := List.exists_cons_of_ne_nil fun h => hne (String.toList_eq_nil_iff.1 h)
    rw [isAbsolute, hs] at hq
    simpa [isAbsolute, hs] using hq
  have hjoin : (p.join q).text ≠ "" := by simp [join_eq hp hq, hp]
  rw [join_eq hp hrel, join_eq hjoin hn, endsInSlash_join hp hq hne, hend, join_eq hp hq]
  simp only [Bool.false_eq_true, if_false, String.append_assoc]

end Path

namespace DirectoryCache

variable {c : DirectoryCache} {d : Disk} {q : Place} {s t : Spec} {p : String}

/-- The entries of a prefix with a slash in it are those of the rest of the prefix in a directory
below. -/
theorem pathFor_of_prefix {dir : Path} (sub : Path) (hdir : dir.text ≠ "")
    (hrel : sub.isAbsolute = false) (hne : sub.text ≠ "") (hend : sub.endsInSlash = false)
    (hp : '/' ∉ p.toList) (s : Spec) :
    pathFor ⟨dir, sub.text ++ "/" ++ p⟩ s.fingerprint
      = pathFor ⟨dir.join sub, p⟩ s.fingerprint := by
  have hn := not_isAbsolute_fileName (c := ⟨dir.join sub, p⟩) hp s.slash_not_mem_fingerprint
  have hjoin := Path.join_append hdir hrel hne hend hn
  rw [pathFor, pathFor, ← hjoin]
  simp only [fileName, String.append_assoc]

/-- Where a path stands to which an entry's file or nothing leads, nothing can be written below it,
and the reason tells which of both it is. -/
theorem writable_below_entry (hc : c.Admits) (hd : d.resolve c.directory = .ok (q, .directory))
    (image : Option Bytes) (he : d.entryAt? (c.entryPlace q s) = image.map Entry.file)
    (hp : '/' ∉ p.toList)
    (hcheck : checkPath (pathFor ⟨c.pathFor s.fingerprint, p⟩ t.fingerprint) = .ok ()) :
    d.writable (pathFor ⟨c.pathFor s.fingerprint, p⟩ t.fingerprint)
      = .error (if image.isSome then .notADirectory else .noSuchEntry) := by
  have hs := s.slash_not_mem_fingerprint
  have ht := t.slash_not_mem_fingerprint
  have hne := directory_ne_empty hd
  have htext : (c.pathFor s.fingerprint).text ≠ "" := by
    obtain ⟨x, -, hx⟩ := exists_text_pathFor hne hc.noSlash hs
    simp [hx, hne]
  have hnames := names_pathFor (c := ⟨c.pathFor s.fingerprint, p⟩) htext hp ht
  have hstart : d.start (pathFor ⟨c.pathFor s.fingerprint, p⟩ t.fingerprint)
      = d.start (c.pathFor s.fingerprint) := by
    rw [start, pathFor, Path.isAbsolute_join htext (not_isAbsolute_fileName hp ht), ← start]
  have hwalk : d.walk (d.start (c.pathFor s.fingerprint)) (c.pathFor s.fingerprint).names
      = d.step q (c.fileName s.fingerprint).toList := by
    rw [names_pathFor hne hc.noSlash hs, walk_concat, walk_directory hc.noSlash hs hd]
    rfl
  obtain ⟨-, hdot, hup⟩ := fileName_ne c s.fingerprint
  have hstep : d.step q (c.fileName s.fingerprint).toList
      = if image.isSome then .ok (c.entryPlace q s) else .error .noSuchEntry := by
    rw [step, (resolve_eq_ok_iff.1 hd).2.2.1]
    dsimp only
    rw [if_neg hdot, if_neg hup, if_neg (Nat.not_lt.2 (hc.name s)), ← entryPlace, he]
    cases image <;> rfl
  rw [writable, slot, hcheck, hnames, List.getLast?_concat, List.dropLast_concat, hstart, hwalk,
    hstep]
  rcases image with _ | b
  · rfl
  · simp only [Option.isSome_some, if_true, bind, Except.bind, he, Option.map_some]

end DirectoryCache

/-- Where there are no files, no image is found. -/
theorem CacheService.found?_of_no_file (cache : CacheService) {d : Disk}
    (h : ∀ q b, d.entryAt? q ≠ some (.file b)) (root : Path) (f : String) :
    CacheStore.found? (cache.store? root) .empty d f = none := by
  rcases hs : cache.store? root with _ | (_ | dir)
  · rfl
  · rfl
  · refine Option.map_eq_none_iff.2 (Option.eq_none_iff_forall_ne_some.2 ?_)
    rintro ⟨q, b⟩ hfile
    exact h q b (Disk.resolve_ok (DirectoryCache.file?_eq_some.1 hfile)).2

section Nest

variable {d : Disk} {s : Spec}

/-- Directories one below the other, each with the name of the spec's file for the prefix "p". -/
def nest (s : Spec) : Nat → Path
  | 0 => ⟨"/"⟩
  | k + 1 => DirectoryCache.pathFor ⟨nest s k, "p"⟩ s.fingerprint

def nestName (s : Spec) : String :=
  DirectoryCache.fileName ⟨⟨"/"⟩, "p"⟩ s.fingerprint

def nestPlace (s : Spec) (k : Nat) : Place :=
  List.replicate k (nestName s).toList

theorem slash_not_mem_nestName (s : Spec) : '/' ∉ (nestName s).toList :=
  DirectoryCache.slash_not_mem_fileName (by decide) s.slash_not_mem_fingerprint

theorem not_isAbsolute_nestName (s : Spec) : Path.isAbsolute ⟨nestName s⟩ = false :=
  DirectoryCache.not_isAbsolute_fileName (by decide) s.slash_not_mem_fingerprint

theorem length_nest_le (s : Spec) : ∀ k, (nest s k).text ≠ ""
    ∧ (Text.Utf8.encode (nest s k).text.toList).length ≤ 1 + 77 * k
  | 0 => by
    rw [nest]
    decide
  | k + 1 => by
    obtain ⟨hne, hlen⟩ := length_nest_le s k
    have hslash : '/' ∉ "p".toList := by decide
    obtain ⟨t, ht, htext⟩ := DirectoryCache.exists_text_pathFor (c := ⟨nest s k, "p"⟩) hne hslash
      s.slash_not_mem_fingerprint
    have hsep : (Text.Utf8.encode t.toList).length ≤ 1 := by rcases ht with rfl | rfl <;> decide
    have hp : (Text.Utf8.encode "p".toList).length = 1 := by decide
    refine ⟨by simp [nest, htext, hne], ?_⟩
    rw [nest, htext, String.toList_append, String.toList_append, Text.Utf8.encode_append,
      Text.Utf8.encode_append, List.length_append, List.length_append, CacheStore.length_fileName]
    dsimp only
    omega

theorem admits_nest (s : Spec) {k : Nat} (hk : k ≤ 50) :
    DirectoryCache.Admits ⟨nest s k, "p"⟩ := by
  obtain ⟨hne, hlen⟩ := length_nest_le s k
  have hp : '/' ∉ "p".toList ∧ '\x00' ∉ "p".toList
    ∧ (Text.Utf8.encode "p".toList).length = 1 := by decide
  refine CacheStore.admits_of_length hne hp.1 hp.2.1 ?_ ?_ <;>
    simp only [hp.2.2, maxPathLength, maxNameLength] <;> omega

theorem checkPath_nest (s : Spec) : ∀ {k : Nat}, k ≤ 50 → checkPath (nest s k) = .ok ()
  | 0, _ => by
    rw [nest]
    decide
  | _ + 1, hk => (admits_nest s (Nat.le_of_succ_le hk)).checkPath
      (checkPath_nest s (Nat.le_of_succ_le hk)) s

theorem resolve_nest (s : Spec) {k : Nat} (hk : k ≤ 50)
    (hd : ∀ j ≤ k, d.entryAt? (nestPlace s j) = some .directory) :
    d.resolve (nest s k) = .ok (nestPlace s k, .directory) := by
  induction k with
  | zero =>
    have hwalk : d.walk (d.start ⟨"/"⟩) (Path.names ⟨"/"⟩) = .ok [] := by
      rw [show Path.names ⟨"/"⟩ = [] by decide, start, if_pos (by decide)]
      rfl
    exact resolve_eq_ok_iff.2 ⟨checkPath_nest s hk, hwalk, rfl, fun h => absurd rfl h⟩
  | succ k ih =>
    have hk' := Nat.le_of_succ_le hk
    have hdir := ih hk' fun j hj => hd j (Nat.le_succ_of_le hj)
    have hplace : nestPlace s (k + 1) = nestPlace s k ++ [(nestName s).toList] :=
      List.replicate_succ'
    have hadmits := admits_nest s hk'
    have hcheck := hadmits.checkPath (checkPath_nest s hk') s
    have hentry := hd (k + 1) (Nat.le_refl _)
    rw [hplace] at hentry ⊢
    rw [nest]
    exact DirectoryCache.resolve_of_entry hadmits.noSlash s.slash_not_mem_fingerprint hdir hcheck
      (hadmits.name s) hentry

/-- A cache whose directory and whose prefix begin with that name. -/
def nestCache (s : Spec) : CacheService :=
  ⟨⟨true, .filesystem, some ⟨nestName s⟩⟩, nestName s ++ "/" ++ "p", ⟨"/tmp"⟩⟩

/-- A disk with two of the directories. -/
def nestDisk (s : Spec) : Disk :=
  ⟨[(nestPlace s 1, .directory), (nestPlace s 2, .directory)], []⟩

theorem store?_nestCache (s : Spec) (k : Nat) : (nestCache s).store? (nest s k)
    = some (.directory ⟨nest s (k + 1), nestName s ++ "/" ++ "p"⟩) := by
  have hrel : Path.isAbsolute ⟨nestName s⟩ = false := not_isAbsolute_nestName s
  simp only [CacheService.store?, nestCache, CacheService.storeFor, resolveDirectory, if_true, hrel,
    Bool.false_eq_true, if_false]
  rfl

theorem pathFor_nest (s t : Spec) (k : Nat) :
    DirectoryCache.pathFor ⟨nest s k, nestName s ++ "/" ++ "p"⟩ t.fingerprint
      = DirectoryCache.pathFor ⟨nest s (k + 1), "p"⟩ t.fingerprint := by
  have hslash := slash_not_mem_nestName s
  refine DirectoryCache.pathFor_of_prefix ⟨nestName s⟩ (length_nest_le s k).1
    (not_isAbsolute_nestName s) (DirectoryCache.fileName_ne _ _).1 ?_ (by decide) t
  rw [Path.endsInSlash, beq_eq_false_iff_ne]
  exact fun h => hslash (List.mem_of_getLast? h)

theorem directory_nestDisk (s : Spec) {k : Nat} (hk : k ≤ 2) :
    (nestDisk s).entryAt? (nestPlace s k) = some .directory := by
  match k, hk with
  | 0, _ => rfl
  | 1, _ => simp [nestDisk, entryAt?, nestPlace]
  | 2, _ => simp [nestDisk, entryAt?, nestPlace]

theorem entryAt?_nestDisk (s : Spec) {q : Place} (h : 2 < q.length) :
    (nestDisk s).entryAt? q = none := by
  have hne : ∀ k ≤ 2, nestPlace s k ≠ q := fun k hk hq => by
    rw [← hq, nestPlace, List.length_replicate] at h
    omega
  have hnil : q ≠ [] := (hne 0 (by omega)).symm
  simp [nestDisk, entryAt?, hnil, hne]

theorem not_file_nestDisk (s : Spec) (q : Place) (b : Bytes) :
    (nestDisk s).entryAt? q ≠ some (.file b) := by
  rw [entryAt?]
  split_ifs
  · simp
  · intro h
    obtain ⟨x, hx, hb⟩ := Option.map_eq_some_iff.1 h
    have hmem := List.mem_of_find?_eq_some hx
    simp only [nestDisk, List.mem_cons, List.not_mem_nil, or_false] at hmem
    rcases hmem with rfl | rfl <;> cases hb

theorem resolve_nestDisk (s : Spec) {k : Nat} (hk : k ≤ 2) :
    (nestDisk s).resolve (nest s k) = .ok (nestPlace s k, .directory) :=
  resolve_nest s (by omega) fun _ hj => directory_nestDisk s (by omega)

/-- The spec's file comes below the second directory. -/
theorem place_nestDisk (s : Spec) :
    DirectoryCache.place ⟨nest s 1, nestName s ++ "/" ++ "p"⟩ (nestDisk s) s.fingerprint
      = .ok (nestPlace s 3) := by
  have hplace := (admits_nest s (k := 2) (by omega)).place_eq (resolve_nestDisk s (by omega))
    (s := s) (by simp [entryAt?_nestDisk, DirectoryCache.entryPlace, nestPlace])
  have hw := (DirectoryCache.place_eq_ok hplace).2
  rw [DirectoryCache.place, resolve_nestDisk s (by omega), pathFor_nest]
  dsimp only
  rw [hw]
  rfl

/-- Another spec's file would come below that file, and the reason why it cannot is told by the
disk. -/
theorem place_below_nestDisk (s t : Spec) {d : Disk} (image : Option Bytes)
    (hd : SameDirectories (nestDisk s) d)
    (he : d.entryAt? (nestPlace s 3) = image.map Entry.file) :
    ∃ path, DirectoryCache.place ⟨nest s 2, nestName s ++ "/" ++ "p"⟩ d t.fingerprint
      = .error (.ioFailure path (if image.isSome then .notADirectory else .noSuchEntry)) := by
  have hres := hd.resolve_directory (resolve_nestDisk s (k := 2) (by omega))
  have hcheck := (admits_nest s (k := 3) (by omega)).checkPath (checkPath_nest s (by omega)) t
  have hw := DirectoryCache.writable_below_entry (t := t) (p := "p")
    (admits_nest s (k := 2) (by omega)) hres (s := s) image he (by decide) hcheck
  refine ⟨DirectoryCache.pathFor ⟨nest s 3, "p"⟩ t.fingerprint, ?_⟩
  rw [DirectoryCache.place, hres, pathFor_nest]
  dsimp only
  rw [nest, hw]
  rfl

end Nest

end GraphBlock
