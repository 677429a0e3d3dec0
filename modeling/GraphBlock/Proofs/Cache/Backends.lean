import GraphBlock.Proofs.Cache.EntryPlace

/-!
# Memory and directory keep the same

A row of stores and lookups is answered by what was stored last (`Ask.answers`), whether the images
are kept in memory or in a directory (`CacheStore.backends_agree`).  Each backend keeps a relation
between what was asked of it and what it holds, and one ask is answered by that relation and keeps
it (`CacheStore.ask_memory`, `CacheStore.ask_directory`), so a row is (`CacheStore.askAll_of_ask`).
No two fingerprints share a file, and a store replaces all of the file that it writes.
-/

namespace GraphBlock

open Disk

/-- What is asked of a place where images are kept. -/
inductive Ask where
  | store (spec : Spec) (image : Bytes)
  | lookup (spec : Spec)

namespace Ask

/-- The image that this stores for a fingerprint. -/
def image? (f : String) : Ask → Option Bytes
  | store spec image => if spec.fingerprint = f then some image else none
  | lookup _ => none

/-- The image that was stored last for a fingerprint. -/
def lastStored (past : List Ask) (f : String) : Option Bytes :=
  (past.filterMap (image? f)).getLast?

/-- A store succeeds, and a lookup finds the image that was stored last or nothing. -/
def answer (past : List Ask) : Ask → CachePool.Answer
  | store _ _ => .stored (.ok ())
  | lookup spec => .found (lastStored past spec.fingerprint)

/-- The answers in a row, each by what was asked before. -/
def answers (past : List Ask) : List Ask → List CachePool.Answer
  | [] => []
  | a :: as => a.answer past :: answers (past ++ [a]) as

theorem lastStored_store (past : List Ask) (spec : Spec) (image : Bytes) (f : String) :
    lastStored (past ++ [store spec image]) f
      = if f = spec.fingerprint then some image else lastStored past f := by
  rw [lastStored, List.filterMap_append, List.filterMap_cons, List.filterMap_nil, image?]
  by_cases h : f = spec.fingerprint
  · rw [if_pos h.symm, if_pos h, List.getLast?_concat]
  · rw [if_neg (Ne.symm h), if_neg h, List.append_nil, lastStored]

theorem lastStored_lookup (past : List Ask) (spec : Spec) (f : String) :
    lastStored (past ++ [lookup spec]) f = lastStored past f := by
  rw [lastStored, List.filterMap_append, List.filterMap_cons, List.filterMap_nil, image?,
    List.append_nil, lastStored]

end Ask

namespace CacheStore

section Run

variable {m : Type → Type} [Monad m] [FileSystem m]

def ask (s : CacheStore) (map : MemoryCache) : Ask → m (MemoryCache × CachePool.Answer)
  | .store spec image => do
    let (map, r) ← s.store map spec.fingerprint image
    return (map, .stored r)
  | .lookup spec => do
    return (map, .found (← s.lookup map spec.fingerprint))

def askAll (s : CacheStore) (map : MemoryCache) :
    List Ask → m (MemoryCache × List CachePool.Answer)
  | [] => return (map, [])
  | a :: as => do
    let (map, r) ← s.ask map a
    let (map, rs) ← s.askAll map as
    return (map, r :: rs)

end Run

variable {s : CacheStore} {map : MemoryCache} {d : Disk} {past : List Ask}

theorem run_askAll_cons {a : Ask} {r : CachePool.Answer} {map' : MemoryCache} {d' : Disk}
    (h : (s.ask map a : StateM Disk _).run d = ((map', r), d')) (as : List Ask) :
    (s.askAll map (a :: as) : StateM Disk _).run d
      = (((s.askAll map' as : StateM Disk _).run d').1.map id (r :: ·),
        ((s.askAll map' as : StateM Disk _).run d').2) := by
  rw [askAll, StateT.run_bind, h]
  rfl

/-- What answers one ask and is kept by it answers a row of them. -/
theorem askAll_of_ask {K : List Ask → Holdings → Prop}
    (hstep : ∀ {past map d} (a : Ask), K past (map, d) → ∃ map' d',
      (s.ask map a : StateM Disk _).run d = ((map', a.answer past), d')
        ∧ K (past ++ [a]) (map', d')) :
    ∀ (as : List Ask) {past map d}, K past (map, d) →
      ((s.askAll map as : StateM Disk _).run d).1.2 = Ask.answers past as
  | [], _, _, _, _ => rfl
  | a :: as, past, map, d, h => by
    obtain ⟨map', d', ha, h'⟩ := hstep a h
    have ih := askAll_of_ask hstep as h'
    rw [run_askAll_cons ha, Prod.map_snd, ih, Ask.answers]

theorem ask_memory (a : Ask) (h : ∀ f, map.lookup f = Ask.lastStored past f) :
    ∃ map' d', (memory.ask map a : StateM Disk _).run d = ((map', a.answer past), d')
      ∧ ∀ f, map'.lookup f = Ask.lastStored (past ++ [a]) f := by
  rcases a with ⟨spec, image⟩ | spec
  · refine ⟨map.insert spec.fingerprint image, d, rfl, fun f => ?_⟩
    rw [MemoryCache.lookup_insert, h, Ask.lastStored_store]
  · refine ⟨map, d, ?_, fun f => ?_⟩
    · rw [Ask.answer, ← h]
      rfl
    · rw [h, Ask.lastStored_lookup]

end CacheStore

namespace DirectoryCache

variable {c : DirectoryCache} {d : Disk} {q : Place} {past : List Ask}

/-- The prefix has no slash and no zero in it, and the disk takes the names of the files. -/
structure Admits (c : DirectoryCache) : Prop where
  noSlash : '/' ∉ c.filePrefix.toList
  noNul : '\x00' ∉ c.filePrefix.toList
  name : ∀ s : Spec, (Text.Utf8.encode (c.fileName s.fingerprint).toList).length ≤ maxNameLength
  path : ∀ s : Spec,
    (Text.Utf8.encode (c.pathFor s.fingerprint).text.toList).length ≤ maxPathLength

/-- Where the file of a spec's image stands in the directory at `q`. -/
def entryPlace (c : DirectoryCache) (q : Place) (s : Spec) : Place :=
  q ++ [(c.fileName s.fingerprint).toList]

theorem entryPlace_inj {s t : Spec} :
    c.entryPlace q s = c.entryPlace q t ↔ s.fingerprint = t.fingerprint := by
  simp [entryPlace, fileName, String.toList_inj]

theorem Admits.checkPath (h : c.Admits) (hdir : Disk.checkPath c.directory = .ok ()) (s : Spec) :
    Disk.checkPath (c.pathFor s.fingerprint) = .ok () := by
  obtain ⟨hnul, hne, -⟩ := checkPath_eq_ok_iff.1 hdir
  obtain ⟨t, ht, he⟩ := exists_text_pathFor hne h.noSlash s.slash_not_mem_fingerprint
  refine checkPath_eq_ok_iff.2 ⟨?_, fun hnil => ?_, h.path s⟩
  · have htail : '\x00' ∉ t.toList := by rcases ht with rfl | rfl <;> decide
    simp [he, fileName, hnul, htail, h.noNul, s.nul_not_mem_fingerprint]
  · simp [he, hne] at hnil

theorem Admits.place_eq (h : c.Admits) (hd : d.resolve c.directory = .ok (q, .directory))
    {s : Spec} (hfree : d.entryAt? (c.entryPlace q s) ≠ some .directory) :
    c.place d s.fingerprint = .ok (c.entryPlace q s) :=
  DirectoryCache.place_eq h.noSlash s.slash_not_mem_fingerprint hd
    (h.checkPath (resolve_eq_ok_iff.1 hd).1 s) (h.name s) hfree

theorem Admits.file?_eq (h : c.Admits) (hd : d.resolve c.directory = .ok (q, .directory))
    {s : Spec} {image : Option Bytes}
    (he : d.entryAt? (c.entryPlace q s) = image.map Entry.file) :
    (c.file? d s.fingerprint).map Prod.snd = image := by
  have hf := s.slash_not_mem_fingerprint
  rcases image with _ | b
  · rw [file?_of_vacant h.noSlash hf hd he]
    rfl
  · rw [file?_of_entry h.noSlash hf hd (h.checkPath (resolve_eq_ok_iff.1 hd).1 s) (h.name s) he]
    rfl

/-- The directory is there and has the images in it that were stored last. -/
structure Mirrors (c : DirectoryCache) (q : Place) (past : List Ask) (d : Disk) : Prop where
  directory : d.resolve c.directory = .ok (q, .directory)
  entry : ∀ s : Spec,
    d.entryAt? (c.entryPlace q s) = (Ask.lastStored past s.fingerprint).map Entry.file

theorem Mirrors.written (hc : c.Admits) (h : c.Mirrors q past d) (spec : Spec) (image : Bytes) :
    c.place d spec.fingerprint = .ok (c.entryPlace q spec)
      ∧ c.Mirrors q (past ++ [.store spec image]) (c.written d spec.fingerprint image) := by
  have hplace : c.place d spec.fingerprint = .ok (c.entryPlace q spec) :=
    hc.place_eq h.directory fun hdir => by
      rw [h.entry] at hdir
      obtain ⟨b, -, hb⟩ := Option.map_eq_some_iff.1 hdir
      cases hb
  refine ⟨hplace, sameDirectories_written.symm.resolve_directory h.directory, fun s => ?_⟩
  rw [entryAt?_written, hplace, h.entry, Ask.lastStored_store]
  simp only [Except.ok.injEq, entryPlace_inj, eq_comm (a := spec.fingerprint)]
  split <;> rfl

end DirectoryCache

namespace CacheStore

variable {c : DirectoryCache} {map : MemoryCache} {d : Disk} {q : Place} {past : List Ask}

theorem run_ask_store (c : DirectoryCache) (map : MemoryCache) (s : Spec) (b : Bytes) (d : Disk) :
    ((directory c).ask map (.store s b) : StateM Disk _).run d
      = ((map, .stored ((c.place d s.fingerprint).map fun _ => ())),
        c.written d s.fingerprint b) :=
  run_bind_eq.2 ⟨_, _, run_store_directory c map s.fingerprint b d, rfl⟩

theorem run_ask_lookup (c : DirectoryCache) (map : MemoryCache) (s : Spec) (d : Disk) :
    ((directory c).ask map (.lookup s) : StateM Disk _).run d
      = ((map, .found ((c.file? d s.fingerprint).map Prod.snd)), d) :=
  run_bind_eq.2 ⟨_, _, c.run_lookup s.fingerprint d, rfl⟩

theorem ask_directory (hc : c.Admits) (a : Ask) (h : c.Mirrors q past d) :
    ∃ map' d', ((directory c).ask map a : StateM Disk _).run d = ((map', a.answer past), d')
      ∧ c.Mirrors q (past ++ [a]) d' := by
  rcases a with ⟨spec, image⟩ | spec
  · obtain ⟨hplace, hm⟩ := h.written hc spec image
    refine ⟨map, _, ?_, hm⟩
    rw [run_ask_store, hplace]
    rfl
  · refine ⟨map, d, ?_, h.directory, fun s => ?_⟩
    · rw [run_ask_lookup, hc.file?_eq h.directory (h.entry spec)]
      rfl
    · rw [h.entry, Ask.lastStored_lookup]

theorem askAll_directory (hc : c.Admits) (hd : d.resolve c.directory = .ok (q, .directory))
    (hfree : ∀ s : Spec, d.entryAt? (c.entryPlace q s) = none) (map : MemoryCache)
    (as : List Ask) : (((directory c).askAll map as : StateM Disk _).run d).1.2
      = Ask.answers [] as :=
  askAll_of_ask (K := fun past k => c.Mirrors q past k.2) (fun a h => ask_directory hc a h) as
    ⟨hd, hfree⟩

/-- An empty memory and a directory without an entry answer every row of stores and lookups alike:
stores succeed, and a lookup finds what was stored last for its fingerprint. -/
theorem backends_agree (hc : c.Admits) (hd : d.resolve c.directory = .ok (q, .directory))
    (hfree : ∀ s : Spec, d.entryAt? (q ++ [(c.fileName s.fingerprint).toList]) = none)
    (as : List Ask) (d' : Disk) :
    (((directory c).askAll map as : StateM Disk _).run d).1.2
        = ((memory.askAll .empty as : StateM Disk _).run d').1.2
      ∧ (((directory c).askAll map as : StateM Disk _).run d).1.2 = Ask.answers [] as := by
  have hmemory : ((memory.askAll .empty as : StateM Disk _).run d').1.2 = Ask.answers [] as :=
    askAll_of_ask (K := fun past k => ∀ f, k.1.lookup f = Ask.lastStored past f)
      (fun a h => ask_memory a h) as fun _ => rfl
  have hdirectory : (((directory c).askAll map as : StateM Disk _).run d).1.2
      = Ask.answers [] as := askAll_directory hc hd hfree map as
  exact ⟨hdirectory.trans hmemory.symm, hdirectory⟩

section Overwrite

theorem length_encode_of_ascii : ∀ {t : List Char}, (∀ c ∈ t, c.val ≤ 127) →
    (Text.Utf8.encode t).length = t.length
  | [], _ => rfl
  | c :: t, h => by
    rw [Text.Utf8.length_encode_cons, Char.utf8Size_eq_one_iff.2 (h c List.mem_cons_self),
      length_encode_of_ascii fun c hc => h c (List.mem_cons_of_mem _ hc), List.length_cons]
    exact Nat.add_comm 1 _

/-- A name is longer than the prefix by what all names have in common. -/
theorem length_fileName (c : DirectoryCache) (s : Spec) :
    (Text.Utf8.encode (c.fileName s.fingerprint).toList).length
      = (Text.Utf8.encode c.filePrefix.toList).length + 75 := by
  have hdigit : ∀ n : Fin 16, (Sha256.hexDigit n).val ≤ 127 := by decide
  have hascii : (Text.Utf8.encode s.fingerprint.toList).length = 64 := by
    rw [length_encode_of_ascii fun c hc => by
      obtain ⟨n, rfl⟩ := Spec.mem_fingerprint hc
      exact hdigit n]
    rw [s.fingerprint_eq, fingerprintOf, String.toList_ofList, Sha256.length_hex,
      Sha256.length_digest]
  have hinfix : (Text.Utf8.encode "-graph-".toList).length = 7
      ∧ (Text.Utf8.encode ".png".toList).length = 4 := by decide
  simp only [DirectoryCache.fileName, String.toList_append, Text.Utf8.encode_append,
    List.length_append, hascii, hinfix]

/-- The disk takes the names of the files if the prefix and the directory are short enough. -/
theorem admits_of_length (hdir : c.directory.text ≠ "") (hslash : '/' ∉ c.filePrefix.toList)
    (hnul : '\x00' ∉ c.filePrefix.toList)
    (hname : (Text.Utf8.encode c.filePrefix.toList).length + 75 ≤ maxNameLength)
    (hpath : (Text.Utf8.encode c.directory.text.toList).length
      + (Text.Utf8.encode c.filePrefix.toList).length + 76 ≤ maxPathLength) : c.Admits := by
  refine ⟨hslash, hnul, fun s => by rw [length_fileName]; exact hname, fun s => ?_⟩
  obtain ⟨t, ht, he⟩ := DirectoryCache.exists_text_pathFor hdir hslash s.slash_not_mem_fingerprint
  have hsep : (Text.Utf8.encode t.toList).length ≤ 1 := by rcases ht with rfl | rfl <;> decide
  rw [he, String.toList_append, String.toList_append, Text.Utf8.encode_append,
    Text.Utf8.encode_append, List.length_append, List.length_append, length_fileName]
  omega

theorem admits_short : DirectoryCache.Admits ⟨⟨"k"⟩, "p"⟩ :=
  admits_of_length (by decide) (by decide) (by decide) (by decide) (by decide)

/-- A miss, a store, a store over it and a hit. -/
theorem backends_agree_overwrite :
    let s := Spec.ofContent [] .default
    let asks := [.lookup s, .store s [1, 2], .store s [3], .lookup s]
    let d : Disk := ⟨[([['k']], .directory)], []⟩
    let found := [.found none, .stored (.ok ()), .stored (.ok ()), .found (some [3])]
    DirectoryCache.Admits ⟨⟨"k"⟩, "p"⟩ ∧ d.resolve ⟨"k"⟩ = .ok ([['k']], .directory)
      ∧ (((directory ⟨⟨"k"⟩, "p"⟩).askAll .empty asks : StateM Disk _).run d).1.2 = found
      ∧ ((memory.askAll .empty asks : StateM Disk _).run d).1.2 = found := by
  intro s asks d found
  have hd : d.resolve ⟨"k"⟩ = .ok ([['k']], .directory) := by rfl
  have hanswers : Ask.answers [] asks = found := by
    simp [asks, found, Ask.answers, Ask.answer, Ask.lastStored, Ask.image?]
  obtain ⟨hsame, hlast⟩ := @backends_agree _ .empty _ _ admits_short hd
    (fun s => by simp [d, entryAt?]) asks d
  exact ⟨admits_short, hd, hlast.trans hanswers, (hsame.symm.trans hlast).trans hanswers⟩

end Overwrite

end CacheStore

end GraphBlock
