import GraphBlock.Proofs.Cache.Backends
import GraphBlock.Proofs.Cache.DirectChild
import GraphBlock.Proofs.Cache.OneFile
import GraphBlock.Proofs.Render.Alike

/-!
# Prefixes keep caches apart

A place with the name of an entry's file belongs to one prefix and one fingerprint.  Two disks with
the same directories and the same in the places of a cache (`DirectoryCache.SameEntries`) cannot be
told apart through that cache (`CacheStore.ask_sameEntries`), and a store through a cache with
another prefix makes such a disk (`DirectoryCache.sameEntries_written`).  So what is asked of one
cache makes no difference to the other, even in one directory (`CacheStore.prefixes_isolate`).
-/

namespace GraphBlock

open Disk

namespace DirectoryCache

variable {c e : DirectoryCache} {d d' d'' : Disk} {f : String} {q : Place} {s t : Spec} {b : Bytes}

theorem getLast?_names_pathFor (hp : '/' ∉ c.filePrefix.toList) (hf : '/' ∉ f.toList) :
    (c.pathFor f).names.getLast? = some (c.fileName f).toList := by
  have hname : Path.names ⟨c.fileName f⟩ = [(c.fileName f).toList] :=
    Path.names_of_not_mem (fileName_ne c f).1 (slash_not_mem_fileName hp hf)
  rw [pathFor, Path.getLast?_names_join _ _ (by simp [hname]), hname]
  rfl

theorem eq_of_same_pathFor (hc : '/' ∉ c.filePrefix.toList) (he : '/' ∉ e.filePrefix.toList)
    (h : (c.pathFor s.fingerprint).Same (e.pathFor t.fingerprint)) :
    c.filePrefix = e.filePrefix ∧ s.fingerprint = t.fingerprint := by
  have hcomponents := h.components
  rw [components_pathFor hc s.slash_not_mem_fingerprint,
    components_pathFor he t.slash_not_mem_fingerprint] at hcomponents
  have hname := List.append_inj_right' hcomponents rfl
  exact fileName_inj (String.toList_inj.1 (List.singleton_inj.1 hname))

/-- The two disks have the same directories, and the same wherever an entry of the cache may
stand. -/
structure SameEntries (e : DirectoryCache) (d d' : Disk) : Prop where
  directories : SameDirectories d d'
  entry : ∀ (s : Spec) (q : Place), q.getLast? = some (e.fileName s.fingerprint).toList →
    d.entryAt? q = d'.entryAt? q

namespace SameEntries

theorem refl (e : DirectoryCache) (d : Disk) : e.SameEntries d d :=
  ⟨.refl d, fun _ _ _ => rfl⟩

theorem symm (h : e.SameEntries d d') : e.SameEntries d' d :=
  ⟨h.directories.symm, fun s q hq => (h.entry s q hq).symm⟩

theorem trans (h : e.SameEntries d d') (h' : e.SameEntries d' d'') : e.SameEntries d d'' :=
  ⟨h.directories.trans h'.directories, fun s q hq => (h.entry s q hq).trans (h'.entry s q hq)⟩

variable (he : '/' ∉ e.filePrefix.toList) (h : e.SameEntries d d')

include he h

theorem resolve_imp {x : Entry} (hd : d.resolve (e.pathFor s.fingerprint) = .ok (q, x)) :
    d'.resolve (e.pathFor s.fingerprint) = .ok (q, x) := by
  obtain ⟨-, hdot, hup⟩ := fileName_ne e s.fingerprint
  have hlast := getLast?_of_resolve hd
    (getLast?_names_pathFor he s.slash_not_mem_fingerprint) hdot hup
  exact h.directories.resolve_imp (h.entry s q hlast) hd

theorem file?_eq (s : Spec) : e.file? d s.fingerprint = e.file? d' s.fingerprint := by
  ext ⟨q, b⟩
  rw [file?_eq_some, file?_eq_some]
  exact ⟨h.resolve_imp he, h.symm.resolve_imp he⟩

theorem place_eq (s : Spec) : e.place d s.fingerprint = e.place d' s.fingerprint :=
  place_eq_of_sameDirectories h.directories he s.slash_not_mem_fingerprint

/-- The same store on both disks. -/
theorem written (s : Spec) (b : Bytes) :
    e.SameEntries (e.written d s.fingerprint b) (e.written d' s.fingerprint b) where
  directories := sameDirectories_written.trans (h.directories.trans sameDirectories_written.symm)
  entry t q hq := by
    rw [entryAt?_written, entryAt?_written, h.place_eq he, h.entry t q hq]

end SameEntries

/-- A store through a cache with another prefix. -/
theorem sameEntries_written (hne : c.filePrefix ≠ e.filePrefix) (hc : '/' ∉ c.filePrefix.toList)
    (s : Spec) (b : Bytes) (d : Disk) : e.SameEntries d (c.written d s.fingerprint b) where
  directories := sameDirectories_written.symm
  entry t q hq := by
    rw [entryAt?_written, if_neg]
    intro hplace
    have hlast := getLast?_of_writable (place_eq_ok hplace).2
    rw [hq, getLast?_names_pathFor hc s.slash_not_mem_fingerprint, Option.some.injEq,
      String.toList_inj] at hlast
    exact hne (fileName_inj hlast).1.symm

end DirectoryCache

namespace CacheStore

variable {c e : DirectoryCache} {d d' : Disk} {map : MemoryCache}

/-- What is asked of a cache is answered alike on both disks, and they stay alike. -/
theorem ask_sameEntries (he : '/' ∉ e.filePrefix.toList) (h : e.SameEntries d d') (a : Ask) :
    (((directory e).ask map a : StateM Disk _).run d).1
        = (((directory e).ask map a : StateM Disk _).run d').1
      ∧ e.SameEntries (((directory e).ask map a : StateM Disk _).run d).2
        (((directory e).ask map a : StateM Disk _).run d').2 := by
  rcases a with ⟨s, b⟩ | s
  · rw [run_ask_store, run_ask_store, h.place_eq he]
    exact ⟨rfl, h.written he s b⟩
  · rw [run_ask_lookup, run_ask_lookup, h.file?_eq he]
    exact ⟨rfl, h⟩

theorem askAll_sameEntries (he : '/' ∉ e.filePrefix.toList) :
    ∀ (as : List Ask) (map : MemoryCache) {d d'}, e.SameEntries d d' →
      (((directory e).askAll map as : StateM Disk _).run d).1
        = (((directory e).askAll map as : StateM Disk _).run d').1
  | [], _, _, _, _ => rfl
  | a :: as, map, d, d', h => by
    obtain ⟨hanswer, hnext⟩ := ask_sameEntries he h a
    rcases hd : ((directory e).ask map a : StateM Disk _).run d with ⟨⟨map₁, r⟩, d₁⟩
    rcases hd' : ((directory e).ask map a : StateM Disk _).run d' with ⟨⟨map₂, r'⟩, d₂⟩
    rw [hd, hd'] at hanswer hnext
    cases hanswer
    rw [run_askAll_cons hd, run_askAll_cons hd']
    dsimp only
    rw [askAll_sameEntries he as map₁ hnext]

/-- What is asked of a cache with another prefix leaves the entries of this one alone. -/
theorem sameEntries_askAll (hne : c.filePrefix ≠ e.filePrefix) (hc : '/' ∉ c.filePrefix.toList) :
    ∀ (as : List Ask) (map : MemoryCache) (d : Disk),
      e.SameEntries d (((directory c).askAll map as : StateM Disk _).run d).2
  | [], _, d => .refl e d
  | a :: as, map, d => by
    have hask : e.SameEntries d (((directory c).ask map a : StateM Disk _).run d).2 := by
      rcases a with ⟨s, b⟩ | s
      · rw [run_ask_store]
        exact DirectoryCache.sameEntries_written hne hc s b d
      · rw [run_ask_lookup]
        exact .refl e d
    exact hask.trans (sameEntries_askAll hne hc as _ _)

/-- Caches whose prefixes differ, with no slash in them, do not interfere, even in one directory:
after whatever is asked of the one, every lookup through the other finds what it found before, and
every row of stores and lookups is answered as it was; and no two entries, of one cache or of both,
have the same path unless they are of one cache and one fingerprint. -/
theorem prefixes_isolate (hne : c.filePrefix ≠ e.filePrefix) (hc : '/' ∉ c.filePrefix.toList)
    (he : '/' ∉ e.filePrefix.toList) :
    (∀ (asks : List Ask) (map : MemoryCache) (d d' : Disk),
      (((directory c).askAll map asks : StateM Disk _).run d).2 = d' →
        (∀ s : Spec, (e.lookup s.fingerprint : StateM Disk _).run d'
          = (((e.lookup s.fingerprint : StateM Disk _).run d).1, d'))
        ∧ ∀ asks' map', (((directory e).askAll map' asks' : StateM Disk _).run d').1
          = (((directory e).askAll map' asks' : StateM Disk _).run d).1)
      ∧ (∀ s t : Spec, (c.pathFor s.fingerprint).Same (c.pathFor t.fingerprint) ↔
        s.fingerprint = t.fingerprint)
      ∧ ∀ s t : Spec, ¬ (c.pathFor s.fingerprint).Same (e.pathFor t.fingerprint) := by
  refine ⟨fun asks map d d' hrun => ?_, fun s t => ?_, fun s t h => ?_⟩
  · have hsame : e.SameEntries d d' := hrun ▸ sameEntries_askAll hne hc asks map d
    refine ⟨fun s => ?_, fun asks' map' => (askAll_sameEntries he asks' map' hsame).symm⟩
    rw [DirectoryCache.run_lookup, DirectoryCache.run_lookup, hsame.file?_eq he]
  · exact ⟨fun h => (DirectoryCache.eq_of_same_pathFor hc hc h).2, fun h => h ▸ ⟨rfl, rfl⟩⟩
  · exact hne (DirectoryCache.eq_of_same_pathFor hc he h).1

/-- One prefix goes on like the names of the other's files; an image that is stored through the one
is not found through the other. -/
theorem prefixes_isolate_infix :
    let c : DirectoryCache := ⟨⟨"k"⟩, "p"⟩
    let e : DirectoryCache := ⟨⟨"k"⟩, "p-graph-p"⟩
    let s := Spec.ofContent [] .default
    let d : Disk := ⟨[([['k']], .directory)], []⟩
    c.filePrefix ≠ e.filePrefix ∧ '/' ∉ c.filePrefix.toList ∧ '/' ∉ e.filePrefix.toList
      ∧ ∃ map d', ((directory c).askAll .empty [.store s [1], .lookup s] : StateM Disk _).run d
          = ((map, [.stored (.ok ()), .found (some [1])]), d')
        ∧ (e.lookup s.fingerprint : StateM Disk _).run d' = (none, d') := by
  intro c e s d
  have hne : c.filePrefix ≠ e.filePrefix := by decide
  have hc : '/' ∉ c.filePrefix.toList := by decide
  have he : '/' ∉ e.filePrefix.toList := by decide
  have hd : d.resolve ⟨"k"⟩ = .ok ([['k']], .directory) := by rfl
  have hadmits : c.Admits := admits_short
  have hvacant : ∀ t : Spec, d.entryAt? (c.entryPlace [['k']] t) = none := fun t => by
    simp [d, DirectoryCache.entryPlace, entryAt?]
  have hanswers := askAll_directory hadmits hd hvacant .empty [.store s [1], .lookup s]
  rcases hrun : ((directory c).askAll .empty [.store s [1], .lookup s] : StateM Disk _).run d with
    ⟨⟨map, answers⟩, d'⟩
  rw [hrun] at hanswers
  obtain ⟨hlookup, -⟩ := (prefixes_isolate hne hc he).1 _ .empty d d' (congrArg Prod.snd hrun)
  have hmiss : e.file? d s.fingerprint = none :=
    DirectoryCache.file?_of_vacant he s.slash_not_mem_fingerprint hd (by simp [d, entryAt?])
  refine ⟨hne, hc, he, map, d', ?_, ?_⟩
  · obtain rfl : answers = _ := hanswers
    simp [Ask.answers, Ask.answer, Ask.lastStored, Ask.image?]
  · rw [hlookup s, DirectoryCache.run_lookup, hmiss]
    rfl

end CacheStore

end GraphBlock
