import GraphBlock.Proofs.Cache.EntryPlace

/-!
# A missing directory

A path that goes on below another one leads nowhere unless the other leads to a directory
(`Disk.resolve_directory_of_join`).  So where a store fails because its directory is missing, no
lookup finds an image, as long as the paths of the entries do go through the directory.  If they do
not (`CacheService.Bypasses`), a lookup finds what stands under the bare name of the file
(`CacheService.lookup_of_missing_directory`), even while stores report that the directory is missing
(`CacheService.missing_directory_still_hits`).
-/

namespace GraphBlock

open Disk

namespace Disk

variable {d : Disk} {p q : Path} {start place r : Place} {x : Entry} {n : List Char}

theorem walk_append (ns ms : List (List Char)) :
    d.walk start (ns ++ ms) = (d.walk start ns).bind fun place => d.walk place ms := by
  rw [walk, List.foldlM_append]
  rfl

theorem directory_of_step (h : d.step place n = .ok r) : d.entryAt? place = some .directory := by
  rw [step] at h
  split at h
  · cases h
  · cases h
  · assumption

/-- A walk that goes on from a place starts in a directory. -/
theorem directory_of_walk {ns : List (List Char)} (hns : ns ≠ []) (h : d.walk place ns = .ok r) :
    d.entryAt? place = some .directory := by
  obtain ⟨n, ms, rfl⟩ := List.exists_cons_of_ne_nil hns
  rw [walk, List.foldlM_cons] at h
  rcases hstep : d.step place n with err | place'
  · rw [hstep] at h
    cases h
  · exact directory_of_step hstep

theorem checkPath_of_join (hp : p.text ≠ "") (hq : q.isAbsolute = false)
    (h : checkPath (p.join q) = .ok ()) : checkPath p = .ok () := by
  obtain ⟨s, -, htext⟩ := Path.exists_text_join hp hq
  obtain ⟨hnul, -, hlen⟩ := checkPath_eq_ok_iff.1 h
  simp only [htext, String.toList_append, Text.Utf8.encode_append, List.length_append,
    List.mem_append, not_or] at hnul hlen
  exact checkPath_eq_ok_iff.2 ⟨hnul.1.1, hp, by omega⟩

/-- What is reached below a path is reached through a directory. -/
theorem resolve_directory_of_join (hp : p.text ≠ "") (hq : q.isAbsolute = false)
    (hnames : q.names ≠ []) (h : d.resolve (p.join q) = .ok (r, x)) :
    ∃ place, d.resolve p = .ok (place, .directory) := by
  obtain ⟨hc, hw, -, -⟩ := resolve_eq_ok_iff.1 h
  rw [Disk.start, Path.isAbsolute_join hp hq, ← Disk.start, Path.names_join hp hq,
    walk_append] at hw
  rcases hplace : d.walk (d.start p) p.names with err | place
  · rw [hplace] at hw
    cases hw
  · rw [hplace] at hw
    exact ⟨place, resolve_eq_ok_iff.2 ⟨checkPath_of_join hp hq hc, hplace,
      directory_of_walk hnames hw, fun hne => absurd rfl hne⟩⟩

end Disk

namespace DirectoryCache

variable {c : DirectoryCache} {d : Disk} {f : String} {q : Place} {b : Bytes}

theorem names_fileName_ne_nil (c : DirectoryCache) (f : String) :
    Path.names ⟨c.fileName f⟩ ≠ [] := by
  obtain ⟨w, hw⟩ :=
    Path.exists_getLast?_pieces (c.filePrefix.toList ++ "-graph-".toList ++ f.toList)
  have hraw : (Path.rawNames ⟨c.fileName f⟩).getLast? = some (w ++ ".png".toList) := by
    rw [← hw ".png".toList (by decide), Path.rawNames, fileName]
    simp only [String.toList_append]
  have hlast := Path.getLast?_filter_of_ne_nil (by simp) hraw
  intro hnil
  rw [Path.names] at hnil
  rw [hnil] at hlast
  cases hlast

/-- What stands under the bare name of the file counts only if the path has nothing in front. -/
theorem resolve_of_missing_directory (hmissing : ∀ q, d.resolve c.directory ≠ .ok (q, .directory)) :
    d.resolve (c.pathFor f) = .ok (q, .file b) ↔
      (c.directory.text = "" ∨ c.filePrefix.toList.head? = some '/')
        ∧ d.resolve ⟨c.fileName f⟩ = .ok (q, .file b) := by
  by_cases h : c.directory.text = "" ∨ c.filePrefix.toList.head? = some '/'
  · rw [pathFor_eq_fileName h, and_iff_right h]
  · refine iff_of_false (fun hr => ?_) fun hr => h hr.1
    rw [not_or] at h
    have hrel : Path.isAbsolute ⟨c.fileName f⟩ = false :=
      Bool.eq_false_iff.2 fun habs => h.2 (isAbsolute_fileName_iff.1 habs)
    obtain ⟨r, hdir⟩ := resolve_directory_of_join h.1 hrel (names_fileName_ne_nil c f) hr
    exact hmissing r hdir

theorem run_lookup_of_missing_directory
    (hmissing : ∀ q, d.resolve c.directory ≠ .ok (q, .directory)) :
    (c.lookup f : StateM Disk _).run d = (none, d) ↔
      (c.directory.text = "" ∨ c.filePrefix.toList.head? = some '/' →
        ∀ q b, d.resolve ⟨c.fileName f⟩ ≠ .ok (q, .file b)) := by
  have hnone : (c.lookup f : StateM Disk _).run d = (none, d) ↔
      ∀ q b, d.resolve (c.pathFor f) ≠ .ok (q, .file b) := by
    rw [run_lookup, Prod.mk.injEq, and_iff_left rfl, Option.map_eq_none_iff,
      Option.eq_none_iff_forall_ne_some]
    simp only [ne_eq, Prod.forall, file?_eq_some]
  simp only [hnone, ne_eq, resolve_of_missing_directory hmissing, not_and]
  exact ⟨fun h hbare q b => h q b hbare, fun h q b hbare => h hbare q b⟩

end DirectoryCache

theorem resolveDirectory_text_eq_empty_iff {configured : Option Path} {temporary root : Path} :
    (resolveDirectory configured temporary root).text = "" ↔
      configured = none ∧ temporary.text = "" ∨ configured = some ⟨""⟩ ∧ root.text = "" := by
  rcases configured with _ | p
  · simp [resolveDirectory]
  · simp only [resolveDirectory, reduceCtorEq, false_and, false_or, Option.some.injEq]
    by_cases habs : p.isAbsolute = true
    · have hne : p.text ≠ "" := fun h => by simp [Path.isAbsolute, h] at habs
      rw [if_pos habs]
      exact iff_of_false hne fun h => hne (h.1 ▸ rfl)
    · rw [if_neg habs]
      by_cases hroot : root.text = ""
      · rw [Path.join, if_pos (by simp [hroot])]
        exact ⟨fun h => ⟨congrArg Path.mk h, hroot⟩, fun h => h.1 ▸ rfl⟩
      · obtain ⟨s, -, htext⟩ := Path.exists_text_join hroot (by simpa using habs)
        exact iff_of_false (by simp [htext, hroot]) fun h => hroot h.2

namespace CacheService

/-- The paths of the entries do not go through a directory: there is no name to it, or the prefix
starts at the root. -/
def Bypasses (s : CacheService) (root : Path) : Prop :=
  s.settings.directory = none ∧ s.temporary.text = ""
    ∨ s.settings.directory = some ⟨""⟩ ∧ root.text = ""
    ∨ s.filePrefix.toList.head? = some '/'

variable {s : CacheService} {root : Path} {map : MemoryCache} {d : Disk} {f : String}
  {image : Bytes} {dir : Path}

theorem bypasses_iff : s.Bypasses root ↔
    (resolveDirectory s.settings.directory s.temporary root).text = ""
      ∨ s.filePrefix.toList.head? = some '/' := by
  rw [resolveDirectory_text_eq_empty_iff, Bypasses, or_assoc]

/-- Where a store fails because the directory is missing, a lookup through the same store misses,
unless the paths of the entries bypass the directory and the bare name of the file leads to a
file. -/
theorem lookup_of_missing_directory
    (hmissing : (((s.storeFor root).store map f image : StateM Disk _).run d).1.2
      = .error (.directoryMissing dir)) (g : String) :
    ((s.storeFor root).lookup map g : StateM Disk _).run d = (none, d) ↔
      (s.Bypasses root → ∀ q b,
        d.resolve ⟨s.filePrefix ++ "-graph-" ++ g ++ ".png"⟩ ≠ .ok (q, .file b)) := by
  rw [bypasses_iff]
  rcases hlocation : s.settings.location
  · rw [storeFor, hlocation] at hmissing
    cases hmissing
  · rw [storeFor, hlocation] at hmissing ⊢
    refine DirectoryCache.run_lookup_of_missing_directory fun q hq => ?_
    rw [CacheStore.run_store_directory] at hmissing
    rcases hplace : DirectoryCache.place _ d f with err | r <;> rw [hplace] at hmissing
    · obtain rfl := Except.error.inj hmissing
      exact (DirectoryCache.place_eq_missing_iff.1 hplace).2 q hq
    · cases hmissing

/-- The file is not read from the working directory. -/
theorem lookup_of_missing_directory_below :
    let s : CacheService := ⟨⟨true, .filesystem, some ⟨"k"⟩⟩, "p", ⟨"/tmp"⟩⟩
    let d : Disk := ⟨[([['r']], .directory), (["p-graph-f.png".toList], .file [7])], []⟩
    (((s.storeFor ⟨"r"⟩).store .empty "g" [1] : StateM Disk _).run d).1.2
        = .error (.directoryMissing ⟨"r/k"⟩)
      ∧ ((s.storeFor ⟨"r"⟩).lookup .empty "f" : StateM Disk _).run d = (none, d) := by
  intro s d
  have hstore : s.storeFor ⟨"r"⟩ = .directory ⟨⟨"r/k"⟩, "p"⟩ := by rfl
  have hmissing : (((s.storeFor ⟨"r"⟩).store .empty "g" [1] : StateM Disk _).run d).1.2
      = .error (.directoryMissing ⟨"r/k"⟩) := by
    rw [hstore]
    rfl
  refine ⟨hmissing, (lookup_of_missing_directory hmissing "f").2 fun hbypass => ?_⟩
  exact absurd hbypass (by simp [Bypasses, s])

/-- The directory for temporary files has no name: a store reports it missing, and a lookup finds
the file in the working directory. -/
theorem missing_directory_still_hits :
    let s : CacheService := ⟨⟨true, .filesystem, none⟩, "plotmark", ⟨""⟩⟩
    let f := "d6332bbe407880d7e77e214f2d447b500572b6cfb688c899dc1ed53eec9a6382"
    let d : Disk := ⟨[([("plotmark-graph-" ++ f ++ ".png").toList], .file [0x89])], []⟩
    (((s.storeFor ⟨"/"⟩).store .empty f [0x90] : StateM Disk _).run d).1.2
        = .error (.directoryMissing ⟨""⟩)
      ∧ ((s.storeFor ⟨"/"⟩).lookup .empty f : StateM Disk _).run d = (some [0x89], d) :=
  ⟨by rfl, by rfl⟩

end CacheService

end GraphBlock
