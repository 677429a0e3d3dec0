import GraphBlock.Proofs.Cache.EntryPlace
import GraphBlock.Proofs.Files.Components
import GraphBlock.Settings.Document
import GraphBlock.Spec.Parse

/-!
# Entries in the directory itself

The path of an entry has the names of the directory and the name of the entry's file
(`DirectoryCache.components_pathFor`), so it is a child of the directory, unless the prefix of the
files has a slash in it: then the last name of the path is not the name of the file
(`DirectoryCache.isChild_pathFor_iff`).  A prefix that starts at the root even leaves the directory
(`DirectoryCache.pathFor_leaves_directory`).  Fingerprints have one length
(`Spec.length_fingerprint`), so the name of a file tells the prefix and the fingerprint
(`DirectoryCache.fileName_inj`).
-/

namespace GraphBlock

theorem Spec.length_fingerprint (s : Spec) : s.fingerprint.toList.length = 64 := by
  rw [s.fingerprint_eq, fingerprintOf, String.toList_ofList, Sha256.length_hex,
    Sha256.length_digest]

/-- The parent of the path is the directory, and the last name is this one. -/
structure Path.IsChild (p dir : Path) (name : String) : Prop where
  parent : ∃ q, p.parent? = some q ∧ q.Same dir
  fileName : p.fileName? = some name

namespace DirectoryCache

variable {c e : DirectoryCache} {f : String} {s t : Spec}

theorem fileName_inj (h : c.fileName s.fingerprint = e.fileName t.fingerprint) :
    c.filePrefix = e.filePrefix ∧ s.fingerprint = t.fingerprint := by
  have hlist := congrArg String.toList h
  simp only [fileName, String.toList_append] at hlist
  obtain ⟨hfront, -⟩ := List.append_inj' hlist rfl
  obtain ⟨hfirst, hf⟩ := List.append_inj' hfront
    (s.length_fingerprint.trans t.length_fingerprint.symm)
  exact ⟨String.toList_inj.1 (List.append_cancel_right hfirst), String.toList_inj.1 hf⟩

section Components

variable (hp : '/' ∉ c.filePrefix.toList) (hf : '/' ∉ f.toList)

include hp hf

theorem isAbsolute_pathFor : (c.pathFor f).isAbsolute = c.directory.isAbsolute := by
  have hrel := not_isAbsolute_fileName hp hf
  by_cases hdir : c.directory.text = ""
  · rw [pathFor, Path.join, if_pos (by simp [hdir]), hrel, Path.isAbsolute, hdir]
    rfl
  · exact Path.isAbsolute_join hdir hrel

theorem components_pathFor :
    (c.pathFor f).components = c.directory.components ++ [(c.fileName f).toList] := by
  have hrel := not_isAbsolute_fileName hp hf
  have hslash := slash_not_mem_fileName hp hf
  obtain ⟨hne, hdot, -⟩ := fileName_ne c f
  have hne' : (c.fileName f).toList ≠ [] := fun h => hne (String.toList_eq_nil_iff.1 h)
  by_cases hdir : c.directory.text = ""
  · rw [pathFor, Path.join, if_pos (by simp [hdir]),
      Path.components_of_not_mem (p := ⟨c.fileName f⟩) hslash]
    simp [hne', Path.components, Path.rawNames, hdir, Text.pieces]
  · rw [pathFor, Path.components_join hdir hrel, Path.rawNames,
      Text.pieces_of_forall fun c hc => by simpa using fun hs : c = '/' => hslash (hs ▸ hc)]
    simp [Path.isProper, hne', hdot]

theorem isChild_pathFor : (c.pathFor f).IsChild c.directory (c.fileName f) := by
  have hcomponents := components_pathFor hp hf
  obtain ⟨-, hdot, hup⟩ := fileName_ne c f
  obtain ⟨q, hq, habs, hqc⟩ := Path.parent?_of_components hcomponents
  refine ⟨⟨q, hq, habs.trans (isAbsolute_pathFor hp hf), hqc⟩, ?_⟩
  rw [Path.fileName?_of_components hcomponents hdot hup, String.ofList_toList]

end Components

/-- An entry's path is a child of the directory, under the prefix and the 64 digits of the
fingerprint, exactly if the prefix has no slash in it. -/
theorem isChild_pathFor_iff (c : DirectoryCache) (s : Spec) : ∃ path,
    (CacheStore.directory c).target s.fingerprint = .file path
      ∧ s.fingerprint.toList.length = 64
      ∧ (∀ x ∈ s.fingerprint.toList, x ∈ "0123456789abcdef".toList)
      ∧ (path.IsChild c.directory (c.filePrefix ++ "-graph-" ++ s.fingerprint ++ ".png") ↔
        '/' ∉ c.filePrefix.toList) := by
  have hdigit : ∀ n : Fin 16, Sha256.hexDigit n ∈ "0123456789abcdef".toList := by decide
  refine ⟨c.pathFor s.fingerprint, rfl, s.length_fingerprint, fun x hx => ?_, fun h hp => ?_,
    fun hp => isChild_pathFor hp s.slash_not_mem_fingerprint⟩
  · obtain ⟨n, rfl⟩ := Spec.mem_fingerprint hx
    exact hdigit n
  · exact Path.slash_not_mem_of_fileName? h.fileName (by simp [hp])

/-- A prefix that starts at the root takes the entry out of the directory. -/
theorem parent?_pathFor_of_root {n : List Char} (hp : c.filePrefix.toList = '/' :: n)
    (hn : '/' ∉ n) (hf : '/' ∉ f.toList) :
    ∃ q, (c.pathFor f).parent? = some q ∧ q.Same ⟨"/"⟩ := by
  have hpath : c.pathFor f = ⟨c.fileName f⟩ := pathFor_eq_fileName (.inr (by rw [hp]; rfl)) f
  have htext : (c.pathFor f).text.toList
      = '/' :: (n ++ "-graph-".toList ++ f.toList ++ ".png".toList) := by
    simp [hpath, fileName, hp]
  have hcomponents : (c.pathFor f).components
      = [] ++ [n ++ "-graph-".toList ++ f.toList ++ ".png".toList] := by
    rw [Path.components_of_root htext (by simp [hn, hf]),
      List.filter_cons_of_pos (Path.isProper_of_length (by simp; omega))]
    rfl
  obtain ⟨q, hq, habs, hqc⟩ := Path.parent?_of_components hcomponents
  exact ⟨q, hq, habs.trans (by rw [Path.isAbsolute, htext]; rfl), hqc⟩

/-- A settings file whose prefix starts at the root: the entry stands at the root and not in the
directory. -/
theorem pathFor_leaves_directory : ∃ (settings : Settings) (s : Spec) (path q : Path),
    Settings.ofToml? "file_prefix = \"/p\"\n[cache]\nlocation = \"filesystem\"\ndirectory = \"k\"\n"
        = some settings
      ∧ Spec.parse "y=x" = .ok s
      ∧ (CacheService.storeFor ⟨settings.cache, settings.filePrefix, ⟨"/tmp"⟩⟩ ⟨"r"⟩).target
        s.fingerprint = .file path
      ∧ path.parent? = some q ∧ q.Same ⟨"/"⟩ ∧ ¬ q.Same ⟨"r/k"⟩
      ∧ ¬ path.IsChild ⟨"r/k"⟩ (settings.filePrefix ++ "-graph-" ++ s.fingerprint ++ ".png") := by
  let s : Spec := .ofContent [⟨"y=x", none, none, []⟩] .default
  obtain ⟨q, hq, hroot⟩ := parent?_pathFor_of_root (c := ⟨⟨"r/k"⟩, "/p"⟩) (n := ['p']) (by decide)
    (by decide) s.slash_not_mem_fingerprint
  have hout : ¬ q.Same ⟨"r/k"⟩ := fun h => by cases hroot.isAbsolute.symm.trans h.isAbsolute
  refine ⟨⟨"/p", ⟨true, .filesystem, some ⟨"k"⟩⟩, .default⟩, s, _, q, by decide +kernel, rfl, rfl,
    hq, hroot, hout, fun h => ?_⟩
  obtain ⟨q', hq', hsame⟩ := h.parent
  exact hout (Option.some.inj (hq.symm.trans hq') ▸ hsame)

end DirectoryCache

end GraphBlock
