import GraphBlock.Proofs.Render.Holdings

/-!
# The place of an entry

If the prefix of the files has no slash in it, an entry of a directory cache stands in the
directory under its own name, with nothing else on the way to it (`DirectoryCache.names_pathFor`,
`DirectoryCache.walk_dropLast`).  If the disk takes the name, an image is stored there
(`DirectoryCache.place_eq`) and looked up there (`DirectoryCache.file?_of_entry`,
`DirectoryCache.file?_of_vacant`).
-/

namespace GraphBlock

open Disk

theorem Spec.nul_not_mem_fingerprint (s : Spec) : '\x00' ∉ s.fingerprint.toList := by
  have hdigit : ∀ n : Fin 16, '\x00' ≠ Sha256.hexDigit n := by decide
  intro h
  obtain ⟨n, hn⟩ := mem_fingerprint h
  exact hdigit n hn

theorem Disk.checkPath_eq_ok_iff {p : Path} : checkPath p = .ok () ↔ '\x00' ∉ p.text.toList
    ∧ p.text ≠ "" ∧ (Text.Utf8.encode p.text.toList).length ≤ maxPathLength := by
  unfold checkPath
  split_ifs with hz he hl
  · simpa using fun h => absurd (List.contains_iff_mem.1 hz) h
  · simp [he]
  · simp [Nat.not_le.2 hl]
  · simp only [true_iff]
    exact ⟨fun h => hz (List.contains_iff_mem.2 h), he, Nat.not_lt.1 hl⟩

namespace DirectoryCache

section Path

variable {c : DirectoryCache} {f : String}

theorem slash_not_mem_fileName (hp : '/' ∉ c.filePrefix.toList) (hf : '/' ∉ f.toList) :
    '/' ∉ (c.fileName f).toList := by
  simp [fileName, hf, hp]

theorem fileName_ne (c : DirectoryCache) (f : String) :
    c.fileName f ≠ "" ∧ (c.fileName f).toList ≠ ['.'] ∧ (c.fileName f).toList ≠ ['.', '.'] := by
  have hlen : 4 ≤ (c.fileName f).toList.length := by
    simp [fileName]
    omega
  refine ⟨?_, ?_, ?_⟩ <;> intro h <;> simp [h] at hlen

theorem not_isAbsolute_fileName (hp : '/' ∉ c.filePrefix.toList) (hf : '/' ∉ f.toList) :
    Path.isAbsolute ⟨c.fileName f⟩ = false := by
  rw [Path.isAbsolute, beq_eq_false_iff_ne]
  exact fun h => slash_not_mem_fileName hp hf (List.mem_of_mem_head? h)

theorem isAbsolute_fileName_iff :
    Path.isAbsolute ⟨c.fileName f⟩ = true ↔ c.filePrefix.toList.head? = some '/' := by
  rw [Path.isAbsolute, beq_iff_eq]
  simp only [fileName, String.toList_append]
  rcases c.filePrefix.toList with _ | ⟨x, s⟩
  · exact iff_of_false (by simp) (by simp)
  · simp

/-- Below no directory, or from the root, the name of the file is the whole path. -/
theorem pathFor_eq_fileName
    (h : c.directory.text = "" ∨ c.filePrefix.toList.head? = some '/') (f : String) :
    c.pathFor f = ⟨c.fileName f⟩ := by
  rw [pathFor, Path.join, if_pos]
  rcases h with h | h
  · simp [h]
  · rw [isAbsolute_fileName_iff.2 h, Bool.true_or]

/-- The paths of the entries differ in their ends only. -/
theorem exists_text (c : DirectoryCache) : ∃ s : List Char, s ≠ [] ∧ ∀ f,
    (c.pathFor f).text.toList = s ++ (f.toList ++ ".png".toList) := by
  have hname : ∀ f, (c.fileName f).toList
      = c.filePrefix.toList ++ "-graph-".toList ++ (f.toList ++ ".png".toList) := fun f => by
    simp only [fileName, String.toList_append, List.append_assoc]
  by_cases h : c.directory.text = "" ∨ c.filePrefix.toList.head? = some '/'
  · refine ⟨c.filePrefix.toList ++ "-graph-".toList, by simp, fun f => ?_⟩
    rw [pathFor_eq_fileName h, hname]
  · obtain ⟨hdir, hhead⟩ := not_or.1 h
    refine ⟨c.directory.text.toList ++ (if c.directory.endsInSlash then "" else "/").toList
      ++ (c.filePrefix.toList ++ "-graph-".toList), by simp, fun f => ?_⟩
    have hrel : Path.isAbsolute ⟨c.fileName f⟩ = false := by
      rwa [← Bool.not_eq_true, isAbsolute_fileName_iff]
    rw [pathFor, Path.join_eq hdir hrel]
    simp only [String.toList_append, hname, List.append_assoc]

/-- The files of the entries have names of their own in one directory. -/
theorem exists_names (c : DirectoryCache) : ∃ (front : List (List Char)) (w : List Char),
    ∀ f, '/' ∉ f.toList → (c.pathFor f).names = front ++ [w ++ (f.toList ++ ".png".toList)] := by
  obtain ⟨s, -, hs⟩ := c.exists_text
  obtain ⟨front, w, hw⟩ := Path.exists_pieces s
  refine ⟨front.filter (· ≠ []), w, fun f hf => ?_⟩
  rw [Path.names, Path.rawNames, hs, hw _ (by simpa using hf), List.filter_append]
  simp

theorem start_pathFor (c : DirectoryCache) (d : Disk) (f g : String) :
    d.start (c.pathFor f) = d.start (c.pathFor g) := by
  obtain ⟨s, hne, hs⟩ := c.exists_text
  have habs : ∀ f, (c.pathFor f).isAbsolute = (s.head? == some '/') := fun f => by
    rw [Path.isAbsolute, hs, List.head?_append_of_ne_nil _ hne]
  rw [start, start, habs, habs]

theorem names_pathFor (hdir : c.directory.text ≠ "") (hp : '/' ∉ c.filePrefix.toList)
    (hf : '/' ∉ f.toList) :
    (c.pathFor f).names = c.directory.names ++ [(c.fileName f).toList] := by
  rw [pathFor, Path.names_join hdir (not_isAbsolute_fileName hp hf),
    Path.names_of_not_mem (p := ⟨c.fileName f⟩) (fileName_ne c f).1 (slash_not_mem_fileName hp hf)]

/-- The path of an entry is the directory, perhaps a slash, and the name of the file. -/
theorem exists_text_pathFor (hdir : c.directory.text ≠ "") (hp : '/' ∉ c.filePrefix.toList)
    (hf : '/' ∉ f.toList) : ∃ s : String, (s = "" ∨ s = "/")
      ∧ (c.pathFor f).text = c.directory.text ++ s ++ c.fileName f :=
  Path.exists_text_join hdir (not_isAbsolute_fileName hp hf)

theorem endsInSlash_pathFor (hdir : c.directory.text ≠ "") (hp : '/' ∉ c.filePrefix.toList)
    (hf : '/' ∉ f.toList) : (c.pathFor f).endsInSlash = false := by
  obtain ⟨s, -, ht⟩ := exists_text_pathFor hdir hp hf
  rw [Path.endsInSlash, ht, fileName]
  simp only [String.toList_append, ← List.append_assoc]
  rw [List.getLast?_append_of_ne_nil _ (by simp)]
  rfl

end Path

section Place

variable {c : DirectoryCache} {d : Disk} {f : String} {q : Place} {b : Bytes}

theorem directory_ne_empty {e : Entry} (hd : d.resolve c.directory = .ok (q, e)) :
    c.directory.text ≠ "" :=
  (checkPath_eq_ok_iff.1 (resolve_eq_ok_iff.1 hd).1).2.1

theorem walk_directory (hp : '/' ∉ c.filePrefix.toList) (hf : '/' ∉ f.toList)
    (hd : d.resolve c.directory = .ok (q, .directory)) :
    d.walk (d.start (c.pathFor f)) c.directory.names = .ok q := by
  rw [start, pathFor, Path.isAbsolute_join (directory_ne_empty hd) (not_isAbsolute_fileName hp hf),
    ← start]
  exact (resolve_eq_ok_iff.1 hd).2.1

/-- Below a directory that is there, an entry's file has its name and nothing else to reach it. -/
theorem walk_dropLast (hp : '/' ∉ c.filePrefix.toList) (hf : '/' ∉ f.toList)
    (hd : d.resolve c.directory = .ok (q, .directory)) :
    d.walk (d.start (c.pathFor f)) (c.pathFor f).names.dropLast = .ok q := by
  rw [names_pathFor (directory_ne_empty hd) hp hf, List.dropLast_concat]
  exact walk_directory hp hf hd

variable (hp : '/' ∉ c.filePrefix.toList) (hf : '/' ∉ f.toList)
  (hd : d.resolve c.directory = .ok (q, .directory)) (hc : checkPath (c.pathFor f) = .ok ())
  (hl : (Text.Utf8.encode (c.fileName f).toList).length ≤ maxNameLength)

include hp hf hd hc hl

omit hl in
theorem slot_pathFor (occupied : IoError) :
    d.slot (c.pathFor f) occupied = .ok (q, (c.fileName f).toList) := by
  obtain ⟨-, hdot, hup⟩ := fileName_ne c f
  refine slot_eq_ok_iff.2
    ⟨hc, ?_, walk_dropLast hp hf hd, (resolve_eq_ok_iff.1 hd).2.2.1, hdot, hup⟩
  rw [names_pathFor (directory_ne_empty hd) hp hf, List.getLast?_concat]

/-- An image can be stored under its own name unless a directory has that name. -/
theorem place_eq (hfree : d.entryAt? (q ++ [(c.fileName f).toList]) ≠ some .directory) :
    c.place d f = .ok (q ++ [(c.fileName f).toList]) := by
  have hw : d.writable (c.pathFor f) = .ok (q ++ [(c.fileName f).toList]) :=
    writable_eq_ok_iff.2 ⟨q, _, slot_pathFor hp hf hd hc _,
      endsInSlash_pathFor (directory_ne_empty hd) hp hf, hl, hfree, rfl⟩
  rw [place, hd]
  dsimp only
  rw [hw]
  rfl

/-- The path of an entry leads to whatever has the entry's name in the directory. -/
theorem resolve_of_entry {x : Entry}
    (he : d.entryAt? (q ++ [(c.fileName f).toList]) = some x) :
    d.resolve (c.pathFor f) = .ok (q ++ [(c.fileName f).toList], x) :=
  resolve_of_slot (slot_pathFor hp hf hd hc .isADirectory) hl he
    fun _ => endsInSlash_pathFor (directory_ne_empty hd) hp hf

theorem file?_of_entry (he : d.entryAt? (q ++ [(c.fileName f).toList]) = some (.file b)) :
    c.file? d f = some (q ++ [(c.fileName f).toList], b) :=
  file?_eq_some.2 (resolve_of_entry hp hf hd hc hl he)

omit hc hl in
theorem file?_of_vacant (he : d.entryAt? (q ++ [(c.fileName f).toList]) = none) :
    c.file? d f = none := by
  obtain ⟨-, hdot, hup⟩ := fileName_ne c f
  rw [Option.eq_none_iff_forall_ne_some]
  rintro ⟨r, b⟩ hr
  obtain ⟨-, hw, hb, -⟩ := resolve_eq_ok_iff.1 (file?_eq_some.1 hr)
  rw [names_pathFor (directory_ne_empty hd) hp hf, walk_concat, walk_directory hp hf hd] at hw
  rw [step_ok hw hdot hup, he] at hb
  cases hb

end Place

/-- Within one cache, no image makes a difference to where another comes or to why it cannot. -/
theorem place_written {c : DirectoryCache} {d : Disk} {f g : String} {b : Bytes}
    (hf : '/' ∉ f.toList) (hg : '/' ∉ g.toList) : c.place (c.written d g b) f = c.place d f := by
  rcases hplace : c.place d g with err | q
  · rw [written, hplace]
  · have hsame : SameDirectories d (c.written d g b) := sameDirectories_written.symm
    obtain ⟨⟨r, hr⟩, hw⟩ := place_eq_ok hplace
    obtain ⟨parent, name, hslot, -⟩ := writable_eq_ok_iff.1 hw
    obtain ⟨-, -, hwalk, hparent, -⟩ := slot_eq_ok_iff.1 hslot
    have hnames : (c.pathFor f).names.dropLast = (c.pathFor g).names.dropLast := by
      obtain ⟨front, w, hn⟩ := c.exists_names
      rw [hn f hf, hn g hg, List.dropLast_concat, List.dropLast_concat]
    rw [c.start_pathFor d g f, ← hnames] at hwalk
    rw [place, place, hr, hsame.resolve_directory hr]
    dsimp only
    rw [hsame.writable_eq hwalk hparent]

end DirectoryCache

end GraphBlock
