import GraphBlock.Proofs.Toml.Quoted
import GraphBlock.Toml.Library

/-!
# Documents that are read back

A document may state a sheet in many ways, with its entries in another order, with tables in braces
or with dotted keys; what they have in common is `Sheet.IsStatedBy`.  A library reads back what it
writes if that states the sheet, for all sheets with bare keys of which none stands twice
(`Library.ReadsBack`).  Nothing else is asked of a library by the theory of settings, and the
standard library meets it (`Library.standard_readsBack`): a sheet that it writes is read as the
entries of the sheet (`Sheet.parse_write`), and these state it (`Sheet.isStatedBy_entries`).
-/

namespace GraphBlock.Toml

def entriesOf (ls : List Line) : Entries :=
  ls.map fun l => (l.1, l.2.node)

def statementsOf (ls : List Line) : List Statement :=
  ls.map fun l => .value [l.1] l.2.node

/-- A table with these values under their keys and nothing else, or no table if there are none. -/
def IsSection (ls : List Line) (n : Option Node) : Prop :=
  (∃ kind es, n = some (.table kind es) ∧ ∀ k, es.lookup k = (entriesOf ls).lookup k)
    ∨ n = none ∧ ls = []

/-- A key that is written without quotes. -/
def IsBare (k : String) : Prop :=
  k ≠ "" ∧ ∀ c ∈ k.toList, isKeyChar c = true

namespace Sheet

def sectionEntry (s : String × List Line) : String × Node :=
  (s.1, .table .header (entriesOf s.2))

def entries (s : Sheet) : Entries :=
  entriesOf s.top ++ s.sections.map sectionEntry

/-- All keys are bare, and none stands twice in one table. -/
structure Proper (s : Sheet) : Prop where
  bare : ∀ k ∈ s.top.map Prod.fst ++ s.sections.map Prod.fst, IsBare k
  distinct : (s.top.map Prod.fst ++ s.sections.map Prod.fst).Nodup
  bareIn : ∀ t ∈ s.sections, ∀ k ∈ t.2.map Prod.fst, IsBare k
  distinctIn : ∀ t ∈ s.sections, (t.2.map Prod.fst).Nodup

/-- The values of the sheet stand in the root under their keys, and nothing else does.  A section
without lines may be missing. -/
structure IsStatedBy (s : Sheet) (root : Entries) : Prop where
  top : ∀ k ∉ s.sections.map Prod.fst, root.lookup k = (entriesOf s.top).lookup k
  sections : ∀ t ∈ s.sections, IsSection t.2 (root.lookup t.1)

end Sheet

/-- The library reads back the strings, booleans and tables that it writes. -/
def Library.ReadsBack (lib : Library) : Prop :=
  ∀ t : Sheet, t.Proper → ∃ root, lib.read (lib.write t) = some root ∧ t.IsStatedBy root

variable {c : Char} {k : String} {s r rest : List Char} {v : Value}

section Characters

theorem ne_of_isKeyChar (h : isKeyChar c = true) {d : Char} (hd : isKeyChar d = false) : c ≠ d := by
  rintro rfl
  rw [h] at hd
  cases hd

theorem skipBlanks_cons (h : isLineBlank c = false) : skipBlanks (c :: s) = c :: s := by
  rw [skipBlanks, List.dropWhile_cons, if_neg (by simp [h])]

theorem not_isLineBlank (h : isKeyChar c = true) : isLineBlank c = false := by
  have hs := ne_of_isKeyChar h (d := ' ') (by decide)
  have ht := ne_of_isKeyChar h (d := '\t') (by decide)
  simp [isLineBlank, Quoted.isLineBlank, hs, ht]

/-- A statement begins with such a character. -/
def Opens (c : Char) : Prop :=
  c = '[' ∨ isKeyChar c = true

theorem skipLines_of_opens (h : Opens c) : skipLines false (c :: s) = some (c :: s) := by
  have hne : ∀ d, d ≠ '[' → isKeyChar d = false → c ≠ d := fun d hd hk => by
    rcases h with rfl | h
    · exact hd.symm
    · exact ne_of_isKeyChar h hk
  rw [skipLines]
  · have h1 := hne '\n' (by decide) (by decide)
    have h2 := hne '#' (by decide) (by decide)
    have h3 := hne ' ' (by decide) (by decide)
    have h4 := hne '\t' (by decide) (by decide)
    simp [h1, h2, h3, h4, isLineBlank, Quoted.isLineBlank]
  · exact fun _ hc => absurd hc (hne '\r' (by decide) (by decide))

end Characters

section Keys

theorem exists_of_isBare (h : IsBare k) : ∃ c w, k.toList = c :: w ∧ isKeyChar c = true := by
  obtain ⟨c, w, hw⟩ := List.exists_cons_of_ne_nil fun hn => h.1 (String.toList_eq_nil_iff.1 hn)
  exact ⟨c, w, hw, h.2 c (hw ▸ List.mem_cons_self)⟩

theorem simpleKey_bare (h : IsBare k) (hr : ∀ c ∈ rest.head?, isKeyChar c = false) :
    simpleKey (k.toList ++ rest) = some (k, rest) := by
  have htake : (k.toList ++ rest).takeWhile isKeyChar = k.toList := by
    rw [List.takeWhile_append_of_pos h.2]
    rcases rest with _ | ⟨d, rest⟩
    · simp
    · simp [hr d rfl]
  have hdrop : (k.toList ++ rest).dropWhile isKeyChar = rest := by
    rw [List.dropWhile_append_of_pos h.2]
    rcases rest with _ | ⟨d, rest⟩
    · rfl
    · simp [hr d rfl]
  have hne : k.toList ≠ [] := fun hn => h.1 (String.toList_eq_nil_iff.1 hn)
  obtain ⟨c, w, hw, hc⟩ := exists_of_isBare h
  unfold simpleKey
  split
  · rename_i heq
    rw [hw] at heq
    exact absurd (List.cons.inj heq).1 (ne_of_isKeyChar hc (by decide))
  · rename_i heq
    rw [hw] at heq
    exact absurd (List.cons.inj heq).1 (ne_of_isKeyChar hc (by decide))
  · simp only [htake, hdrop, if_neg hne, String.ofList_toList]

theorem key_bare (h : IsBare k) (hr : ∀ c ∈ rest.head?, isKeyChar c = false)
    (hdot : ∀ r, skipBlanks rest ≠ '.' :: r) :
    key (k.toList ++ rest) = some ([k], skipBlanks rest) := by
  obtain ⟨c, w, hw, hc⟩ := exists_of_isBare h
  have hskip : skipBlanks (k.toList ++ rest) = k.toList ++ rest := by
    rw [hw, List.cons_append, skipBlanks_cons (not_isLineBlank hc)]
  rw [key, maxDepth, keyPath, hskip, simpleKey_bare h hr]
  simp only [Option.bind_eq_bind, Option.bind_some]
  rfl

end Keys

section Statements

theorem value_write (v : Value) (rest : List Char) :
    value maxDepth (v.write ++ '\n' :: rest) = some (v.node, '\n' :: rest) := by
  cases v with
  | string s =>
    have hread : Quoted.read? (Quoted.write s.toList ++ '\n' :: rest)
        = some (s.toList, '\n' :: rest) := Quoted.read?_write (by simp) (by simp) s.toList
    obtain ⟨q, r, hq, hw⟩ := Quoted.exists_write s.toList
    have hvalue : value maxDepth (q :: r ++ '\n' :: rest)
        = (Quoted.read? (q :: r ++ '\n' :: rest)).map
          fun p => (.string (String.ofList p.1), p.2) := by
      rcases hq with rfl | rfl <;> rfl
    rw [Value.write, hw, hvalue, ← hw, hread, Value.node, Option.map_some, String.ofList_toList]
  | boolean b => cases b <;> rfl

theorem skipBlanks_write (v : Value) (rest : List Char) :
    skipBlanks (' ' :: (v.write ++ rest)) = v.write ++ rest := by
  have hskip : ∀ s, skipBlanks (' ' :: s) = skipBlanks s := fun _ => rfl
  rw [hskip]
  cases v with
  | string s =>
    obtain ⟨q, r, rfl | rfl, hw⟩ := Quoted.exists_write s.toList <;> rw [Value.write, hw] <;> rfl
  | boolean b => cases b <;> rfl

theorem statement_line (h : IsBare k) (v : Value) (rest : List Char) :
    statement (k.toList ++ ' ' :: '=' :: ' ' :: (v.write ++ '\n' :: rest))
      = some (.value [k] v.node, '\n' :: rest) := by
  obtain ⟨c, w, hw, hc⟩ := exists_of_isBare h
  have hkey : key (k.toList ++ ' ' :: '=' :: ' ' :: (v.write ++ '\n' :: rest))
      = some ([k], '=' :: ' ' :: (v.write ++ '\n' :: rest)) :=
    key_bare h (by simp; decide) (by intro r hr; cases hr)
  have hkeyValue : keyValue (some ∘ skipBlanks) (value maxDepth)
      (k.toList ++ ' ' :: '=' :: ' ' :: (v.write ++ '\n' :: rest))
      = some ([k], v.node, '\n' :: rest) := by
    have hgap : skipBlanks ('=' :: ' ' :: (v.write ++ '\n' :: rest))
        = '=' :: ' ' :: (v.write ++ '\n' :: rest) := rfl
    rw [keyValue, hkey]
    simp only [Option.bind_eq_bind, Option.bind_some, Function.comp, hgap, skipBlanks_write,
      value_write]
    rfl
  have hopen : c ≠ '[' := ne_of_isKeyChar hc (by decide)
  rw [statement]
  · rw [hkeyValue]
    rfl
  · rintro r hr
    rw [hw] at hr
    exact hopen (List.cons.inj hr).1
  · rintro r hr
    rw [hw] at hr
    exact hopen (List.cons.inj hr).1

theorem statement_header (h : IsBare k) (rest : List Char) :
    statement ('[' :: (k.toList ++ ']' :: '\n' :: rest)) = some (.header [k], '\n' :: rest) := by
  obtain ⟨c, w, hw, hc⟩ := exists_of_isBare h
  have hkey : key (k.toList ++ ']' :: '\n' :: rest) = some ([k], ']' :: '\n' :: rest) :=
    key_bare h (by simp; decide) (by intro r hr; cases hr)
  rw [statement]
  · rw [hkey]
    rfl
  · rintro r hr
    rw [hw] at hr
    exact ne_of_isKeyChar hc (by decide) (List.cons.inj hr).1

end Statements

section Reading

/-- The text is read as these statements. -/
def Reads (s : List Char) (sts : List Statement) : Prop :=
  ∀ n, s.length < n → statements n s = some sts

variable {sts : List Statement} {st : Statement}

theorem reads_nil : Reads [] [] := by
  rintro (_ | n) h
  · cases h
  · rfl

theorem Reads.newline (h : Reads s sts) : Reads ('\n' :: s) sts := by
  rintro (_ | n) hn
  · cases hn
  · rw [← h (n + 1) (by simp at hn; omega), statements, statements]
    rfl

theorem Reads.statement (h : Reads r sts) (hc : Opens c)
    (hs : Toml.statement (c :: s) = some (st, '\n' :: r)) (hlt : r.length < s.length) :
    Reads (c :: s) (st :: sts) := by
  rintro (_ | n) hn
  · cases hn
  · have hrest := h.newline n (by simp at hn ⊢; omega)
    rw [statements, skipLines_of_opens hc]
    simp only [Option.bind_eq_bind, Option.bind_some, hs, hrest]
    rfl

theorem writeLines_cons (l : Line) (ls : List Line) (s : List Char) : writeLines (l :: ls) ++ s
    = l.1.toList ++ ' ' :: '=' :: ' ' :: (l.2.write ++ '\n' :: (writeLines ls ++ s)) := by
  simp [writeLines]

theorem reads_lines (h : Reads s sts) : ∀ ls : List Line, (∀ k ∈ ls.map Prod.fst, IsBare k) →
    Reads (writeLines ls ++ s) (statementsOf ls ++ sts)
  | [], _ => h
  | l :: ls, hls => by
    have hbare := hls l.1 List.mem_cons_self
    have ih := reads_lines h ls fun k hk => hls k (List.mem_cons_of_mem _ hk)
    have hline := statement_line hbare l.2 (writeLines ls ++ s)
    obtain ⟨c, w, hw, hc⟩ := exists_of_isBare hbare
    rw [hw] at hline
    rw [writeLines_cons, hw]
    exact ih.statement (.inr hc) hline (by simp; omega)

open Sheet

theorem writeSection_append (t : String × List Line) (s : List Char) : writeSection t ++ s
    = '\n' :: '[' :: (t.1.toList ++ ']' :: '\n' :: (writeLines t.2 ++ s)) := by
  simp [writeSection]

theorem reads_sections : ∀ ts : List (String × List Line),
    (∀ t ∈ ts, IsBare t.1 ∧ ∀ k ∈ t.2.map Prod.fst, IsBare k) →
    Reads (ts.flatMap writeSection) (ts.flatMap fun t => .header [t.1] :: statementsOf t.2)
  | [], _ => reads_nil
  | t :: ts, hts => by
    obtain ⟨hbare, hin⟩ := hts t List.mem_cons_self
    have ih := reads_sections ts fun t' ht' => hts t' (List.mem_cons_of_mem t ht')
    have hheader := statement_header hbare (writeLines t.2 ++ ts.flatMap writeSection)
    rw [List.flatMap_cons, List.flatMap_cons, writeSection_append]
    exact ((reads_lines ih t.2 hin).statement (.inl rfl) hheader (by simp; omega)).newline

end Reading

section Assembling

variable {es : Entries} {key : String} {n : Node}

theorem set_of_not_mem : ∀ {es : Entries}, key ∉ es.map Prod.fst → es.set key n = es ++ [(key, n)]
  | [], _ => rfl
  | e :: es, h => by
    simp only [List.map_cons, List.mem_cons, not_or] at h
    rw [Entries.set, if_neg (Ne.symm h.1), set_of_not_mem h.2]
    rfl

theorem set_concat {m : Node} : ∀ {es : Entries}, key ∉ es.map Prod.fst →
    (es ++ [(key, m)]).set key n = es ++ [(key, n)]
  | [], _ => by simp [Entries.set]
  | e :: es, h => by
    simp only [List.map_cons, List.mem_cons, not_or] at h
    rw [List.cons_append, Entries.set, if_neg (Ne.symm h.1), set_concat h.2]
    rfl

theorem lookup_of_not_mem (h : key ∉ es.map Prod.fst) : es.lookup key = none := by
  refine List.lookup_eq_none_iff.2 fun e he => bne_iff_ne.2 ?_
  rintro rfl
  exact h (List.mem_map_of_mem he)

theorem lookup_concat (h : key ∉ es.map Prod.fst) : (es ++ [(key, n)]).lookup key = some n := by
  rw [List.lookup_append, lookup_of_not_mem h]
  simp

theorem lookup_of_mem : ∀ {es : Entries}, (es.map Prod.fst).Nodup → (key, n) ∈ es →
    es.lookup key = some n
  | e :: es, hd, he => by
    rw [List.map_cons, List.nodup_cons] at hd
    rcases List.mem_cons.1 he with rfl | he
    · exact List.lookup_cons_self
    · have hne : key ≠ e.1 := fun h => hd.1 (h ▸ List.mem_map_of_mem he)
      rw [List.lookup_cons, beq_eq_false_iff_ne.2 hne]
      exact lookup_of_mem hd.2 he

theorem insert_of_not_mem (h : key ∉ es.map Prod.fst) :
    es.insert true [key] n = some (es ++ [(key, n)]) := by
  rw [Entries.insert, lookup_of_not_mem h, set_of_not_mem h]
  rfl

theorem modifyAt_concat {f : Entries → Option Entries} {inner inner' : Entries}
    (h : key ∉ es.map Prod.fst) (hf : f inner = some inner') :
    (es ++ [(key, Node.table .header inner)]).modifyAt [key] f
      = some (es ++ [(key, Node.table .header inner')]) := by
  rw [Entries.modifyAt, lookup_concat h]
  simp only [Entries.modifyAt, hf, Option.map_some, set_concat h]

theorem openTable_of_not_mem (h : key ∉ es.map Prod.fst) :
    es.openTable [key] = some (es ++ [(key, .table .header [])]) := by
  simp only [Entries.openTable, List.getLast?_singleton, List.dropLast_singleton, Entries.modifyAt,
    lookup_of_not_mem h, set_of_not_mem h]

variable {root : Entries} {name : String} {sts : List Statement}

theorem map_fst_entriesOf (ls : List Line) : (entriesOf ls).map Prod.fst = ls.map Prod.fst := by
  simp [entriesOf]

theorem assemble_top (sts : List Statement) : ∀ (ls : List Line) (root : Entries),
    (root.map Prod.fst ++ ls.map Prod.fst).Nodup →
      assemble root [] (statementsOf ls ++ sts) = assemble (root ++ entriesOf ls) [] sts
  | [], root, _ => by rw [entriesOf, List.map_nil, List.append_nil]; rfl
  | l :: ls, root, h => by
    rw [List.map_cons] at h
    have hnot : l.1 ∉ root.map Prod.fst := fun hm =>
      (List.nodup_append.1 h).2.2 _ hm _ List.mem_cons_self rfl
    have hmodify : root.modifyAt [] (Entries.insert true [l.1] l.2.node)
        = some (root ++ [(l.1, l.2.node)]) := insert_of_not_mem hnot
    have ih := assemble_top sts ls (root ++ [(l.1, l.2.node)]) (by simpa using h)
    rw [List.append_assoc] at ih
    change (root.modifyAt [] (Entries.insert true [l.1] l.2.node)).bind
      (fun r => assemble r [] (statementsOf ls ++ sts)) = _
    rw [hmodify, Option.bind_some, ih]
    rfl

theorem assemble_section (hname : name ∉ root.map Prod.fst) (sts : List Statement) :
    ∀ (ls : List Line) (inner : Entries), (inner.map Prod.fst ++ ls.map Prod.fst).Nodup →
      assemble (root ++ [(name, Node.table .header inner)]) [name] (statementsOf ls ++ sts)
        = assemble (root ++ [(name, Node.table .header (inner ++ entriesOf ls))]) [name] sts
  | [], inner, _ => by rw [entriesOf, List.map_nil, List.append_nil]; rfl
  | l :: ls, inner, h => by
    rw [List.map_cons] at h
    have hnot : l.1 ∉ inner.map Prod.fst := fun hm =>
      (List.nodup_append.1 h).2.2 _ hm _ List.mem_cons_self rfl
    have hmodify := modifyAt_concat hname (insert_of_not_mem (n := l.2.node) hnot)
    have ih := assemble_section hname sts ls (inner ++ [(l.1, l.2.node)]) (by simpa using h)
    rw [List.append_assoc] at ih
    change ((root ++ [(name, Node.table .header inner)]).modifyAt [name]
      (Entries.insert true [l.1] l.2.node)).bind
      (fun r => assemble r [name] (statementsOf ls ++ sts)) = _
    rw [hmodify, Option.bind_some, ih]
    rfl

open Sheet

theorem assemble_sections : ∀ (ts : List (String × List Line)) (root : Entries)
    (current : List String), (root.map Prod.fst ++ ts.map Prod.fst).Nodup →
    (∀ t ∈ ts, (t.2.map Prod.fst).Nodup) →
    assemble root current (ts.flatMap fun t => .header [t.1] :: statementsOf t.2)
      = some (root ++ ts.map sectionEntry)
  | [], root, _, _, _ => by simp [assemble]
  | t :: ts, root, current, h, hin => by
    rw [List.map_cons] at h
    have hnot : t.1 ∉ root.map Prod.fst := fun hm =>
      (List.nodup_append.1 h).2.2 _ hm _ List.mem_cons_self rfl
    have hsection := assemble_section hnot
      (ts.flatMap fun t => .header [t.1] :: statementsOf t.2) t.2 []
      (by simpa using hin t List.mem_cons_self)
    have ih := assemble_sections ts (root ++ [sectionEntry t]) [t.1]
      (by simpa [sectionEntry] using h) fun t' ht' => hin t' (List.mem_cons_of_mem t ht')
    change (root.openTable [t.1]).bind (fun r => assemble r [t.1]
      (statementsOf t.2 ++ ts.flatMap fun t => .header [t.1] :: statementsOf t.2)) = _
    rw [openTable_of_not_mem hnot, Option.bind_some, hsection, List.nil_append]
    rw [sectionEntry] at ih
    rw [ih]
    simp [sectionEntry]

end Assembling

theorem dropMark_of_head (h : s.head? ≠ some '\uFEFF') : dropMark s = s := by
  rw [dropMark]
  rintro r rfl
  exact h rfl

namespace Sheet

variable {t : Sheet}

/-- No byte order mark stands in front. -/
theorem Proper.head?_write (h : t.Proper) : t.write.head? ≠ some '\uFEFF' := by
  rcases ht : t.top with _ | ⟨l, ls⟩
  · rcases hs : t.sections with _ | ⟨u, us⟩
    · simp [write, ht, hs, writeLines]
    · simp [write, ht, hs, writeLines, writeSection]
  · have hbare : IsBare l.1 := h.bare l.1 (by simp [ht])
    obtain ⟨c, w, hw, hc⟩ := exists_of_isBare hbare
    rw [write, ht, writeLines_cons, hw]
    simpa using ne_of_isKeyChar hc (by decide)

/-- A sheet that is written is read as its entries. -/
theorem parse_write (h : t.Proper) : Toml.parse (String.ofList t.write) = some t.entries := by
  have hsections := reads_sections t.sections fun u hu =>
    ⟨h.bare u.1 (List.mem_append_right _ (List.mem_map_of_mem hu)), h.bareIn u hu⟩
  have hreads := reads_lines hsections t.top fun k hk =>
    h.bare k (List.mem_append_left _ hk)
  rw [Toml.parse, String.toList_ofList, dropMark_of_head h.head?_write]
  rw [write] at *
  simp only [hreads _ (Nat.lt_succ_self _), Option.bind_eq_bind, Option.bind_some]
  rw [assemble_top _ _ _ (by simpa using (List.nodup_append.1 h.distinct).1),
    assemble_sections _ _ _ _ h.distinctIn]
  · rfl
  · rw [List.nil_append, map_fst_entriesOf]
    exact h.distinct

theorem isStatedBy_entries (h : t.Proper) : t.IsStatedBy t.entries := by
  have hkeys : (t.sections.map sectionEntry).map Prod.fst = t.sections.map Prod.fst := by
    rw [List.map_map]
    rfl
  refine ⟨fun k hk => ?_, fun u hu => .inl ⟨.header, entriesOf u.2, ?_, fun _ => rfl⟩⟩
  · have hnone : (t.sections.map sectionEntry).lookup k = none := lookup_of_not_mem (hkeys ▸ hk)
    rw [entries, List.lookup_append, hnone, Option.or_none]
  · have htop : u.1 ∉ (entriesOf t.top).map Prod.fst := by
      rw [map_fst_entriesOf]
      exact fun hm =>
        (List.nodup_append.1 h.distinct).2.2 _ hm _ (List.mem_map_of_mem hu) rfl
    rw [entries, List.lookup_append, lookup_of_not_mem htop, Option.none_or]
    exact lookup_of_mem (hkeys ▸ (List.nodup_append.1 h.distinct).2.1) (List.mem_map_of_mem hu)

end Sheet

theorem Library.standard_readsBack : standard.ReadsBack := fun t h =>
  ⟨t.entries, t.parse_write h, t.isStatedBy_entries h⟩

end GraphBlock.Toml
