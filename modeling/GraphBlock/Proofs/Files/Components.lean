import GraphBlock.Proofs.Files.Directories

/-!
# What counts in a path

A path says whether it starts at the root, and which names count in it: no empty ones, and no
single dots but a leading one (`Path.components`).  Two texts that say the same write the same path
(`Path.Same`).  To join a relative path adds its names (`Path.components_join`), the parent lacks
the last name (`Path.parent?_of_components`), and the name of the file is the last one
(`Path.fileName?_of_components`).
-/

namespace GraphBlock

open Text

namespace Path

/-- A name that counts wherever it stands. -/
def isProper (n : List Char) : Bool :=
  n ≠ [] && n ≠ ['.']

/-- The names that count. -/
def components (p : Path) : List (List Char) :=
  match p.rawNames with
  | [] => []
  | n :: ns => [n].filter (· ≠ []) ++ ns.filter isProper

/-- Both texts write the same path. -/
structure Same (p q : Path) : Prop where
  isAbsolute : p.isAbsolute = q.isAbsolute
  components : p.components = q.components

variable {p q : Path} {n : List Char} {ns : List (List Char)}

theorem exists_rawNames_eq (p : Path) : ∃ n ns, p.rawNames = n :: ns
    ∧ p.components = [n].filter (· ≠ []) ++ ns.filter isProper := by
  obtain ⟨n, ns, h⟩ := List.exists_cons_of_ne_nil (pieces_ne_nil (· == '/') p.text.toList)
  rw [← rawNames] at h
  exact ⟨n, ns, h, by rw [components, h]⟩

theorem slash_not_mem_rawNames (h : n ∈ p.rawNames) : '/' ∉ n := fun hs => by
  simpa using not_of_mem_pieces h '/' hs

theorem rawNames_ofRawNames (hne : ns ≠ []) (h : ∀ n ∈ ns, '/' ∉ n) :
    (ofRawNames ns).rawNames = ns := by
  rw [rawNames, ofRawNames, String.toList_ofList]
  exact pieces_intercalate hne h

theorem isAbsolute_iff : p.isAbsolute = true ↔ ∃ ns, p.rawNames = [] :: ns ∧ ns ≠ [] := by
  rw [isAbsolute, rawNames]
  rcases p.text.toList with _ | ⟨c, s⟩
  · simp [pieces]
  · obtain ⟨q, qs, hq⟩ := List.exists_cons_of_ne_nil (pieces_ne_nil (· == '/') s)
    by_cases hc : c = '/'
    · simp [hc, pieces, hq]
    · simp [hc, pieces, hq, consFirst]

section Join

theorem rawNames_join (hp : p.text ≠ "") (hq : q.isAbsolute = false) : ∃ front, front ≠ []
    ∧ (p.join q).rawNames = front ++ q.rawNames
    ∧ (p.rawNames = front ∨ p.rawNames = front ++ [[]]) := by
  rw [join, if_neg (by simp [hp, hq])]
  simp only [rawNames]
  split
  · rename_i hl
    obtain ⟨a, ha⟩ := List.getLast?_eq_some_iff.1 (by simpa using hl)
    refine ⟨pieces (· == '/') a, pieces_ne_nil _ _, ?_, .inr ?_⟩
    · rw [String.toList_append, ha, List.append_assoc, List.singleton_append,
        pieces_append_cons (by simp)]
    · rw [ha, pieces_append_cons (by simp)]
      rfl
  · refine ⟨pieces (· == '/') p.text.toList, pieces_ne_nil _ _, ?_, .inl rfl⟩
    rw [String.toList_append, String.toList_append, List.append_assoc]
    exact pieces_append_cons rfl _ _

theorem components_join (hp : p.text ≠ "") (hq : q.isAbsolute = false) :
    (p.join q).components = p.components ++ q.rawNames.filter isProper := by
  obtain ⟨front, hne, hj, hf⟩ := rawNames_join hp hq
  obtain ⟨n, ns, rfl⟩ := List.exists_cons_of_ne_nil hne
  have hp' : p.components = [n].filter (· ≠ []) ++ ns.filter isProper := by
    rcases hf with hf | hf <;> simp [components, hf, isProper]
  rw [hp', components, hj]
  simp

theorem components_of_not_mem (h : '/' ∉ p.text.toList) :
    p.components = [p.text.toList].filter (· ≠ []) := by
  rw [components, rawNames,
    pieces_of_forall fun c hc => by simpa using fun hs : c = '/' => h (hs ▸ hc)]
  simp

theorem isProper_of_length (h : 2 ≤ n.length) : isProper n = true := by
  rcases n with _ | ⟨c, _ | ⟨c', n⟩⟩
  · cases h
  · simp at h
  · simp [isProper]

theorem components_of_root (hp : p.text.toList = '/' :: n) (h : '/' ∉ n) :
    p.components = [n].filter isProper := by
  rw [components, rawNames, hp, pieces, if_pos (by rfl),
    pieces_of_forall fun c hc => by simpa using fun hs : c = '/' => h (hs ▸ hc)]
  rfl

end Join

section Parent

/-- The names that count in a row that is given from its end. -/
def kept (absolute : Bool) : List (List Char) → List (List Char)
  | [] => []
  | n :: before =>
    if n = [] || (n == ['.'] && (absolute || before ≠ [])) then kept absolute before
    else n :: kept absolute before

theorem kept_true : ∀ row : List (List Char), kept true row = row.filter isProper
  | [] => rfl
  | n :: row => by
    simp only [kept, kept_true row, isProper, List.filter_cons]
    by_cases h : n = [] <;> by_cases h' : n = ['.'] <;> simp [h, h']

theorem kept_false (n : List Char) : ∀ row : List (List Char),
    kept false (row ++ [n]) = row.filter isProper ++ [n].filter (· ≠ [])
  | [] => by
    by_cases h : n = [] <;> simp [kept, h]
  | m :: row => by
    simp only [List.cons_append, kept, kept_false n row, isProper, List.filter_cons]
    by_cases h : m = [] <;> by_cases h' : m = ['.'] <;> simp [h, h']

/-- The raw names that a lineage is made of, from the last one. -/
def row (p : Path) : List (List Char) :=
  (if p.isAbsolute then p.rawNames.tail else p.rawNames).reverse

theorem components_eq_kept (p : Path) : p.components = (kept p.isAbsolute p.row).reverse := by
  obtain ⟨n, ns, hns, hcomponents⟩ := p.exists_rawNames_eq
  rw [row, hcomponents, hns]
  cases ha : p.isAbsolute with
  | true =>
    obtain ⟨ms, hms, -⟩ := isAbsolute_iff.1 ha
    obtain ⟨rfl, -⟩ := List.cons.inj (hns.symm.trans hms)
    simp [kept_true]
  | false =>
    simp only [Bool.false_eq_true, if_false, List.reverse_cons, kept_false]
    by_cases h : n = [] <;> simp [h]

theorem lineage_eq (p : Path) : p.lineage = (beginnings p.isAbsolute p.row).map fun b =>
    ofRawNames (if p.isAbsolute then [] :: b else b) := by
  rw [lineage, row]
  cases p.isAbsolute <;> rfl

/-- The longest beginning ends in the last name that counts, and the others are those of the names
before it. -/
theorem beginnings_cases (absolute : Bool) : ∀ row : List (List Char),
    (kept absolute row = [] ∧ beginnings absolute row = []) ∨ ∃ n before, n :: before <:+ row
      ∧ kept absolute row = n :: kept absolute before
      ∧ kept absolute (n :: before) = n :: kept absolute before
      ∧ beginnings absolute row = (n :: before).reverse :: beginnings absolute before
  | [] => .inl ⟨rfl, rfl⟩
  | n :: row => by
    by_cases h : (n = [] || (n == ['.'] && (absolute || row ≠ []))) = true
    · rw [kept, beginnings, if_pos h, if_pos h]
      refine (beginnings_cases absolute row).imp id ?_
      rintro ⟨m, before, hs, hrest⟩
      exact ⟨m, before, hs.trans (List.suffix_cons n row), hrest⟩
    · have hk : kept absolute (n :: row) = n :: kept absolute row := by rw [kept, if_neg h]
      exact .inr ⟨n, row, List.suffix_rfl, hk, hk, by rw [beginnings, if_neg h]⟩

/-- A beginning of a path starts where the path does, and its row is what is left of the path's. -/
theorem row_of_suffix (hne : ns ≠ []) (hs : ns <:+ p.row) :
    (ofRawNames (if p.isAbsolute then [] :: ns.reverse else ns.reverse)).isAbsolute = p.isAbsolute
      ∧ (ofRawNames (if p.isAbsolute then [] :: ns.reverse else ns.reverse)).row = ns := by
  have hslash : ∀ n ∈ ns.reverse, '/' ∉ n := by
    intro n hn
    have hrow := hs.subset (List.mem_reverse.1 hn)
    rw [row, List.mem_reverse] at hrow
    split at hrow
    · exact slash_not_mem_rawNames (List.mem_of_mem_tail hrow)
    · exact slash_not_mem_rawNames hrow
  cases ha : p.isAbsolute with
  | true =>
    simp only [if_true]
    have hraw : (ofRawNames ([] :: ns.reverse)).rawNames = [] :: ns.reverse :=
      rawNames_ofRawNames (by simp) (by simpa using hslash)
    have habs := isAbsolute_iff.2 ⟨_, hraw, by simpa using hne⟩
    exact ⟨habs, by rw [row, if_pos habs, hraw, List.tail_cons, List.reverse_reverse]⟩
  | false =>
    simp only [Bool.false_eq_true, if_false]
    have hraw : (ofRawNames ns.reverse).rawNames = ns.reverse :=
      rawNames_ofRawNames (by simpa using hne) hslash
    have hrel : (ofRawNames ns.reverse).isAbsolute = false := by
      rw [← Bool.not_eq_true]
      intro h
      -- the path itself would start at the root
      obtain ⟨ms, hms, hms'⟩ := isAbsolute_iff.1 h
      rw [row, ha, if_neg Bool.false_ne_true, ← List.reverse_prefix, List.reverse_reverse, ← hraw,
        hms] at hs
      obtain ⟨rest, hrest⟩ := hs
      rw [isAbsolute_iff.2 ⟨ms ++ rest, hrest.symm, by simp [hms']⟩] at ha
      cases ha
    exact ⟨hrel, by rw [row, hrel, if_neg Bool.false_ne_true, hraw, List.reverse_reverse]⟩

/-- The parent of a path has all its names but the last. -/
theorem parent?_of_components {cs : List (List Char)} (h : p.components = cs ++ [n]) :
    ∃ q, p.parent? = some q ∧ q.isAbsolute = p.isAbsolute ∧ q.components = cs := by
  have hk : kept p.isAbsolute p.row = n :: cs.reverse := by
    rw [← List.reverse_inj, ← components_eq_kept, h]
    simp
  rcases beginnings_cases p.isAbsolute p.row with ⟨hnil, -⟩ | ⟨m, before, hs, hcons, -, hb⟩
  · rw [hnil] at hk
    cases hk
  obtain ⟨-, hbefore⟩ := List.cons.inj (hcons.symm.trans hk)
  rcases beginnings_cases p.isAbsolute before
    with ⟨hnil, hb'⟩ | ⟨m', before', hs', hcons', hk', hb'⟩
  · have hcs : cs = [] := by simpa [hnil] using hbefore
    refine ⟨if p.isAbsolute then ⟨"/"⟩ else ⟨""⟩, ?_, ?_, ?_⟩
    · rw [parent?, lineage_eq, hb, hb']
      rfl
    · cases p.isAbsolute <;> rfl
    · rw [hcs]
      cases p.isAbsolute <;> rfl
  · obtain ⟨habs, hrow⟩ := row_of_suffix (List.cons_ne_nil m' before')
      (hs'.trans ((List.suffix_cons m before).trans hs))
    refine ⟨_, ?_, habs, ?_⟩
    · rw [parent?, lineage_eq, hb, hb']
      rfl
    · rw [components_eq_kept, habs, hrow, hk', ← hcons', hbefore, List.reverse_reverse]

theorem filter_rawNames (p : Path) :
    p.rawNames.filter isProper = p.components.filter (· ≠ ['.']) := by
  obtain ⟨n, ns, hns, hcomponents⟩ := p.exists_rawNames_eq
  have hproper : (ns.filter isProper).filter (· ≠ ['.']) = ns.filter isProper :=
    List.filter_eq_self.2 fun m hm => by
      simpa using (Bool.and_eq_true_iff.1 (List.mem_filter.1 hm).2).2
  rw [hcomponents, hns, List.filter_append, hproper, List.filter_cons]
  by_cases h : n = [] <;> by_cases h' : n = ['.'] <;> simp [isProper, h, h']

theorem fileName?_of_components {cs : List (List Char)} (h : p.components = cs ++ [n])
    (hdot : n ≠ ['.']) (hup : n ≠ ['.', '.']) : p.fileName? = some (String.ofList n) := by
  have hlast : (p.rawNames.filter fun n => n ≠ [] && n ≠ ['.']).getLast? = some n := by
    change (p.rawNames.filter isProper).getLast? = some n
    rw [filter_rawNames, h, List.filter_append, List.filter_cons_of_pos (by simpa using hdot),
      List.filter_nil, List.getLast?_concat]
  rw [fileName?, hlast]
  exact if_neg hup

theorem slash_not_mem_of_fileName? {s : String} (h : p.fileName? = some s) : '/' ∉ s.toList := by
  rw [fileName?] at h
  split at h
  · cases h
  · rename_i n hn
    split_ifs at h
    cases h
    rw [String.toList_ofList]
    exact slash_not_mem_rawNames (List.mem_filter.1 (List.mem_of_getLast? hn)).1

end Parent

end Path

end GraphBlock
