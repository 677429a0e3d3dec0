import GraphBlock.Proofs.Spec.Grammar
import Mathlib.Logic.Relation

/-!
# What may be changed about a line

A style or a color may stand anywhere among the modifiers and its name may be in any case, blanks
may stand around the texts between the bars, and blank modifiers may be added (`LineText.Edit`).
An edit leaves the styles, the colors and the fragments of a line what they are, but for the order
of the first two (`LineText.Edit.agree`), and that is all that its equation depends on
(`LineText.Agree.parse_eq_ok_iff`).  So lines that edits lead to from each other compile to the
same equation, or none of them compiles.
-/

namespace GraphBlock

open Text

/-- A line by the texts between its bars. -/
structure LineText where
  expression : List Char
  modifiers : List (List Char)

namespace LineText

def parts (l : LineText) : List (List Char) :=
  l.expression :: l.modifiers

def text (l : LineText) : List Char :=
  ['|'].intercalate l.parts

/-- Both are the name of the same style or of the same color, in whatever case. -/
def SameName (t u : List Char) : Prop :=
  (∃ s : Style, SameWord t s.name.toList ∧ SameWord u s.name.toList)
    ∨ ∃ c : NamedColor, SameWord t c.name.toList ∧ SameWord u c.name.toList

/-- One change that is no change of what a line says. -/
inductive Edit : LineText → LineText → Prop
  | move {x t : List Char} {a b c : List (List Char)} (h : IsStyle (trim t) ∨ IsColor (trim t)) :
      Edit ⟨x, a ++ t :: (b ++ c)⟩ ⟨x, a ++ (b ++ t :: c)⟩
  | recase {x t u : List Char} {a b : List (List Char)} (h : SameName t u) :
      Edit ⟨x, a ++ t :: b⟩ ⟨x, a ++ u :: b⟩
  | padExpression {x p q : List Char} {a : List (List Char)} (hp : Padding p) (hq : Padding q) :
      Edit ⟨x, a⟩ ⟨p ++ x ++ q, a⟩
  | padModifier {x t p q : List Char} {a b : List (List Char)} (hp : Padding p)
      (hq : Padding q) : Edit ⟨x, a ++ t :: b⟩ ⟨x, a ++ (p ++ t ++ q) :: b⟩
  | insert {x p : List Char} {a b : List (List Char)} (hp : Padding p) :
      Edit ⟨x, a ++ b⟩ ⟨x, a ++ p :: b⟩

section Plain

/-- What stands between two bars of one line of a body. -/
structure Plain (s : List Char) : Prop where
  noBar : '|' ∉ s
  noBreak : '\n' ∉ s
  noDashes : ¬ dashes <:+: s

theorem plain_padding {p : List Char} (h : Padding p) : Plain p :=
  ⟨h.not_mem (by decide), fun hm => (h _ hm).2 rfl, noDashes_of_not_mem (h.not_mem (by decide))⟩

theorem plain_padded_iff {p q s : List Char} (hp : Padding p) (hq : Padding q) :
    Plain (p ++ s ++ q) ↔ Plain s := by
  have hpart : s <:+: p ++ s ++ q := List.infix_append p s q
  constructor
  · intro h
    exact ⟨fun hm => h.noBar (hpart.subset hm), fun hm => h.noBreak (hpart.subset hm),
      fun hd => h.noDashes (hd.trans hpart)⟩
  · intro h
    refine ⟨?_, ?_, noDashes_padded (hp.not_mem (by decide)) (hq.not_mem (by decide)) h.noDashes⟩
    · simp [(plain_padding hp).noBar, (plain_padding hq).noBar, h.noBar]
    · simp [(plain_padding hp).noBreak, (plain_padding hq).noBreak, h.noBreak]

theorem SameName.phrase {t u : List Char} : SameName t u → Phrase t ∧ Phrase u
  | .inl ⟨_, ht, hu⟩ => ⟨phrase_of_style ht, phrase_of_style hu⟩
  | .inr ⟨_, ht, hu⟩ => ⟨phrase_of_named ht, phrase_of_named hu⟩

theorem plain_of_phrase {s : List Char} (h : Phrase s) : Plain s :=
  ⟨h.noBar, h.noBreak, h.noDashes⟩

variable {l m : LineText}

/-- An edited line is one line exactly if the line before was. -/
theorem Edit.plain_iff (h : Edit l m) : (∀ s ∈ l.parts, Plain s) ↔ ∀ s ∈ m.parts, Plain s := by
  cases h with
  | move h =>
    simp only [parts, List.forall_mem_cons, List.forall_mem_append]
    tauto
  | recase h =>
    have ht := plain_of_phrase h.phrase.1
    have hu := plain_of_phrase h.phrase.2
    simp only [parts, List.forall_mem_cons, List.forall_mem_append, ht, hu]
  | padExpression hp hq => simp only [parts, List.forall_mem_cons, plain_padded_iff hp hq]
  | padModifier hp hq =>
    simp only [parts, List.forall_mem_cons, List.forall_mem_append, plain_padded_iff hp hq]
  | insert hp =>
    simp only [parts, List.forall_mem_cons, List.forall_mem_append, plain_padding hp, true_and]

end Plain

section Agree

/-- The modifiers as the compiler reads them. -/
def words (ts : List (List Char)) : List String :=
  Equation.words (ts.map trim)

theorem words_append (a b : List (List Char)) : words (a ++ b) = words a ++ words b := by
  simp [words, Equation.words]

theorem words_middle (a : List (List Char)) (t : List Char) (b : List (List Char)) :
    words (a ++ t :: b) = words a ++ (words [t] ++ words b) := by
  rw [words_append, ← List.singleton_append, words_append]

theorem words_singleton {t u : List Char} (h : trim t = trim u) : words [t] = words [u] := by
  simp [words, h]

theorem words_phrase {t : List Char} (h : Phrase t) : words [t] = [String.ofList t] := by
  simp [words, Equation.words, h.tight.trim_eq, h.ne_nil]

/-- A style and a color are no fragments. -/
theorem fragmentsIn_words {t : List Char} (h : IsStyle (trim t) ∨ IsColor (trim t)) :
    fragmentsIn (words [t]) = [] := by
  rw [List.eq_nil_iff_forall_not_mem]
  intro f hf
  obtain ⟨hw, hc⟩ := mem_fragmentsIn.1 hf
  have hf : f.toList = trim t := by
    simp only [words, Equation.words, List.map_cons, List.map_nil, List.mem_map, List.mem_filter,
      List.mem_singleton] at hw
    obtain ⟨_, ⟨rfl, -⟩, rfl⟩ := hw
    exact String.toList_ofList
  rw [← hf, ← style?_isSome_iff, ← color?_isSome_iff, hc] at h
  simp [Modifier.style?, Modifier.color?] at h

theorem words_padding {p : List Char} (h : Padding p) : words [p] = [] := by
  simp [words, h.trim_eq, Equation.words]

theorem SameName.classify_eq {t u : List Char} : SameName t u →
    Modifier.classify (String.ofList t) = Modifier.classify (String.ofList u)
  | .inl ⟨s, ht, hu⟩ => by
    rw [← String.toList_ofList (l := t)] at ht
    rw [← String.toList_ofList (l := u)] at hu
    rw [classify_eq_style_iff.2 ht, classify_eq_style_iff.2 hu]
  | .inr ⟨c, ht, hu⟩ => by
    rw [← String.toList_ofList (l := t)] at ht
    rw [← String.toList_ofList (l := u)] at hu
    rw [classify_eq_named_iff.2 ht, classify_eq_named_iff.2 hu]

/-- Two lines have the same expression, the same styles and colors in some order, and the same
fragments in the same order. -/
structure Agree (l m : LineText) : Prop where
  expression : trim l.expression = trim m.expression
  styles : (stylesIn (words l.modifiers)).Perm (stylesIn (words m.modifiers))
  colors : (colorsIn (words l.modifiers)).Perm (colorsIn (words m.modifiers))
  fragments : fragmentsIn (words l.modifiers) = fragmentsIn (words m.modifiers)

variable {l m : LineText}

theorem Agree.of_words (hx : trim l.expression = trim m.expression)
    (hw : words l.modifiers = words m.modifiers) : Agree l m :=
  ⟨hx, by rw [hw], by rw [hw], by rw [hw]⟩

/-- An edit leaves all that a line says. -/
theorem Edit.agree (h : Edit l m) : Agree l m := by
  cases h with
  | @move x t a b c h =>
    have hl : words (a ++ t :: (b ++ c)) = words a ++ (words [t] ++ (words b ++ words c)) := by
      rw [words_middle, words_append]
    have hm : words (a ++ (b ++ t :: c)) = words a ++ (words b ++ (words [t] ++ words c)) := by
      rw [words_append, words_middle]
    have hperm : (words (a ++ t :: (b ++ c))).Perm (words (a ++ (b ++ t :: c))) := by
      rw [hl, hm]
      exact .append_left _ (List.perm_append_comm_assoc _ _ _)
    have ht := fragmentsIn_words h
    simp only [fragmentsIn] at ht
    refine ⟨rfl, hperm.filterMap _, hperm.filterMap _, ?_⟩
    simp only [hl, hm, fragmentsIn, List.filterMap_append, ht, List.nil_append]
  | @recase x t u a b h =>
    have hl := words_middle a t b
    have hm := words_middle a u b
    rw [words_phrase h.phrase.1] at hl
    rw [words_phrase h.phrase.2] at hm
    refine ⟨rfl, ?_, ?_, ?_⟩ <;>
      simp only [hl, hm, stylesIn, colorsIn, fragmentsIn, List.filterMap_append,
        List.filterMap_cons, List.filterMap_nil, h.classify_eq, List.Perm.refl]
  | padExpression hp hq => exact .of_words (hp.trim_padded hq _).symm rfl
  | @padModifier x t p q a b hp hq =>
    have ht : words [p ++ t ++ q] = words [t] := words_singleton (hp.trim_padded hq t)
    refine .of_words rfl ?_
    rw [words_middle, words_middle, ht]
  | @insert x p a b hp =>
    refine .of_words rfl ?_
    rw [words_append, words_middle, words_padding hp, List.nil_append]

theorem Agree.symm (h : Agree l m) : Agree m l :=
  ⟨h.expression.symm, h.styles.symm, h.colors.symm, h.fragments.symm⟩

theorem Agree.trans {n : LineText} (h : Agree l m) (h' : Agree m n) : Agree l n :=
  ⟨h.expression.trans h'.expression, h.styles.trans h'.styles, h.colors.trans h'.colors,
    h.fragments.trans h'.fragments⟩

/-- What a row of edits leads to is one line if the start is, and says the same. -/
theorem agree_of_edits (h : Relation.EqvGen Edit l m) :
    ((∀ s ∈ l.parts, Plain s) ↔ ∀ s ∈ m.parts, Plain s) ∧ Agree l m := by
  induction h with
  | rel l m h => exact ⟨h.plain_iff, h.agree⟩
  | refl l => exact ⟨Iff.rfl, .of_words rfl rfl⟩
  | symm l m _ ih => exact ⟨ih.1.symm, ih.2.symm⟩
  | trans l m n _ _ ih ih' => exact ⟨ih.1.trans ih'.1, ih.2.trans ih'.2⟩

end Agree

section Compile

variable {l m : LineText}

theorem pieces_text (hl : ∀ s ∈ l.parts, Plain s) :
    (pieces (· == '|') (trim l.text)).map trim
      = trim l.expression :: l.modifiers.map trim := by
  have hbar : ∀ c, isBlank c = true → (c == '|') = false := by
    intro c hc
    rw [beq_eq_false_iff_ne]
    rintro rfl
    exact absurd hc (by decide)
  have hcut : pieces (· == '|') l.text = l.parts :=
    pieces_intercalate (List.cons_ne_nil _ _) fun s hs => (hl s hs).noBar
  rw [map_trim_pieces_trim hbar, hcut]
  rfl

theorem parse_text_eq_ok_iff (hl : ∀ s ∈ l.parts, Plain s) {e : Equation} :
    Equation.parse (trim l.text) = .ok e ↔ trim l.expression ≠ [] ∧ Clean (trim l.expression)
      ∧ e.expression = String.ofList (trim l.expression)
      ∧ e.style.toList = stylesIn (words l.modifiers)
      ∧ e.color.toList = colorsIn (words l.modifiers)
      ∧ e.restrictions = fragmentsIn (words l.modifiers)
      ∧ ∀ f ∈ fragmentsIn (words l.modifiers), Clean f.toList := by
  rw [Equation.parse_eq_ok_iff, pieces_text hl]
  simp only [List.cons.injEq, ↓existsAndEq, true_and, words]

/-- A row that holds what an option holds does so in every order. -/
theorem toList_eq_iff_of_perm {α : Type} {o : Option α} {a b : List α} (h : a.Perm b) :
    o.toList = a ↔ o.toList = b := by
  have hone : ∀ {a b : List α}, a.Perm b → o.toList = a → o.toList = b := by
    rintro a b h rfl
    cases o with
    | none => exact (List.nil_perm.1 h).symm
    | some x => exact List.perm_singleton.1 h.symm |>.symm
  exact ⟨hone h, hone h.symm⟩

/-- Lines that say the same compile to the same equation. -/
theorem Agree.parse_eq_ok_iff (h : Agree l m) (hl : ∀ s ∈ l.parts, Plain s)
    (hm : ∀ s ∈ m.parts, Plain s) {e : Equation} :
    Equation.parse (trim l.text) = .ok e ↔ Equation.parse (trim m.text) = .ok e := by
  rw [parse_text_eq_ok_iff hl, parse_text_eq_ok_iff hm, h.expression, h.fragments,
    toList_eq_iff_of_perm h.styles, toList_eq_iff_of_perm h.colors]

/-- A line by itself is a block with the equation of the line. -/
theorem spec_parse_line {s : List Char} (hd : ¬ dashes <:+: s) (hb : '\n' ∉ s) (hne : trim s ≠ []) :
    Spec.parse (String.ofList s)
      = (Equation.parse (trim s)).map fun e => Spec.ofContent [e] Fields.default := by
  have hentries : entries (· == '\n') s = [trim s] := by
    refine entries_eq_singleton (fun c hc => ?_) hne
    rw [beq_eq_false_iff_ne]
    rintro rfl
    exact hb hc
  have hlayout : Layout (String.ofList s).toList [] s := by
    rw [String.toList_ofList]
    exact .body hd
  rw [Spec.parse_of_layout hlayout, parseFields_nil]
  simp only [parseBody, hentries, List.mapM_cons, List.mapM_nil]
  rcases Equation.parse (trim s) with d | e <;> rfl

/-- The line compiles to the equation, in a body and as a block of its own. -/
def CompilesTo (l : LineText) (e : Equation) : Prop :=
  Equation.parse (trim l.text) = .ok e
    ∧ Spec.parse (String.ofList l.text) = .ok (Spec.ofContent [e] Fields.default)

/-- The line does not compile, in a body or as a block of its own. -/
def Rejected (l : LineText) : Prop :=
  ∃ d, Equation.parse (trim l.text) = .error d ∧ Spec.parse (String.ofList l.text) = .error d

theorem trim_text_ne_nil (h : trim l.expression ≠ []) : trim l.text ≠ [] := by
  obtain ⟨c, hc, hb⟩ := trim_ne_nil_iff.1 h
  refine trim_ne_nil_iff.2 ⟨c, ?_, hb⟩
  unfold text parts
  by_cases hm : l.modifiers = []
  · simpa [hm] using hc
  · rw [join_cons hm]
    exact List.mem_append_left _ hc

/-- One line by itself compiles as it does in a body. -/
theorem compilesTo_or_rejected (hl : ∀ s ∈ l.parts, Plain s) (hx : trim l.expression ≠ []) :
    (∀ e, Equation.parse (trim l.text) = .ok e → l.CompilesTo e)
      ∧ ((∀ e, Equation.parse (trim l.text) ≠ .ok e) → l.Rejected) := by
  have htext : '\n' ∉ l.text ∧ ¬ dashes <:+: l.text :=
    join_noBreak_noDashes fun s hs => ⟨(hl s hs).noBreak, (hl s hs).noDashes⟩
  have hblock := spec_parse_line htext.2 htext.1 (trim_text_ne_nil hx)
  constructor
  · intro e he
    exact ⟨he, by rw [hblock, he]; rfl⟩
  · intro h
    rcases he : Equation.parse (trim l.text) with d | e
    · exact ⟨d, he, by rw [hblock, he]; rfl⟩
    · exact absurd he (h e)

/-- A line with an expression, and what any row of edits makes of it, compile to one equation, and
with it to one spec, or neither of them compiles.  The equation has the fragments of the line in
their order. -/
theorem edited_lines_compile_alike {l m : LineText} (hx : ∃ c ∈ l.expression, isBlank c = false)
    (hl : ∀ s ∈ l.parts, '|' ∉ s ∧ '\n' ∉ s) (hd : ¬ dashes <:+: l.text)
    (h : Relation.EqvGen Edit l m) :
    (∃ e, l.CompilesTo e ∧ m.CompilesTo e ∧ e.restrictions = fragmentsIn (words l.modifiers))
      ∨ l.Rejected ∧ m.Rejected := by
  have hcut : pieces (· == '|') l.text = l.parts :=
    pieces_intercalate (List.cons_ne_nil _ _) fun s hs => (hl s hs).1
  have hpl : ∀ s ∈ l.parts, Plain s := fun s hs =>
    ⟨(hl s hs).1, (hl s hs).2, fun hds => hd (hds.trans (infix_of_mem_pieces (hcut ▸ hs)))⟩
  obtain ⟨hplain, hagree⟩ := agree_of_edits h
  have hpm := hplain.1 hpl
  have hxl := trim_ne_nil_iff.2 hx
  have hxm : trim m.expression ≠ [] := hagree.expression ▸ hxl
  obtain ⟨hokl, hnol⟩ := compilesTo_or_rejected hpl hxl
  obtain ⟨hokm, hnom⟩ := compilesTo_or_rejected hpm hxm
  have hsame := fun e => hagree.parse_eq_ok_iff hpl hpm (e := e)
  by_cases hok : ∃ e, Equation.parse (trim l.text) = .ok e
  · obtain ⟨e, he⟩ := hok
    obtain ⟨-, -, -, -, -, hfragments, -⟩ := (parse_text_eq_ok_iff hpl).1 he
    exact .inl ⟨e, hokl e he, hokm e ((hsame e).1 he), hfragments⟩
  · rw [not_exists] at hok
    exact .inr ⟨hnol hok, hnom fun e he => hok e ((hsame e).2 he)⟩

/-- A style goes over a fragment and a color behind it, both change case, and blanks are added. -/
theorem edited_lines_compile_alike_mixed :
    let l : LineText := ⟨['y', '=', 'x'], [['r', 'e', 'd'], ['a', '>', '0'], ['o', 'p', 'e', 'n']]⟩
    let m : LineText := ⟨['\u2003', 'y', '=', 'x', ' '],
      [[' '], ['O', 'P', 'E', 'N'], ['a', '>', '0'], ['\t', 'R', 'e', 'd']]⟩
    l.CompilesTo ⟨"y=x", some .openPoint, some (.named .red), ["a>0"]⟩
      ∧ ((∃ e, l.CompilesTo e ∧ m.CompilesTo e ∧ e.restrictions = fragmentsIn (words l.modifiers))
        ∨ l.Rejected ∧ m.Rejected) := by
  refine ⟨⟨rfl, rfl⟩, edited_lines_compile_alike ⟨'y', by decide⟩ (by decide) (by decide) ?_⟩
  have hred : SameName ['r', 'e', 'd'] ['R', 'e', 'd'] := .inr ⟨.red, rfl, rfl⟩
  have hopen : SameName ['o', 'p', 'e', 'n'] ['O', 'P', 'E', 'N'] := .inl ⟨.openPoint, rfl, rfl⟩
  have step := fun {l m : LineText} (h : Edit l m) => Relation.EqvGen.rel l m h
  refine .trans _ _ _ (step (.move (a := []) (b := [_, _]) (c := []) (.inr (.inl ⟨.red, rfl⟩)))) ?_
  refine .trans _ _ _ (.symm _ _ (step (.move (a := []) (b := [_]) (.inl ⟨.openPoint, rfl⟩)))) ?_
  refine .trans _ _ _ (step (.recase (a := []) hopen)) ?_
  refine .trans _ _ _ (step (.recase (a := [_, _]) hred)) ?_
  have tab : Padding ['\t'] := .singleton rfl (by decide)
  have blank : Padding [' '] := .singleton rfl (by decide)
  refine .trans _ _ _ (step (.padModifier (a := [_, _]) tab .nil)) ?_
  refine .trans _ _ _ (step (.insert (a := []) blank)) ?_
  exact step (.padExpression (.singleton (c := '\u2003') rfl (by decide)) blank)

end Compile

end LineText

end GraphBlock
