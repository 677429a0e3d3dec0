import GraphBlock.Proofs.Spec.Grammar

/-!
# Why a line is refused

`LineFault` says which errors a line can be refused with, and where in the line each of them is:
in the expression, or in a modifier behind modifiers that go together (`Compatible`).  The compiler
refuses a line with these errors and no other (`Equation.parse_eq_error_iff_lineFault`).
-/

namespace GraphBlock

open Text

section Faults

/-- The first quote or backtick of a text. -/
def FirstBanned (s : List Char) (c : Char) : Prop :=
  ∃ a b, s = a ++ c :: b ∧ Clean a ∧ c ∈ bannedCharacters

/-- The color as a spec is written with it: a name in capitals, or number sign and digits as they
stand. -/
inductive ColorText : List Char → String → Prop
  | named {token : List Char} {c : NamedColor} (h : SameWord token c.name.toList) :
      ColorText token c.name
  | hex {s : List Char} (hne : s ≠ []) (h : ∀ c ∈ s, c.isAlphanum = true) :
      ColorText ('#' :: s) (String.ofList ('#' :: s))

/-- Modifiers without a quote or a backtick, and neither two styles nor two colors among them. -/
structure Compatible (tokens : List (List Char)) : Prop where
  clean : ∀ t ∈ tokens, Clean t
  oneStyle : tokens.Pairwise fun t u => ¬ (IsStyle t ∧ IsStyle u)
  oneColor : tokens.Pairwise fun t u => ¬ (IsColor t ∧ IsColor u)

/-- What is wrong with a modifier of an expression behind other modifiers: it is another style or
another color, or it is a fragment with a quote or a backtick. -/
inductive ModifierFault (expression : String) (before : List (List Char)) :
    List Char → ParseError → Prop
  | style {t u : List Char} {s : Style} (ht : t ∈ before) (hs : SameWord t s.name.toList)
      (hu : IsStyle u) : ModifierFault expression before u
        (.duplicateStyle expression s.name (String.ofList u))
  | color {t u : List Char} {text : String} (ht : t ∈ before) (hc : ColorText t text)
      (hu : IsColor u) : ModifierFault expression before u
        (.duplicateColor expression text (String.ofList u))
  | fragment {u : List Char} {c : Char} (hs : ¬ IsStyle u) (hc : ¬ IsColor u)
      (hb : FirstBanned u c) : ModifierFault expression before u
        (.bannedCharacter c (String.ofList u))

/-- What stands in front of the first bar of a line. -/
def expressionOf (line : List Char) : List Char :=
  trim (line.takeWhile (· != '|'))

/-- What is wrong with a line where nothing in front of it is wrong. -/
inductive LineFault : List Char → ParseError → Prop
  | missing {s : List Char} : LineFault ('|' :: s) (.emptyExpression (String.ofList ('|' :: s)))
  | expression {line : List Char} {c : Char} (h : FirstBanned (expressionOf line) c) :
      LineFault line (.bannedCharacter c (String.ofList (expressionOf line)))
  | modifier {line token : List Char} {before after : List (List Char)} {d : ParseError}
      (hne : expressionOf line ≠ []) (hx : Clean (expressionOf line))
      (hm : modifiers line = before ++ token :: after) (hb : Compatible before)
      (hf : ModifierFault (String.ofList (expressionOf line)) before token d) : LineFault line d

end Faults

section Modifiers

theorem checkBanned_eq_error_iff {value : String} {d : ParseError} :
    checkBanned value = .error d
      ↔ ∃ c, FirstBanned value.toList c ∧ d = .bannedCharacter c value := by
  have hfind : ∀ c, value.toList.find? bannedCharacters.contains = some c
      ↔ FirstBanned value.toList c := by
    intro c
    rw [List.find?_eq_some_iff_append]
    simp only [FirstBanned, Clean, Bool.not_eq_true', Bool.eq_false_iff, ne_eq,
      List.contains_iff_mem]
    constructor
    · rintro ⟨hc, a, b, he, ha⟩
      exact ⟨a, b, he, ha, hc⟩
    · rintro ⟨a, b, he, ha, hc⟩
      exact ⟨hc, a, b, he, ha⟩
  simp only [← hfind, checkBanned]
  rcases value.toList.find? bannedCharacters.contains with _ | c
  · simp only [reduceCtorEq, false_and, exists_false]
  · simp only [Option.some.injEq, ↓existsAndEq, true_and, Except.error.injEq]
    exact eq_comm

theorem colorText_iff {t : List Char} {text : String} :
    ColorText t text ↔ ∃ c, Modifier.classify (String.ofList t) = .color c ∧ c.text = text := by
  constructor
  · rintro (h | ⟨hne, h⟩)
    · exact ⟨_, classify_eq_named_iff.2 (by rwa [String.toList_ofList]), rfl⟩
    · refine ⟨_, Modifier.classify_hex ?_, rfl⟩
      rw [String.toList_ofList]
      exact isHex_iff.2 ⟨_, rfl, hne, h⟩
  · rintro ⟨c | u, hc, rfl⟩
    · have h := classify_eq_named_iff.1 hc
      rw [String.toList_ofList] at h
      exact .named h
    · obtain ⟨rfl, hex⟩ := (Modifier.classify_spec _).2 u hc
      rw [String.toList_ofList] at hex
      obtain ⟨s, rfl, hne, h⟩ := isHex_iff.1 hex
      exact .hex hne h

theorem isStyle_iff_classify {t : List Char} :
    IsStyle t ↔ ∃ s, Modifier.classify (String.ofList t) = .style s := by
  simp only [classify_eq_style_iff, String.toList_ofList]
  rfl

theorem isColor_iff_classify {t : List Char} :
    IsColor t ↔ ∃ c, Modifier.classify (String.ofList t) = .color c := by
  rw [← String.toList_ofList (l := t), ← color?_isSome_iff, String.toList_ofList]
  rcases Modifier.classify (String.ofList t) with s | c | f <;> simp [Modifier.color?]

variable {ts : List (List Char)}

theorem mem_stylesIn_iff {s : Style} :
    s ∈ stylesIn (ts.map String.ofList) ↔ ∃ t ∈ ts, SameWord t s.name.toList := by
  have hstyle : ∀ m : Modifier, m.style? = some s ↔ m = .style s := by
    rintro (r | c | f) <;> simp [Modifier.style?]
  simp only [stylesIn, List.mem_filterMap, List.mem_map, exists_exists_and_eq_and, hstyle,
    classify_eq_style_iff, String.toList_ofList]

theorem exists_mem_colorsIn_iff {text : String} :
    (∃ c ∈ colorsIn (ts.map String.ofList), c.text = text) ↔ ∃ t ∈ ts, ColorText t text := by
  have hcolor : ∀ (m : Modifier) (c : Color), m.color? = some c ↔ m = .color c := by
    rintro (s | d | f) c <;> simp [Modifier.color?]
  simp only [colorsIn, List.mem_filterMap, List.mem_map, exists_exists_and_eq_and, hcolor,
    colorText_iff]
  constructor
  · rintro ⟨c, ⟨t, ht, hc⟩, hu⟩
    exact ⟨t, ht, c, hc, hu⟩
  · rintro ⟨t, ht, c, hc, hu⟩
    exact ⟨c, ⟨t, ht, hc⟩, hu⟩

namespace Equation

variable {e : Equation} {x : String} {d : ParseError}

theorem exists_foldlM_iff_compatible :
    (∃ e, (ts.map String.ofList).foldlM addToken (ofExpression x) = .ok e) ↔ Compatible ts := by
  have hclean : (∀ t ∈ ts, Clean t)
      ↔ ∀ f ∈ fragmentsIn (ts.map String.ofList), Clean f.toList := by
    rw [clean_fragmentsIn_iff]
    simp only [List.forall_mem_map, String.toList_ofList]
  simp only [foldlM_addToken_eq_ok_iff, ofExpression, Option.toList_none, List.nil_append]
  constructor
  · rintro ⟨e, -, hs, hc, -, hf⟩
    exact ⟨hclean.2 hf, exists_style_iff.1 ⟨_, hs⟩, exists_color_iff.1 ⟨_, hc⟩⟩
  · rintro ⟨hq, hs, hc⟩
    obtain ⟨style, hs⟩ := exists_style_iff.2 hs
    obtain ⟨color, hc⟩ := exists_color_iff.2 hc
    exact ⟨⟨x, style, color, _⟩, rfl, hs, hc, rfl, hclean.1 hq⟩

/-- One step is refused for the modifiers that were taken before it, or for itself. -/
theorem addToken_eq_error_iff {u : List Char}
    (h : (ts.map String.ofList).foldlM addToken (ofExpression x) = .ok e) :
    addToken e (String.ofList u) = .error d ↔ ModifierFault x ts u d := by
  obtain ⟨hx, hs, hc, -, -⟩ := foldlM_addToken_eq_ok_iff.1 h
  simp only [ofExpression, Option.toList_none, List.nil_append] at hx hs hc
  constructor
  · intro h
    unfold addToken at h
    split at h
    · rename_i s hu
      split at h
      · rename_i first hfirst
        obtain rfl := Except.error.inj h
        obtain ⟨t, ht, hf⟩ := mem_stylesIn_iff.1 (hs ▸ Option.mem_toList.2 hfirst)
        rw [hx]
        exact .style ht hf (isStyle_iff_classify.2 ⟨s, hu⟩)
      · cases h
    · rename_i c hu
      split at h
      · rename_i first hfirst
        obtain rfl := Except.error.inj h
        obtain ⟨t, ht, hf⟩ :=
          exists_mem_colorsIn_iff.1 ⟨first, hc ▸ Option.mem_toList.2 hfirst, rfl⟩
        rw [hx]
        exact .color ht hf (isColor_iff_classify.2 ⟨c, hu⟩)
      · cases h
    · rename_i f hu
      obtain rfl := (Modifier.classify_spec _).1 f hu
      simp only [bind_eq_error_iff, checkBanned_eq_error_iff, String.toList_ofList, pure,
        Except.pure, reduceCtorEq, and_false, exists_false, or_false] at h
      obtain ⟨c, hb, rfl⟩ := h
      exact .fragment (by simp [isStyle_iff_classify, hu]) (by simp [isColor_iff_classify, hu]) hb
  · rintro (⟨ht, hf, hu⟩ | ⟨ht, hf, hu⟩ | ⟨hns, hnc, hb⟩)
    · obtain ⟨r, hr⟩ := isStyle_iff_classify.1 hu
      have hfirst := Option.mem_toList.1 (hs ▸ mem_stylesIn_iff.2 ⟨_, ht, hf⟩)
      simp only [addToken, hr, hfirst, hx]
    · obtain ⟨r, hr⟩ := isColor_iff_classify.1 hu
      obtain ⟨c, hmem, rfl⟩ := exists_mem_colorsIn_iff.2 ⟨_, ht, hf⟩
      have hfirst := Option.mem_toList.1 (hc ▸ hmem)
      simp only [addToken, hr, hfirst, hx]
    · rcases hu : Modifier.classify (String.ofList u) with s | c | f
      · exact absurd (isStyle_iff_classify.2 ⟨s, hu⟩) hns
      · exact absurd (isColor_iff_classify.2 ⟨c, hu⟩) hnc
      · obtain rfl := (Modifier.classify_spec _).1 f hu
        simp only [addToken, hu, bind_eq_error_iff, checkBanned_eq_error_iff, String.toList_ofList]
        exact .inl ⟨_, hb, rfl⟩

/-- Modifiers are refused at the first one that does not go with those before it. -/
theorem foldlM_addToken_eq_error_iff :
    (ts.map String.ofList).foldlM addToken (ofExpression x) = .error d
      ↔ ∃ before u after, ts = before ++ u :: after ∧ Compatible before
        ∧ ModifierFault x before u d := by
  rw [foldlM_eq_error_iff]
  constructor
  · rintro ⟨before, u, after, e, heq, hok, hu⟩
    obtain ⟨before, rest, rfl, rfl, hrest⟩ := List.map_eq_append_iff.1 heq
    obtain ⟨u, after, rfl, rfl, rfl⟩ := List.map_eq_cons_iff.1 hrest
    exact ⟨before, u, after, rfl, exists_foldlM_iff_compatible.1 ⟨e, hok⟩,
      (addToken_eq_error_iff hok).1 hu⟩
  · rintro ⟨before, u, after, rfl, hb, hf⟩
    obtain ⟨e, hok⟩ := exists_foldlM_iff_compatible.2 hb
    exact ⟨before.map String.ofList, String.ofList u, after.map String.ofList, e, by simp, hok,
      (addToken_eq_error_iff hok).2 hf⟩

end Equation

end Modifiers

section Line

variable {line : List Char} {d : ParseError}

theorem expressionOf_eq_nil_iff (hne : line ≠ []) (ht : Tight line) :
    expressionOf line = [] ↔ ∃ s, line = '|' :: s := by
  obtain ⟨c, s, rfl⟩ := List.exists_cons_of_ne_nil hne
  have hblank : isBlank c = false := ht.head c rfl
  by_cases hc : c = '|'
  · subst hc
    simp [expressionOf]
  · have hx : expressionOf (c :: s) ≠ [] := by
      refine trim_ne_nil_iff.2 ⟨c, ?_, hblank⟩
      rw [List.takeWhile_cons_of_pos (by simp [hc])]
      exact List.mem_cons_self
    simp [hx, hc]

theorem Equation.parse_eq_error_iff {line : List Char} {d : ParseError} :
    Equation.parse line = .error d
      ↔ expressionOf line = [] ∧ d = .emptyExpression (String.ofList line)
        ∨ expressionOf line ≠ [] ∧ (checkBanned (String.ofList (expressionOf line)) = .error d
          ∨ Clean (expressionOf line) ∧ ((modifiers line).map String.ofList).foldlM addToken
              (ofExpression (String.ofList (expressionOf line))) = .error d) := by
  obtain ⟨ts, hcut, hwords, -⟩ := exists_pieces_eq line
  unfold Equation.parse
  rw [hcut, ← expressionOf, ← hwords, words]
  rcases expressionOf line with _ | ⟨c, x⟩
  · simp [eq_comm]
  · simp only [bind_eq_error_iff, checkBanned_eq_ok_iff, String.toList_ofList, exists_const,
      reduceCtorEq, false_and, false_or, ne_eq, not_false_eq_true, true_and]

/-- A trimmed line is refused exactly with what is wrong with it first. -/
theorem Equation.parse_eq_error_iff_lineFault (hne : line ≠ []) (ht : Tight line) :
    Equation.parse line = .error d ↔ LineFault line d := by
  rw [Equation.parse_eq_error_iff, foldlM_addToken_eq_error_iff, checkBanned_eq_error_iff,
    String.toList_ofList]
  constructor
  · rintro (⟨hx, rfl⟩ | ⟨hx, ⟨c, hb, rfl⟩ | ⟨hc, before, u, after, hm, hok, hf⟩⟩)
    · obtain ⟨s, rfl⟩ := (expressionOf_eq_nil_iff hne ht).1 hx
      exact .missing
    · exact .expression hb
    · exact .modifier hx hc hm hok hf
  · rintro (_ | ⟨hb⟩ | ⟨hx, hc, hm, hok, hf⟩)
    · exact .inl ⟨(expressionOf_eq_nil_iff hne ht).2 ⟨_, rfl⟩, rfl⟩
    · refine .inr ⟨fun hx => ?_, .inl ⟨_, hb, rfl⟩⟩
      obtain ⟨a, b, he, -, -⟩ := hb
      simp [hx] at he
    · exact .inr ⟨hx, .inr ⟨hc, _, _, _, hm, hok, hf⟩⟩

end Line

end GraphBlock
