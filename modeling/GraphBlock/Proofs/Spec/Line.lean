import GraphBlock.Proofs.Spec.Modifiers
import GraphBlock.Proofs.Text.Cut
import Mathlib.Data.Bool.AllAny

/-!
# Lines and equations

What a line compiles to is admissible: its expression is a phrase, and what it has for fragments
are phrases that are neither styles nor colors (`admissible_of_parse`).  An admissible equation,
written as a line, compiles to itself (`parse_line`).
-/

namespace GraphBlock

open Text

/-- What can stand between two bars of a line: a text that is tight and not empty, without a bar, a
line break, three dashes in a row, a quote or a backtick. -/
structure Phrase (s : List Char) : Prop where
  ne_nil : s ≠ []
  tight : Tight s
  noBar : '|' ∉ s
  noBreak : '\n' ∉ s
  noDashes : ¬ dashes <:+: s
  clean : Clean s

theorem isAlphanum_iff_code {c : Char} : c.isAlphanum = true ↔ 48 ≤ c.toNat ∧ c.toNat ≤ 57
    ∨ 65 ≤ c.toNat ∧ c.toNat ≤ 90 ∨ 97 ≤ c.toNat ∧ c.toNat ≤ 122 := by
  change (decide ('A'.val ≤ c.val ∧ c.val ≤ 'Z'.val) || ('a'.val ≤ c.val && c.val ≤ 'z'.val)
    || ('0'.val ≤ c.val && c.val ≤ '9'.val)) = true ↔ _
  simp only [Bool.or_eq_true, Bool.and_eq_true, decide_eq_true_eq, UInt32.le_iff_toNat_le]
  change ((65 ≤ c.toNat ∧ c.toNat ≤ 90) ∨ (97 ≤ c.toNat ∧ c.toNat ≤ 122))
    ∨ (48 ≤ c.toNat ∧ c.toNat ≤ 57) ↔ _
  omega

/-- Number signs, letters and digits make up a phrase. -/
theorem phrase_of_word {s : List Char} (hne : s ≠ [])
    (h : ∀ c ∈ s, c = '#' ∨ c.isAlphanum = true) : Phrase s := by
  have hcode : ∀ c ∈ s, c.toNat = 35 ∨ 48 ≤ c.toNat ∧ c.toNat ≤ 57
      ∨ 65 ≤ c.toNat ∧ c.toNat ≤ 90 ∨ 97 ≤ c.toNat ∧ c.toNat ≤ 122 := by
    intro c hc
    rcases h c hc with rfl | h
    · decide
    · exact .inr (isAlphanum_iff_code.1 h)
  have hnot : ∀ d : Char, d.toNat ∈ [10, 34, 39, 45, 96, 124] → d ∉ s := by
    intro d hd hs
    have := hcode d hs
    simp only [List.mem_cons, List.not_mem_nil, or_false] at hd
    omega
  refine ⟨hne, tight_of_forall fun c hc => ?_, hnot _ (by decide), hnot _ (by decide),
    fun hd => hnot '-' (by decide) (hd.subset (by decide)), fun c hc hb => ?_⟩
  · have := hcode c hc
    exact isBlank_of_visible (by omega) (by omega)
  · simp only [bannedCharacters, List.mem_cons, List.not_mem_nil, or_false] at hb
    rcases hb with rfl | rfl | rfl <;> exact hnot _ (by decide) hc

theorem phrase_of_isHex {s : List Char} (h : Color.isHex s = true) : Phrase s := by
  unfold Color.isHex at h
  split at h
  · simp only [ne_eq, Bool.and_eq_true, List.all_eq_true] at h
    refine phrase_of_word (List.cons_ne_nil _ _) fun c hc => ?_
    rcases List.mem_cons.1 hc with rfl | hc
    · exact .inl rfl
    · exact .inr (h.2 c hc)
  · simp at h

theorem phrase_style_name (s : Style) : Phrase s.name.toList := by
  cases s <;> exact phrase_of_word (by decide) (List.all_iff_forall_prop.1 (by decide))

theorem phrase_named (c : NamedColor) : Phrase c.name.toList := by
  cases c <;> exact phrase_of_word (by decide) (List.all_iff_forall_prop.1 (by decide))

section Join

theorem join_cons {p : List Char} {ps : List (List Char)} (h : ps ≠ []) :
    ['|'].intercalate (p :: ps) = p ++ '|' :: ['|'].intercalate ps := by
  rw [List.intercalate_cons_of_ne_nil h]
  simp

/-- Bars add neither a line break nor dashes. -/
theorem join_noBreak_noDashes : ∀ {ps : List (List Char)},
    (∀ p ∈ ps, '\n' ∉ p ∧ ¬ dashes <:+: p) →
      '\n' ∉ ['|'].intercalate ps ∧ ¬ dashes <:+: ['|'].intercalate ps
  | [], _ => by simp [dashes]
  | [p], h => by simpa using h p List.mem_cons_self
  | p :: q :: ps, h => by
    obtain ⟨hb, hd⟩ := h p List.mem_cons_self
    obtain ⟨hbs, hds⟩ := join_noBreak_noDashes fun r hr => h r (List.mem_cons_of_mem p hr)
    rw [join_cons (List.cons_ne_nil q ps)]
    refine ⟨?_, not_infix_append_cons (by decide) hds hd⟩
    simp only [List.mem_append, List.mem_cons, not_or]
    exact ⟨hb, by decide, hbs⟩

/-- What phrases with bars between them are, but for the bars. -/
theorem phrases_join : ∀ {ps : List (List Char)}, ps ≠ [] → (∀ p ∈ ps, Phrase p) →
    ['|'].intercalate ps ≠ [] ∧ Tight (['|'].intercalate ps)
      ∧ '\n' ∉ ['|'].intercalate ps ∧ ¬ dashes <:+: ['|'].intercalate ps
  | [], h, _ => absurd rfl h
  | [p], _, h => by
    have hp := h p List.mem_cons_self
    rw [List.intercalate_singleton]
    exact ⟨hp.ne_nil, hp.tight, hp.noBreak, hp.noDashes⟩
  | p :: q :: ps, _, h => by
    have hp := h p List.mem_cons_self
    obtain ⟨hne, ht, -, -⟩ := phrases_join (List.cons_ne_nil q ps)
      fun r hr => h r (List.mem_cons_of_mem _ hr)
    refine ⟨?_, ?_, join_noBreak_noDashes fun r hr => ⟨(h r hr).noBreak, (h r hr).noDashes⟩⟩
    · rw [join_cons (List.cons_ne_nil q ps)]
      simp
    · have := hp.tight.append ht hp.ne_nil hne ['|']
      rwa [List.append_assoc, List.singleton_append, ← join_cons (List.cons_ne_nil q ps)] at this

theorem pieces_join {ps : List (List Char)} (hne : ps ≠ []) (h : ∀ p ∈ ps, Phrase p) :
    pieces (· == '|') (['|'].intercalate ps) = ps :=
  pieces_intercalate hne fun p hp => (h p hp).noBar

end Join

/-- What can stand behind a bar as a fragment. -/
structure Fragment (f : String) : Prop where
  phrase : Phrase f.toList
  classified : Modifier.classify f = .restriction f

/-- What a line can compile to. -/
structure Equation.Admissible (e : Equation) : Prop where
  expression : Phrase e.expression.toList
  fragment : ∀ f ∈ e.restrictions, Fragment f
  hex : ∀ t, e.color = some (.hex t) → Color.isHex t.toList = true

namespace Equation

/-- The modifiers of a line that was cut at its bars, without the blank ones. -/
def words (ts : List (List Char)) : List String :=
  (ts.filter (· ≠ [])).map String.ofList

theorem parse_eq_ok_iff {line : List Char} {e : Equation} :
    Equation.parse line = .ok e ↔ ∃ x ts, (pieces (· == '|') line).map trim = x :: ts
      ∧ x ≠ [] ∧ Clean x ∧ e.expression = String.ofList x
      ∧ e.style.toList = stylesIn (words ts) ∧ e.color.toList = colorsIn (words ts)
      ∧ e.restrictions = fragmentsIn (words ts) ∧ ∀ f ∈ fragmentsIn (words ts), Clean f.toList := by
  unfold Equation.parse
  rcases h : (pieces (· == '|') line).map trim with _ | ⟨_ | ⟨c, x⟩, ts⟩
  · simp
  · simp
  · simp only [bind_eq_ok_iff, checkBanned_eq_ok_iff, String.toList_ofList, exists_const,
      foldlM_addToken_eq_ok_iff, ofExpression, Option.toList_none, List.nil_append, words]
    constructor
    · rintro ⟨hx, hf⟩
      exact ⟨_, _, rfl, List.cons_ne_nil _ _, hx, hf⟩
    · rintro ⟨_, _, heq, -, hx, hf⟩
      obtain ⟨rfl, rfl⟩ := List.cons.inj heq
      exact ⟨hx, hf⟩

theorem phrase_of_mem_pieces {line q : List Char} (hb : '\n' ∉ line) (hd : ¬ dashes <:+: line)
    (hq : q ∈ (pieces (· == '|') line).map trim) (hne : q ≠ []) (hc : Clean q) : Phrase q := by
  obtain ⟨r, hr, rfl⟩ := List.mem_map.1 hq
  have hi := (trim_isInfix r).trans (infix_of_mem_pieces hr)
  refine ⟨hne, tight_trim r, fun h => ?_, fun h => hb (hi.subset h), fun h => hd (h.trans hi), hc⟩
  simpa using not_of_mem_pieces hr '|' ((trim_isInfix r).subset h)

theorem admissible_of_parse {line : List Char} {e : Equation} (hb : '\n' ∉ line)
    (hd : ¬ dashes <:+: line) (h : Equation.parse line = .ok e) : e.Admissible := by
  obtain ⟨x, ts, hp, hne, hx, he, -, hcolor, hr, hclean⟩ := parse_eq_ok_iff.1 h
  refine ⟨?_, fun f hf => ?_, fun t ht => ?_⟩
  · rw [he, String.toList_ofList]
    exact phrase_of_mem_pieces hb hd (hp ▸ List.mem_cons_self) hne hx
  · rw [hr] at hf
    obtain ⟨hword, hclass⟩ := mem_fragmentsIn.1 hf
    obtain ⟨q, hq, rfl⟩ := List.mem_map.1 hword
    have hclean := hclean _ hf
    simp only [List.mem_filter, decide_eq_true_eq] at hq
    refine ⟨?_, hclass⟩
    rw [String.toList_ofList] at hclean ⊢
    exact phrase_of_mem_pieces hb hd (hp ▸ List.mem_cons_of_mem _ hq.1) hq.2 hclean
  · rw [ht, Option.toList_some] at hcolor
    exact (hex_of_mem_colorsIn (hcolor ▸ List.mem_singleton_self _)).2

variable {e : Equation}

theorem phrase_of_mem_tokens (h : e.Admissible) {t : String} (ht : t ∈ e.tokens) :
    Phrase t.toList := by
  simp only [tokens, List.mem_append, Option.mem_toList, Option.map_eq_some_iff] at ht
  rcases ht with (⟨s, -, rfl⟩ | ⟨c, hc, rfl⟩) | hf
  · exact phrase_style_name s
  · rcases c with c | u
    · exact phrase_named c
    · exact phrase_of_isHex (h.hex u hc)
  · exact (h.fragment t hf).phrase

/-- An admissible equation's tokens are dealt out as they were put together. -/
theorem dealt_tokens (h : e.Admissible) : stylesIn e.tokens = e.style.toList
    ∧ colorsIn e.tokens = e.color.toList ∧ fragmentsIn e.tokens = e.restrictions := by
  obtain ⟨hs, hc, hf⟩ := dealt_of_fragments fun f hf => (h.fragment f hf).classified
  have hcolor : ∀ c, e.color = some c → Modifier.classify c.text = .color c := by
    rintro (c | u) hu
    · exact Modifier.classify_named c
    · exact Modifier.classify_hex (h.hex u hu)
  unfold tokens
  rcases e.style with _ | s <;> rcases hec : e.color with _ | c
  · simp [hs, hc, hf]
  · simp [stylesIn_cons, colorsIn_cons, fragmentsIn_cons, hcolor c hec, hs, hc, hf,
      Modifier.style?, Modifier.color?, Modifier.fragment?]
  · simp [stylesIn_cons, colorsIn_cons, fragmentsIn_cons, Modifier.classify_style_name, hs, hc, hf,
      Modifier.style?, Modifier.color?, Modifier.fragment?]
  · simp [stylesIn_cons, colorsIn_cons, fragmentsIn_cons, Modifier.classify_style_name,
      hcolor c hec, hs, hc, hf, Modifier.style?, Modifier.color?, Modifier.fragment?]

theorem toList_line (e : Equation) :
    e.line.toList = ['|'].intercalate ((e.expression :: e.tokens).map String.toList) := by
  rw [line, String.toList_intercalate]
  rfl

theorem phrases_line (h : e.Admissible) :
    ∀ p ∈ (e.expression :: e.tokens).map String.toList, Phrase p := by
  intro p hp
  obtain ⟨t, ht, rfl⟩ := List.mem_map.1 hp
  rcases List.mem_cons.1 ht with rfl | ht
  · exact h.expression
  · exact phrase_of_mem_tokens h ht

/-- An equation's line is one entry of a body. -/
theorem line_spec (h : e.Admissible) : e.line.toList ≠ [] ∧ Tight e.line.toList
    ∧ '\n' ∉ e.line.toList ∧ ¬ dashes <:+: e.line.toList := by
  rw [toList_line]
  exact phrases_join (by simp) (phrases_line h)

theorem parse_line (h : e.Admissible) : Equation.parse e.line.toList = .ok e := by
  have hp := phrases_line h
  have htrim : (pieces (· == '|') e.line.toList).map trim
      = e.expression.toList :: e.tokens.map String.toList := by
    rw [toList_line, pieces_join (by simp) hp, ← List.map_cons]
    exact (List.map_congr_left fun p hp' => (hp p hp').tight.trim_eq).trans (List.map_id' _)
  have hwords : words (e.tokens.map String.toList) = e.tokens := by
    have hne : ∀ p ∈ e.tokens.map String.toList, p ≠ [] :=
      fun p hp' => (hp p (List.mem_cons_of_mem _ hp')).ne_nil
    rw [words, List.filter_eq_self.2 (by simpa using hne), List.map_map]
    simp [Function.comp_def]
  obtain ⟨hs, hc, hf⟩ := dealt_tokens h
  refine parse_eq_ok_iff.2 ⟨_, _, htrim, h.expression.ne_nil, h.expression.clean, by simp, ?_⟩
  rw [hwords, hs, hc, hf]
  exact ⟨rfl, rfl, rfl, fun f hf => (h.fragment f hf).phrase.clean⟩

end Equation

end GraphBlock
