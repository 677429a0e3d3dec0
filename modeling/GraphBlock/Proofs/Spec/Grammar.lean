import GraphBlock.Proofs.Spec.RoundTrip
import Mathlib.Data.Nat.Digits.Defs

/-!
# The grammar of a block

`Grammatical` says which texts are blocks, as one flat condition: where the separator may stand
(`Layout`), what an entry of the settings is (`Gives`) and which settings go together (`WellSet`),
and what a line of the body is (`EquationLine`).  Nothing in it is read in an order or stops at an
error.  The compiler takes exactly these texts (`parse_isOk_iff_grammatical`): it cuts as `Layout`
does (`segments_eq_iff_layout`), takes the settings that are well set
(`parseFields_isOk_iff_wellSet`) and the lines that are equation lines
(`Equation.parse_isOk_iff_equationLine`).
-/

namespace GraphBlock

open Text

section Layout

/-- A text without three dashes in a row is a body.  Any other is cut at the first three dashes,
and what stands behind them has no three dashes in a row. -/
inductive Layout : List Char → List Char → List Char → Prop
  | body {source : List Char} (h : ¬ dashes <:+: source) : Layout source [] source
  | settings {a b : List Char} (first : ¬ dashes <:+: a ++ ['-', '-']) (last : ¬ dashes <:+: b) :
      Layout (a ++ dashes ++ b) a b

/-- The first three dashes cut a text, also where more dashes follow. -/
theorem segments_first (b : List Char) : ∀ {a : List Char}, ¬ dashes <:+: a ++ ['-', '-'] →
    segments (a ++ dashes ++ b) = a :: segments b
  | [], _ => rfl
  | c :: a, h => by
    have hpre : ¬ dashes <+: c :: (a ++ dashes ++ b) := by
      intro hd
      have ha : c :: a ++ ['-', '-'] <+: c :: (a ++ dashes ++ b) := ⟨'-' :: b, by simp [dashes]⟩
      exact h (List.prefix_of_prefix_length_le hd ha (by simp [dashes])).isInfix
    rw [List.cons_append, List.cons_append, segments_cons hpre,
      segments_first b fun hd => h (List.infix_cons_iff.2 (.inr hd))]
    rfl

/-- A text is its only segment, or its first segment ends at the first three dashes. -/
theorem segments_cases (s : List Char) : segments s = [s] ∧ ¬ dashes <:+: s
    ∨ ∃ a b, s = a ++ dashes ++ b ∧ ¬ dashes <:+: a ++ ['-', '-'] := by
  fun_induction segments s with
  | case1 s => exact .inr ⟨[], s, rfl, noDashes_of_length_lt (by simp)⟩
  | case2 c s hc ih =>
    have hpre : ¬ dashes <+: c :: s := by
      rintro ⟨t, ht⟩
      simp only [dashes, List.cons_append, List.nil_append, List.cons.injEq] at ht
      exact hc t ht.1.symm ht.2.symm
    rcases ih with ⟨hs, hd⟩ | ⟨a, b, rfl, ha⟩
    · refine .inl ⟨by rw [hs]; rfl, fun h => ?_⟩
      rcases List.infix_cons_iff.1 h with h | h
      · exact hpre h
      · exact hd h
    · refine .inr ⟨c :: a, b, rfl, fun h => ?_⟩
      rcases List.infix_cons_iff.1 h with h | h
      · exact hpre (h.trans ⟨'-' :: b, by simp [dashes]⟩)
      · exact ha h
  | case3 => exact .inl ⟨rfl, noDashes_of_length_lt (by simp)⟩

theorem segments_eq_iff_layout {source settings body : List Char} :
    (segments source = [body] ∧ settings = [] ∨ segments source = [settings, body])
      ↔ Layout source settings body := by
  constructor
  · rintro (⟨hs, rfl⟩ | hs)
    · rcases segments_cases source with ⟨hw, hd⟩ | ⟨a, b, rfl, ha⟩
      · obtain rfl := List.singleton_inj.1 (hw.symm.trans hs)
        exact .body hd
      · rw [segments_first b ha] at hs
        exact absurd (List.cons.inj hs).2 (segments_ne_nil b)
    · have hlast := not_infix_of_mem_segments (hs ▸ List.mem_cons_of_mem _ List.mem_cons_self)
      rcases segments_cases source with ⟨hw, -⟩ | ⟨a, b, rfl, ha⟩
      · rw [hw] at hs
        simp at hs
      · rw [segments_first b ha] at hs
        obtain ⟨rfl, hb⟩ := List.cons.inj hs
        rcases segments_cases b with ⟨hw, -⟩ | ⟨a', b', rfl, ha'⟩
        · obtain rfl := List.singleton_inj.1 (hw.symm.trans hb)
          exact .settings ha hlast
        · rw [segments_first b' ha'] at hb
          exact absurd (List.cons.inj hb).2 (segments_ne_nil b')
  · rintro (h | ⟨ha, hb⟩)
    · refine .inl ⟨?_, rfl⟩
      exact segments_of_not_infix h
    · exact .inr (by rw [segments_first _ ha, segments_of_not_infix hb])

theorem Layout.unique {source a b a' b' : List Char} (h : Layout source a b)
    (h' : Layout source a' b') : a = a' ∧ b = b' := by
  rcases segments_eq_iff_layout.2 h with ⟨hs, rfl⟩ | hs <;>
    rcases segments_eq_iff_layout.2 h' with ⟨hs', rfl⟩ | hs' <;>
      simpa using hs.symm.trans hs'

end Layout

section Settings

/-- At least one digit, with the number that the digits are in decimal. -/
structure Digits (s : List Char) (n : Nat) : Prop where
  ne_nil : s ≠ []
  digit : ∀ c ∈ s, '0' ≤ c ∧ c ≤ '9'
  value : n = Nat.ofDigits 10 (s.reverse.map fun c => c.toNat - '0'.toNat)

/-- Digits with an optional sign in front, and the number they stand for. -/
inductive Numeral : List Char → Int → Prop
  | plain {s : List Char} {n : Nat} (h : Digits s n) : Numeral s n
  | plus {s : List Char} {n : Nat} (h : Digits s n) : Numeral ('+' :: s) n
  | minus {s : List Char} {n : Nat} (h : Digits s n) : Numeral ('-' :: s) (-n)

theorem isDigit_iff {c : Char} : Decimal.isDigit c = true ↔ '0' ≤ c ∧ c ≤ '9' := by
  simp only [Decimal.isDigit, Bool.and_eq_true, decide_eq_true_eq, Char.le_def,
    UInt32.le_iff_toNat_le]
  rfl

theorem value_eq_ofDigits (s : List Char) :
    Decimal.value s = Nat.ofDigits 10 (s.reverse.map fun c => c.toNat - '0'.toNat) := by
  induction s using List.reverseRecOn with
  | nil => rfl
  | append_singleton s c ih =>
    rw [Decimal.value_append_singleton, ih, List.reverse_append, List.reverse_singleton,
      List.singleton_append, List.map_cons, Nat.ofDigits_cons, Nat.add_comm]
    rfl

theorem toNat?_eq_some_iff {s : List Char} {n : Nat} :
    Decimal.toNat? s = some n ↔ Digits s n := by
  simp only [Decimal.toNat?, value_eq_ofDigits, ne_eq, Option.ite_none_right_eq_some,
    Bool.and_eq_true, decide_eq_true_eq, List.all_eq_true, isDigit_iff, Option.some.injEq]
  constructor
  · rintro ⟨⟨hne, hd⟩, hn⟩
    exact ⟨hne, hd, hn.symm⟩
  · rintro ⟨hne, hd, hn⟩
    exact ⟨⟨hne, hd⟩, hn.symm⟩

theorem toInt?_eq_some_iff {s : List Char} {i : Int} :
    Decimal.toInt? s = some i ↔ Numeral s i := by
  constructor
  · intro h
    unfold Decimal.toInt? at h
    split at h <;> simp only [Option.map_eq_some_iff, Option.bind_eq_bind, Option.pure_def,
      Option.bind_eq_some_iff, Option.some.injEq, ↓existsAndEq, and_true] at h
    · obtain ⟨n, hn, rfl⟩ := h
      exact .minus (toNat?_eq_some_iff.1 hn)
    · obtain ⟨n, hn, rfl⟩ := h
      exact .plus (toNat?_eq_some_iff.1 hn)
    · obtain ⟨n, hn, rfl⟩ := h
      exact .plain (toNat?_eq_some_iff.1 hn)
  · rintro (h | h | h) <;> have hn := toNat?_eq_some_iff.2 h
    · unfold Decimal.toInt?
      split
      · exact absurd (h.digit '-' List.mem_cons_self) (by decide)
      · exact absurd (h.digit '+' List.mem_cons_self) (by decide)
      · rw [hn]
        rfl
    · rw [Decimal.toInt?, hn]
      rfl
    · rw [Decimal.toInt?, hn]
      rfl

theorem Digits.code {s : List Char} {n : Nat} (h : Digits s n) :
    ∀ c ∈ s, 48 ≤ c.toNat ∧ c.toNat ≤ 57 :=
  fun c hc => code_of_isDigit (isDigit_iff.2 (h.digit c hc))

/-- A numeral is digits, perhaps behind one sign. -/
theorem Numeral.exists_digits {s : List Char} {i : Int} (h : Numeral s i) : ∃ a b,
    s = a ++ b ∧ b ≠ [] ∧ (a = [] ∨ a = ['+'] ∨ a = ['-'])
      ∧ ∀ c ∈ b, 48 ≤ c.toNat ∧ c.toNat ≤ 57 := by
  rcases h with h | h | h
  · exact ⟨[], _, rfl, h.ne_nil, .inl rfl, h.code⟩
  · exact ⟨['+'], _, rfl, h.ne_nil, .inr (.inl rfl), h.code⟩
  · exact ⟨['-'], _, rfl, h.ne_nil, .inr (.inr rfl), h.code⟩

theorem Numeral.code {s : List Char} {i : Int} (h : Numeral s i) :
    ∀ c ∈ s, 43 ≤ c.toNat ∧ c.toNat ≤ 57 := by
  obtain ⟨a, b, rfl, -, ha, hb⟩ := h.exists_digits
  intro c hc
  rcases List.mem_append.1 hc with hc | hc
  · rcases ha with rfl | rfl | rfl
    · simp at hc
    · obtain rfl := List.mem_singleton.1 hc
      decide
    · obtain rfl := List.mem_singleton.1 hc
      decide
  · have := hb c hc
    omega

theorem Numeral.ne_nil {s : List Char} {i : Int} (h : Numeral s i) : s ≠ [] := by
  obtain ⟨a, b, rfl, hb, -, -⟩ := h.exists_digits
  simp [hb]

theorem Numeral.tight {s : List Char} {i : Int} (h : Numeral s i) : Tight s :=
  tight_of_forall fun c hc => by
    have := h.code c hc
    exact isBlank_of_visible (by omega) (by omega)

/-- The numbers of 64 bits. -/
def InRange (i : Int) : Prop :=
  -2 ^ 63 ≤ i ∧ i ≤ 2 ^ 63 - 1

theorem readInt64?_eq_some_iff {s : List Char} {i : Int64} :
    readInt64? s = some i ↔ Numeral s i.toInt := by
  rw [← toInt?_eq_some_iff, readInt64?]
  rcases Decimal.toInt? s with _ | j
  · simp
  · simp only [Option.ite_none_right_eq_some, Option.some.injEq]
    constructor
    · rintro ⟨hj, rfl⟩
      exact (Int64.toInt_ofInt_of_le hj.1 (Int.lt_of_le_of_lt hj.2 (by decide))).symm
    · rintro rfl
      exact ⟨⟨i.minValue_le_toInt, i.toInt_le⟩, i.ofInt_toInt⟩

/-- An entry of the settings is the name of a key, an equals sign and a numeral, with any blanks
around the name and the numeral. -/
def Gives (entry : List Char) (given : FieldKey × Int) : Prop :=
  ∃ before after, entry = before ++ '=' :: after ∧ trim before = given.1.name.toList
    ∧ Numeral (trim after) given.2

/-- The key in front of an equals sign has none itself. -/
theorem not_mem_of_trim_eq_name {before : List Char} {k : FieldKey}
    (hk : trim before = k.name.toList) : '=' ∉ before :=
  fun h => (blank_or_mem_trim h).elim (absurd · (by decide)) fun h => (name_spec k).2.1 (hk ▸ h)

theorem parseEntry_eq_ok_iff {entry : List Char} {o : FieldKey × Int64} :
    parseEntry entry = .ok o ↔ Gives entry (o.1, o.2.toInt) := by
  obtain ⟨k, i⟩ := o
  constructor
  · intro h
    unfold parseEntry at h
    split at h
    · cases h
    · rename_i before after hs
      dsimp only at h
      split at h
      · cases h
      · rename_i l hl
        split at h
        · cases h
        · split at h
          · cases h
          · rename_i j hj
            obtain ⟨rfl, rfl⟩ := Prod.mk.inj (Except.ok.inj h)
            refine ⟨before, after, (splitFirst_eq_some hs).1, ?_, readInt64?_eq_some_iff.1 hj⟩
            rw [FieldKey.name_of_ofName? hl, String.toList_ofList]
  · rintro ⟨before, after, rfl, hk, hn⟩
    have hne : trim after ≠ [] := by
      intro he
      rw [he] at hn
      exact absurd (toInt?_eq_some_iff.2 hn) (by simp [Decimal.toInt?, Decimal.toNat?])
    simp only [parseEntry, splitFirst_append _ (not_mem_of_trim_eq_name hk), hk,
      String.ofList_toList, FieldKey.ofName?_name, if_neg hne, readInt64?_eq_some_iff.2 hn]

/-- The last number given for a key, or the key's default. -/
def lastGiven (given : List (FieldKey × Int)) (k : FieldKey) : Int :=
  ((given.filter (·.1 = k)).getLast?.map Prod.snd).getD k.default.toInt

/-- Every entry gives a number of 64 bits to a key, and of the numbers given last the left bound is
below the right bound and the bottom bound below the top bound. -/
def WellSet (settings : List Char) : Prop :=
  ∃ given, List.Forall₂ Gives (entries endsEntry settings) given ∧ (∀ g ∈ given, InRange g.2)
    ∧ lastGiven given .left < lastGiven given .right
    ∧ lastGiven given .bottom < lastGiven given .top

/-- What was read, as numbers. -/
def numbers (os : List (FieldKey × Int64)) : List (FieldKey × Int) :=
  os.map fun o => (o.1, o.2.toInt)

theorem lastGiven_concat (given : List (FieldKey × Int)) (g : FieldKey × Int) (k : FieldKey) :
    lastGiven (given ++ [g]) k = if k = g.1 then g.2 else lastGiven given k := by
  rw [lastGiven, List.filter_append, List.filter_singleton]
  by_cases h : k = g.1
  · simp [h]
  · simp [h, Ne.symm h, lastGiven]

theorem lastGiven_numbers (os : List (FieldKey × Int64)) (k : FieldKey) :
    lastGiven (numbers os) k = (Fields.overridden os k).toInt := by
  induction os using List.reverseRecOn with
  | nil => rfl
  | append_singleton os o ih =>
    have hnumbers : numbers (os ++ [o]) = numbers os ++ [(o.1, o.2.toInt)] := by
      simp [numbers]
    rw [hnumbers, lastGiven_concat, ih, Fields.overridden_concat, Fields.assign]
    split <;> rfl

theorem inRange_iff {i : Int} : InRange i ↔ ∃ j : Int64, j.toInt = i := by
  constructor
  · rintro ⟨hl, hu⟩
    exact ⟨Int64.ofInt i, Int64.toInt_ofInt_of_le hl (Int.lt_of_le_of_lt hu (by decide))⟩
  · rintro ⟨j, rfl⟩
    exact ⟨j.minValue_le_toInt, j.toInt_le⟩

theorem exists_numbers_iff {given : List (FieldKey × Int)} :
    (∃ os, given = numbers os) ↔ ∀ g ∈ given, InRange g.2 := by
  constructor
  · rintro ⟨os, rfl⟩ g hg
    obtain ⟨o, -, rfl⟩ := List.mem_map.1 hg
    exact inRange_iff.2 ⟨o.2, rfl⟩
  · intro h
    induction given with
    | nil => exact ⟨[], rfl⟩
    | cons g given ih =>
      obtain ⟨hg, hgiven⟩ := List.forall_mem_cons.1 h
      obtain ⟨j, hj⟩ := inRange_iff.1 hg
      obtain ⟨os, rfl⟩ := ih hgiven
      exact ⟨(g.1, j) :: os, by simp [numbers, hj]⟩

theorem ofValues_isOk_iff {v : FieldKey → Int64} : (∃ f, Fields.ofValues v = .ok f)
    ↔ (v .left).toInt < (v .right).toInt ∧ (v .bottom).toInt < (v .top).toInt := by
  simp only [← Int64.lt_iff_toInt_lt, Fields.ofValues]
  split
  · split <;> simp [*]
  · simp [*]

/-- The horizontal bounds are refused first. -/
theorem ofValues_eq_error_iff {v : FieldKey → Int64} {d : ParseError} :
    Fields.ofValues v = .error d
      ↔ v .right ≤ v .left ∧ d = .invalidBoundary .left (v .left) .right (v .right)
        ∨ v .left < v .right ∧ v .top ≤ v .bottom
          ∧ d = .invalidBoundary .bottom (v .bottom) .top (v .top) := by
  simp only [← Int64.not_lt, Fields.ofValues]
  split
  · split <;> simp [*, eq_comm]
  · simp [*, eq_comm]

theorem mapM_parseEntry_eq_ok_iff {es : List (List Char)} {os : List (FieldKey × Int64)} :
    es.mapM parseEntry = .ok os ↔ List.Forall₂ Gives es (numbers os) := by
  rw [mapM_eq_ok_iff, numbers, List.forall₂_map_right_iff]
  simp only [parseEntry_eq_ok_iff]

theorem parseFields_isOk_iff_wellSet {settings : List Char} :
    (∃ f, parseFields settings = .ok f) ↔ WellSet settings := by
  have hbounds : ∀ os, (∃ f, Fields.withOverrides os = .ok f)
      ↔ lastGiven (numbers os) .left < lastGiven (numbers os) .right
        ∧ lastGiven (numbers os) .bottom < lastGiven (numbers os) .top := by
    intro os
    simp only [Fields.withOverrides, ofValues_isOk_iff, lastGiven_numbers]
  simp only [parseFields, bind_eq_ok_iff, WellSet, ← exists_numbers_iff]
  constructor
  · rintro ⟨f, os, hos, hf⟩
    exact ⟨numbers os, mapM_parseEntry_eq_ok_iff.1 hos, ⟨os, rfl⟩, (hbounds os).1 ⟨f, hf⟩⟩
  · rintro ⟨_, hos, ⟨os, rfl⟩, hb⟩
    obtain ⟨f, hf⟩ := (hbounds os).2 hb
    exact ⟨f, os, mapM_parseEntry_eq_ok_iff.2 hos, hf⟩

theorem parseFields_nil : parseFields [] = .ok Fields.default := by
  rw [parseFields, entries_nil]
  exact Fields.withOverrides_nil

end Settings

section Lines

/-- Two texts are the same but for the case of ASCII letters. -/
def SameWord (s t : List Char) : Prop :=
  s.map Char.toLower = t.map Char.toLower

def IsStyle (token : List Char) : Prop :=
  ∃ s : Style, SameWord token s.name.toList

/-- The name of a color, or a number sign and at least one ASCII letter or digit. -/
def IsColor (token : List Char) : Prop :=
  (∃ c : NamedColor, SameWord token c.name.toList)
    ∨ ∃ s, token = '#' :: s ∧ s ≠ [] ∧ ∀ c ∈ s, c.isAlphanum = true

/-- What stands behind the first bar of a line, cut at the bars. -/
def modifiers (line : List Char) : List (List Char) :=
  entries (· == '|') (line.dropWhile (· != '|'))

/-- A line has an expression in front of its first bar, no quote and no backtick anywhere, and
behind its first bar neither two styles nor two colors. -/
structure EquationLine (line : List Char) : Prop where
  expression : ∃ c ∈ line.takeWhile (· != '|'), isBlank c = false
  clean : '\x22' ∉ line ∧ '\x27' ∉ line ∧ '\x60' ∉ line
  oneStyle : (modifiers line).Pairwise fun t u => ¬ (IsStyle t ∧ IsStyle u)
  oneColor : (modifiers line).Pairwise fun t u => ¬ (IsColor t ∧ IsColor u)

theorem toNat_toUpper (c : Char) :
    c.toUpper.toNat = if 97 ≤ c.toNat ∧ c.toNat ≤ 122 then c.toNat - 32 else c.toNat := by
  split_ifs with h
  · have hlower : 'a'.val ≤ c.val ∧ c.val ≤ 'z'.val := h
    have hval : c.toUpper.val = c.val + ('A'.val - 'a'.val) := by
      change (dite ('a'.val ≤ c.val ∧ c.val ≤ 'z'.val) _ _ : Char).val = _
      rw [dif_pos hlower]
    have hdiff : ('A'.val - 'a'.val).toNat = 2 ^ 32 - 32 := rfl
    rw [Char.toNat] at h ⊢
    rw [hval, UInt32.toNat_add, hdiff, Char.toNat]
    omega
  · have hlower : ¬('a'.val ≤ c.val ∧ c.val ≤ 'z'.val) := h
    exact congrArg Char.toNat (dif_neg hlower)

theorem toNat_toLower (c : Char) :
    c.toLower.toNat = if 65 ≤ c.toNat ∧ c.toNat ≤ 90 then c.toNat + 32 else c.toNat := by
  split_ifs with h
  · have hval : c.toLower.val = c.val + ('a'.val - 'A'.val) := congrArg Char.val (dif_pos h)
    have hdiff : ('a'.val - 'A'.val).toNat = 32 := rfl
    rw [Char.toNat] at h ⊢
    rw [hval, UInt32.toNat_add, hdiff, Char.toNat]
    omega
  · exact congrArg Char.toNat (dif_neg h)

theorem toUpper_eq_iff {c u : Char} (hu : 65 ≤ u.toNat ∧ u.toNat ≤ 90) :
    c.toUpper = u ↔ c.toLower = u.toLower := by
  rw [← Char.toNat_inj, ← Char.toNat_inj, toNat_toUpper, toNat_toLower, toNat_toLower, if_pos hu]
  split <;> split <;> omega

theorem matchesName_iff {name token : String}
    (hn : ∀ u ∈ name.toList, 65 ≤ u.toNat ∧ u.toNat ≤ 90) :
    matchesName name token = true ↔ SameWord token.toList name.toList := by
  rw [matchesName, beq_iff_eq, SameWord]
  generalize token.toList = s, name.toList = t at hn
  induction s generalizing t with
  | nil => cases t <;> simp
  | cons c s ih =>
    rcases t with _ | ⟨u, t⟩
    · simp
    · simp only [List.map_cons, List.cons.injEq, toUpper_eq_iff (hn u List.mem_cons_self),
        ih t fun v hv => hn v (List.mem_cons_of_mem _ hv)]

theorem style_name_upper (s : Style) : ∀ u ∈ s.name.toList, 65 ≤ u.toNat ∧ u.toNat ≤ 90 := by
  cases s <;> exact List.all_iff_forall_prop.1 (by decide)

theorem color_name_upper (c : NamedColor) : ∀ u ∈ c.name.toList, 65 ≤ u.toNat ∧ u.toNat ≤ 90 := by
  cases c <;> exact List.all_iff_forall_prop.1 (by decide)

theorem isHex_iff {t : List Char} : Color.isHex t = true
    ↔ ∃ s, t = '#' :: s ∧ s ≠ [] ∧ ∀ c ∈ s, c.isAlphanum = true := by
  unfold Color.isHex
  split
  · simp
  · rename_i h
    simp only [Bool.false_eq_true, false_iff]
    rintro ⟨s, rfl, -⟩
    exact h s rfl

/-- Tokens that are the same but for case are told apart by no name. -/
theorem matchesName_congr {t u : String} (h : t.toList.map Char.toUpper = u.toList.map Char.toUpper)
    (name : String) : matchesName name t = matchesName name u := by
  rw [matchesName, matchesName, h]

theorem classify_of_matches_color {t : String} {c : NamedColor}
    (h : matchesName c.name t = true) : Modifier.classify t = .color (.named c) := by
  have hu : t.toList.map Char.toUpper = c.name.toList.map Char.toUpper := by
    rw [beq_iff_eq.1 h]
    cases c <;> decide
  have hc := Modifier.classify_named c
  simp only [Modifier.classify, Style.ofToken?, NamedColor.ofToken?] at hc ⊢
  simp only [matchesName_congr hu]
  cases c <;> rfl

theorem classify_of_matches_style {t : String} {s : Style} (h : matchesName s.name t = true) :
    Modifier.classify t = .style s := by
  have hu : t.toList.map Char.toUpper = s.name.toList.map Char.toUpper := by
    rw [beq_iff_eq.1 h]
    cases s <;> decide
  have hs := Modifier.classify_style_name s
  simp only [Modifier.classify, Style.ofToken?] at hs ⊢
  simp only [matchesName_congr hu]
  cases s <;> rfl

/-- A token is a style exactly if it is the style's name but for case. -/
theorem classify_eq_style_iff {t : String} {s : Style} :
    Modifier.classify t = .style s ↔ SameWord t.toList s.name.toList := by
  rw [← matchesName_iff (style_name_upper s)]
  refine ⟨fun h => ?_, classify_of_matches_style⟩
  unfold Modifier.classify at h
  split at h
  · rename_i r hr
    obtain rfl := Modifier.style.inj h
    have hm := List.find?_some hr
    exact hm
  · split at h
    · cases h
    · split at h <;> cases h

/-- A token is a named color exactly if it is the color's name but for case. -/
theorem classify_eq_named_iff {t : String} {c : NamedColor} :
    Modifier.classify t = .color (.named c) ↔ SameWord t.toList c.name.toList := by
  rw [← matchesName_iff (color_name_upper c)]
  refine ⟨fun h => ?_, classify_of_matches_color⟩
  unfold Modifier.classify at h
  split at h
  · cases h
  · split at h
    · rename_i d hd
      obtain rfl := Color.named.inj (Modifier.color.inj h)
      have hm := List.find?_some hd
      exact hm
    · split at h <;> cases h

theorem style?_isSome_iff {t : String} :
    (Modifier.classify t).style?.isSome = true ↔ IsStyle t.toList := by
  constructor
  · intro h
    rcases hc : Modifier.classify t with s | c | f <;> rw [hc] at h
    · exact ⟨s, classify_eq_style_iff.1 hc⟩
    · cases h
    · cases h
  · rintro ⟨s, hs⟩
    rw [classify_eq_style_iff.2 hs]
    rfl

theorem color?_isSome_iff {t : String} :
    (Modifier.classify t).color?.isSome = true ↔ IsColor t.toList := by
  rw [IsColor, ← isHex_iff]
  constructor
  · intro h
    rcases hc : Modifier.classify t with s | c | f <;> rw [hc] at h
    · cases h
    · rcases c with c | u
      · exact .inl ⟨c, classify_eq_named_iff.1 hc⟩
      · obtain ⟨rfl, hex⟩ := (Modifier.classify_spec t).2 u hc
        exact .inr hex
    · cases h
  · rintro (⟨c, hc⟩ | hex)
    · rw [classify_eq_named_iff.2 hc]
      rfl
    · rw [Modifier.classify_hex hex]
      rfl

/-- A reader takes at most one of a row exactly if it takes no two of them. -/
theorem length_filterMap_le_one_iff {α β : Type} {f : α → Option β} {l : List α} :
    (l.filterMap f).length ≤ 1
      ↔ l.Pairwise fun a b => ¬ ((f a).isSome = true ∧ (f b).isSome = true) := by
  have hpair : (l.filterMap f).length ≤ 1 ↔ (l.filterMap f).Pairwise fun _ _ => False := by
    rcases l.filterMap f with _ | ⟨a, _ | ⟨b, l⟩⟩
    · simp
    · simp
    · exact ⟨fun h => by simp at h,
        fun h => ((List.pairwise_cons.1 h).1 b List.mem_cons_self).elim⟩
  rw [hpair, List.pairwise_filterMap]
  simp only [Option.isSome_iff_exists, not_and, not_exists, forall_exists_index, imp_false]

theorem exists_toList_eq_iff {α : Type} {l : List α} :
    (∃ o : Option α, o.toList = l) ↔ l.length ≤ 1 := by
  rcases l with _ | ⟨a, _ | ⟨b, l⟩⟩
  · exact ⟨fun _ => by simp, fun _ => ⟨none, rfl⟩⟩
  · exact ⟨fun _ => by simp, fun _ => ⟨some a, rfl⟩⟩
  · exact ⟨fun ⟨o, ho⟩ => by cases o <;> simp at ho, fun h => by simp at h⟩

/-- What is an uppercase name but for case can stand between two bars. -/
theorem phrase_of_sameWord {t n : List Char} (hn : ∀ u ∈ n, 65 ≤ u.toNat ∧ u.toNat ≤ 90)
    (hne : n ≠ []) (h : SameWord t n) : Phrase t := by
  have hnil : t ≠ [] := by
    rintro rfl
    exact hne (List.map_eq_nil_iff.1 h.symm)
  refine phrase_of_word hnil fun c hc => .inr (isAlphanum_iff_code.2 ?_)
  have hl : c.toLower ∈ n.map Char.toLower := by
    rw [← h]
    exact List.mem_map_of_mem hc
  obtain ⟨u, hu, hcu⟩ := List.mem_map.1 hl
  have hcode := hn u hu
  rw [← (toUpper_eq_iff hcode).2 hcu.symm, toNat_toUpper] at hcode
  split at hcode <;> omega

theorem phrase_of_style {t : List Char} {s : Style} : SameWord t s.name.toList → Phrase t :=
  phrase_of_sameWord (style_name_upper s) (phrase_style_name s).ne_nil

theorem phrase_of_named {t : List Char} {c : NamedColor} : SameWord t c.name.toList → Phrase t :=
  phrase_of_sameWord (color_name_upper c) (phrase_named c).ne_nil

theorem clean_of_isStyle {t : List Char} : IsStyle t → Clean t
  | ⟨_, h⟩ => (phrase_of_style h).clean

theorem clean_of_isColor {t : List Char} : IsColor t → Clean t
  | .inl ⟨_, h⟩ => (phrase_of_named h).clean
  | .inr h => (phrase_of_isHex (isHex_iff.2 h)).clean

/-- Only a fragment can hold a quote or a backtick. -/
theorem clean_fragmentsIn_iff {ts : List String} :
    (∀ f ∈ fragmentsIn ts, Clean f.toList) ↔ ∀ t ∈ ts, Clean t.toList := by
  constructor
  · intro h t ht
    rcases hc : Modifier.classify t with s | c | f
    · exact clean_of_isStyle (style?_isSome_iff.1 (by rw [hc]; rfl))
    · exact clean_of_isColor (color?_isSome_iff.1 (by rw [hc]; rfl))
    · obtain rfl := (Modifier.classify_spec t).1 f hc
      exact h f (mem_fragmentsIn.2 ⟨ht, hc⟩)
  · exact fun h f hf => h f (mem_fragmentsIn.1 hf).1

theorem clean_iff_not_mem {s : List Char} :
    Clean s ↔ '\x22' ∉ s ∧ '\x27' ∉ s ∧ '\x60' ∉ s := by
  simp only [Clean, bannedCharacters, List.mem_cons, List.not_mem_nil, or_false]
  constructor
  · intro h
    exact ⟨fun hs => h _ hs (.inl rfl), fun hs => h _ hs (.inr (.inl rfl)),
      fun hs => h _ hs (.inr (.inr rfl))⟩
  · rintro ⟨h₁, h₂, h₃⟩ c hc (rfl | rfl | rfl)
    · exact h₁ hc
    · exact h₂ hc
    · exact h₃ hc

theorem isBlank_of_banned : ∀ c ∈ bannedCharacters, isBlank c = false :=
  List.all_iff_forall_prop.1 (by decide)

/-- A banned character that no cut takes away stands in an entry. -/
theorem clean_of_entries {p : Char → Bool} {s : List Char}
    (hp : ∀ c ∈ bannedCharacters, p c = false) (h : ∀ q ∈ entries p s, Clean q) : Clean s := by
  intro c hc hb
  obtain ⟨q, hq, hcq⟩ := exists_mem_entries (hp c hb) (isBlank_of_banned c hb) hc
  exact h q hq c hcq hb

/-- Bars and blanks are no quotes, so cutting and trimming lose none. -/
theorem clean_iff_pieces {line : List Char} :
    Clean line ↔ ∀ q ∈ pieces (· == '|') line, Clean (trim q) := by
  constructor
  · exact fun h q hq c hc => h c (((trim_isInfix q).trans (infix_of_mem_pieces hq)).subset hc)
  · intro h
    have hbar : ∀ c ∈ bannedCharacters, (c == '|') = false :=
      List.all_iff_forall_prop.1 (by decide)
    refine clean_of_entries hbar fun q hq => ?_
    obtain ⟨r, hr, rfl⟩ := List.mem_map.1 (List.mem_filter.1 hq).1
    exact h r hr

theorem clean_words_iff {ts : List (List Char)} :
    (∀ w ∈ Equation.words ts, Clean w.toList) ↔ ∀ t ∈ ts, Clean t := by
  simp only [Equation.words, List.forall_mem_map, String.toList_ofList, List.mem_filter,
    decide_eq_true_eq]
  refine ⟨fun h t ht => ?_, fun h t ht => h t ht.1⟩
  by_cases hne : t = []
  · simp [hne, Clean]
  · exact h t ⟨ht, hne⟩

theorem exists_style_iff {ts : List (List Char)} :
    (∃ o : Option Style, o.toList = stylesIn (ts.map String.ofList))
      ↔ ts.Pairwise fun t u => ¬ (IsStyle t ∧ IsStyle u) := by
  rw [exists_toList_eq_iff, stylesIn, length_filterMap_le_one_iff, List.pairwise_map]
  simp only [style?_isSome_iff, String.toList_ofList]

theorem exists_color_iff {ts : List (List Char)} :
    (∃ o : Option Color, o.toList = colorsIn (ts.map String.ofList))
      ↔ ts.Pairwise fun t u => ¬ (IsColor t ∧ IsColor u) := by
  rw [exists_toList_eq_iff, colorsIn, length_filterMap_le_one_iff, List.pairwise_map]
  simp only [color?_isSome_iff, String.toList_ofList]

/-- A line is read as the text in front of its first bar and the modifiers behind it. -/
theorem Equation.exists_pieces_eq (line : List Char) : ∃ ts,
    (pieces (· == '|') line).map trim = trim (line.takeWhile (· != '|')) :: ts
      ∧ words ts = (modifiers line).map String.ofList
      ∧ (Clean line ↔ Clean (trim (line.takeWhile (· != '|'))) ∧ ∀ t ∈ ts, Clean t) := by
  obtain ⟨qs, hcut, hmod⟩ := pieces_eq_takeWhile_cons (· == '|') line
  refine ⟨qs.map trim, by rw [hcut]; rfl, by rw [words, ← hmod]; rfl, ?_⟩
  rw [clean_iff_pieces, hcut, List.forall_mem_cons, List.forall_mem_map]
  rfl

theorem Equation.parse_isOk_iff_equationLine {line : List Char} :
    (∃ e, Equation.parse line = .ok e) ↔ EquationLine line := by
  obtain ⟨ts, hcut, hwords, hclean⟩ := exists_pieces_eq line
  rw [← clean_words_iff, ← clean_fragmentsIn_iff, hwords] at hclean
  simp only [parse_eq_ok_iff, hcut, hwords, List.cons.injEq, ↓existsAndEq, true_and]
  constructor
  · rintro ⟨e, hne, hx, -, hs, hc, -, hf⟩
    exact ⟨trim_ne_nil_iff.1 hne, clean_iff_not_mem.1 (hclean.2 ⟨hx, hf⟩),
      exists_style_iff.1 ⟨_, hs⟩, exists_color_iff.1 ⟨_, hc⟩⟩
  · rintro ⟨hne, hq, hs, hc⟩
    obtain ⟨hx, hf⟩ := hclean.1 (clean_iff_not_mem.2 hq)
    obtain ⟨style, hs⟩ := exists_style_iff.2 hs
    obtain ⟨color, hc⟩ := exists_color_iff.2 hc
    exact ⟨⟨_, style, color, _⟩, trim_ne_nil_iff.2 hne, hx, rfl, hs, hc, rfl, hf⟩

theorem parseBody_isOk_iff_equationLines {body : List Char} :
    (∃ es, parseBody body = .ok es) ↔ ∀ line ∈ entries (· == '\n') body, EquationLine line := by
  simp only [parseBody, mapM_eq_ok_iff, ← Equation.parse_isOk_iff_equationLine]
  exact exists_forall₂_iff

end Lines

/-- A text that has at most one separator, settings that are well set, and equation lines only. -/
def Grammatical (source : List Char) : Prop :=
  ∃ settings body, Layout source settings body ∧ WellSet settings
    ∧ ∀ line ∈ entries (· == '\n') body, EquationLine line

/-- A block is compiled by its settings, which may be left out, and then by its body. -/
theorem Spec.parse_of_layout {source : String} {settings body : List Char}
    (h : Layout source.toList settings body) : Spec.parse source = parseFields settings >>=
      fun f => (parseBody body).map fun es => ofContent es f := by
  have hbody : ∀ f : Fields, (do return ofContent (← parseBody body) f)
      = (parseBody body).map fun es => ofContent es f := by
    intro f
    rcases parseBody body with d | es <;> rfl
  rw [Spec.parse]
  rcases segments_eq_iff_layout.2 h with ⟨hs, rfl⟩ | hs
  · rw [hs, parseFields_nil]
    exact hbody Fields.default
  · rw [hs]
    simp only [hbody]

/-- The compiler takes a text if and only if it is grammatical. -/
theorem Spec.parse_isOk_iff_grammatical (source : String) :
    (∃ s, Spec.parse source = .ok s) ↔ Grammatical source.toList := by
  simp only [Grammatical, ← segments_eq_iff_layout, ← parseFields_isOk_iff_wellSet,
    ← parseBody_isOk_iff_equationLines, Spec.parse_eq_ok_iff]
  constructor
  · rintro ⟨s, body, hb, ⟨hs, -⟩ | ⟨settings, hs, hf⟩⟩
    · exact ⟨[], body, .inl ⟨hs, rfl⟩, ⟨_, parseFields_nil⟩, _, hb⟩
    · exact ⟨settings, body, .inr hs, ⟨_, hf⟩, _, hb⟩
  · rintro ⟨settings, body, ⟨hs, rfl⟩ | hs, ⟨f, hf⟩, es, hb⟩
    · exact ⟨ofContent es Fields.default, body, hb, .inl ⟨hs, rfl⟩⟩
    · exact ⟨ofContent es f, body, hb, .inr ⟨settings, hs, hf⟩⟩

end GraphBlock
