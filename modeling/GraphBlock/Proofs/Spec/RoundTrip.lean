import GraphBlock.Proofs.Spec.Line

/-!
# Writing a spec and reading it again

A spec is written with all its settings on one line, so each entry of the settings is a key, an
equals sign and a number, and each line of the body is the line of an equation.  Nothing in it is
cut elsewhere (`segments_toSource`), so the text compiles to the spec it was written from
(`parse_toSource_of_admissible`), and what compiles is admissible (`admissible_of_mem_equations`).
-/

namespace GraphBlock

open Text

section Settings

/-- One setting as a spec is written. -/
def settingText (k : FieldKey) (i : Int64) : List Char :=
  k.name.toList ++ '=' :: Decimal.ofInt i.toInt

theorem splitFirst_append {c : Char} (b : List Char) : ∀ {a : List Char}, c ∉ a →
    splitFirst c (a ++ c :: b) = some (a, b)
  | [], _ => by simp [splitFirst]
  | d :: a, h => by
    simp only [List.mem_cons, not_or] at h
    simp [splitFirst, Ne.symm h.1, splitFirst_append b h.2]

theorem readInt64?_ofInt (i : Int64) : readInt64? (Decimal.ofInt i.toInt) = some i := by
  simp only [readInt64?, Decimal.toInt?_ofInt, i.minValue_le_toInt, i.toInt_le, and_self, if_true,
    Int64.ofInt_toInt]

theorem code_of_isDigit {c : Char} (h : Decimal.isDigit c = true) :
    48 ≤ c.toNat ∧ c.toNat ≤ 57 := by
  simpa [Decimal.isDigit] using h

/-- A number is a row of digits, perhaps behind one dash. -/
theorem ofInt_spec (i : Int) : ∃ a b, Decimal.ofInt i = a ++ b ∧ b ≠ []
    ∧ (a = [] ∨ a = ['-']) ∧ ∀ c ∈ b, Decimal.isDigit c = true := by
  rcases i with n | n
  · exact ⟨[], _, rfl, Decimal.ofNat_ne_nil n, .inl rfl, Decimal.isDigit_of_mem_ofNat n⟩
  · exact ⟨['-'], _, rfl, Decimal.ofNat_ne_nil _, .inr rfl, Decimal.isDigit_of_mem_ofNat _⟩

theorem name_spec (k : FieldKey) : k.name.toList ≠ [] ∧ '=' ∉ k.name.toList
    ∧ ∀ c ∈ k.name.toList, 97 ≤ c.toNat ∧ c.toNat ≤ 122 := by
  cases k <;> exact ⟨by decide, by decide, List.all_iff_forall_prop.1 (by decide)⟩

theorem ofInt_visible (i : Int) : ∀ c ∈ Decimal.ofInt i, 45 ≤ c.toNat ∧ c.toNat ≤ 57 := by
  obtain ⟨a, b, he, -, ha, hb⟩ := ofInt_spec i
  intro c hc
  rw [he] at hc
  rcases List.mem_append.1 hc with hc | hc
  · rcases ha with rfl | rfl
    · simp at hc
    · obtain rfl := List.mem_singleton.1 hc
      decide
  · have := code_of_isDigit (hb c hc)
    omega

theorem settingText_visible (k : FieldKey) (i : Int64) :
    ∀ c ∈ settingText k i, 45 ≤ c.toNat ∧ c.toNat ≤ 126 ∧ c ≠ ';' := by
  intro c hc
  have hsemi : (';' : Char).toNat = 59 := rfl
  rcases List.mem_append.1 hc with hc | hc
  · have := (name_spec k).2.2 c hc
    exact ⟨by omega, by omega, by rintro rfl; omega⟩
  · rcases List.mem_cons.1 hc with rfl | hc
    · decide
    · have := ofInt_visible _ c hc
      exact ⟨by omega, by omega, by rintro rfl; omega⟩

theorem settingText_noDashes (k : FieldKey) (i : Int64) : ¬ dashes <:+: settingText k i := by
  obtain ⟨a, b, he, -, ha, hb⟩ := ofInt_spec i.toInt
  have hname : '-' ∉ k.name.toList := by
    cases k <;> decide
  have hdigits : '-' ∉ b := fun h => absurd (hb _ h) (by decide)
  intro h
  have hcount := h.sublist.count_le '-'
  rw [settingText, he] at hcount
  rcases ha with rfl | rfl <;>
    simp [dashes, List.count_eq_zero_of_not_mem hname, List.count_eq_zero_of_not_mem hdigits]
      at hcount

theorem entries_settingText (k : FieldKey) (i : Int64) :
    entries endsEntry (settingText k i) = [settingText k i] := by
  have hv := settingText_visible k i
  refine entries_of_forall (by simp [settingText]) (tight_of_forall fun c hc => ?_) fun c hc => ?_
  · exact isBlank_of_visible (by have := hv c hc; omega) (hv c hc).2.1
  · have hn : c ≠ '\n' := by
      rintro rfl
      exact absurd (hv _ hc).1 (by decide)
    simp [endsEntry, (hv c hc).2.2, hn]

theorem parseEntry_settingText (k : FieldKey) (i : Int64) :
    parseEntry (settingText k i) = .ok (k, i) := by
  obtain ⟨a, b, he, hb, -, -⟩ := ofInt_spec i.toInt
  have hne : Decimal.ofInt i.toInt ≠ [] := by
    rw [he]
    simp [hb]
  have hname : trim k.name.toList = k.name.toList := by
    cases k <;> decide
  have hvalue : trim (Decimal.ofInt i.toInt) = Decimal.ofInt i.toInt := by
    refine (tight_of_forall fun c hc => ?_).trim_eq
    have := ofInt_visible _ c hc
    exact isBlank_of_visible (by omega) (by omega)
  simp [parseEntry, settingText, splitFirst_append _ (name_spec k).2.1, hname, hvalue,
    FieldKey.ofName?_name, hne, readInt64?_ofInt]

/-- Entries that are written with a semicolon and a blank between them. -/
def settingsText (v : FieldKey → Int64) (ks : List FieldKey) : List Char :=
  [';', ' '].intercalate (ks.map fun k => settingText k (v k)) ++ ['\n']

theorem settingsText_cons (v : FieldKey → Int64) (k l : FieldKey) (ks : List FieldKey) :
    settingsText v (k :: l :: ks)
      = settingText k (v k) ++ ';' :: ' ' :: settingsText v (l :: ks) := by
  simp [settingsText]

theorem entries_settingsText (v : FieldKey → Int64) : ∀ ks : List FieldKey,
    entries endsEntry (settingsText v ks) = ks.map fun k => settingText k (v k)
  | [] => by
    simpa [settingsText] using entries_append_cons (p := endsEntry) (c := '\n') rfl [] []
  | [k] => by
    simp [settingsText, entries_append_cons (p := endsEntry) (c := '\n') rfl, entries_settingText]
  | k :: l :: ks => by
    rw [settingsText_cons, entries_append_cons rfl, entries_settingText, entries_cons_blank rfl,
      entries_settingsText v (l :: ks)]
    rfl

theorem settingsText_noDashes (v : FieldKey → Int64) : ∀ ks : List FieldKey,
    ¬ dashes <:+: settingsText v ks
  | [] => noDashes_of_length_lt (by simp [settingsText])
  | [k] => by
    simpa [settingsText] using not_infix_append_cons (c := '\n') (b := []) (by decide)
      (noDashes_of_length_lt (by simp)) (settingText_noDashes k (v k))
  | k :: l :: ks => by
    rw [settingsText_cons]
    refine not_infix_append_cons (by decide) ?_ (settingText_noDashes k (v k))
    exact not_infix_append_cons (a := []) (by decide) (settingsText_noDashes v (l :: ks))
      (noDashes_of_length_lt (by simp))

theorem overridden_all (v : FieldKey → Int64) :
    Fields.overridden (FieldKey.all.map fun k => (k, v k)) = v := by
  funext k
  cases k <;> rfl

theorem parseFields_settingsText (f : Fields) :
    parseFields (settingsText f.get FieldKey.all) = .ok f := by
  have hm : (FieldKey.all.map fun k => settingText k (f.get k)).mapM parseEntry
      = .ok (FieldKey.all.map fun k => (k, f.get k)) := by
    rw [mapM_eq_ok_iff, List.forall₂_map_left_iff, List.forall₂_map_right_iff, List.forall₂_same]
    exact fun k _ => parseEntry_settingText k (f.get k)
  rw [parseFields, entries_settingsText, hm]
  change Fields.withOverrides (FieldKey.all.map fun k => (k, f.get k)) = _
  rw [Fields.withOverrides, overridden_all, Fields.ofValues_get]

end Settings

section Body

/-- The lines of a body, each behind the line break of the one before. -/
def bodyText (es : List Equation) : List Char :=
  '\n' :: es.flatMap fun e => e.line.toList ++ ['\n']

theorem bodyText_cons (e : Equation) (es : List Equation) :
    bodyText (e :: es) = '\n' :: (e.line.toList ++ bodyText es) := by
  simp [bodyText]

theorem entries_bodyText : ∀ {es : List Equation}, (∀ e ∈ es, e.Admissible) →
    entries (· == '\n') (bodyText es) = es.map fun e => e.line.toList
  | [], _ => entries_cons_blank rfl []
  | e :: es, h => by
    obtain ⟨hne, ht, hb, -⟩ := Equation.line_spec (h e List.mem_cons_self)
    have hline : entries (· == '\n') e.line.toList = [e.line.toList] :=
      entries_of_forall hne ht fun c hc => by
        simp only [beq_eq_false_iff_ne]
        rintro rfl
        exact hb hc
    have ih := entries_bodyText fun d hd => h d (List.mem_cons_of_mem _ hd)
    rw [bodyText, entries_cons_blank rfl] at ih
    rw [bodyText_cons, entries_cons_blank rfl, bodyText, entries_append_cons (by simp), hline, ih]
    rfl

theorem bodyText_noDashes : ∀ {es : List Equation}, (∀ e ∈ es, e.Admissible) →
    ¬ dashes <:+: bodyText es
  | [], _ => noDashes_of_length_lt (by simp [bodyText])
  | e :: es, h => by
    have ih := bodyText_noDashes fun d hd => h d (List.mem_cons_of_mem _ hd)
    have hrest : ¬ dashes <:+: es.flatMap fun e => e.line.toList ++ ['\n'] :=
      fun hd => ih (hd.trans (List.suffix_cons _ _).isInfix)
    obtain ⟨-, -, -, hd⟩ := Equation.line_spec (h e List.mem_cons_self)
    rw [bodyText_cons]
    exact not_infix_append_cons (a := []) (by decide) (not_infix_append_cons (by decide) hrest hd)
      (noDashes_of_length_lt (by simp))

theorem parseBody_bodyText {es : List Equation} (h : ∀ e ∈ es, e.Admissible) :
    parseBody (bodyText es) = .ok es := by
  rw [parseBody, entries_bodyText h, mapM_eq_ok_iff, List.forall₂_map_left_iff, List.forall₂_same]
  exact fun e he => Equation.parse_line (h e he)

theorem admissible_of_parseBody {body : List Char} {es : List Equation}
    (hd : ¬ dashes <:+: body) (h : parseBody body = .ok es) : ∀ e ∈ es, e.Admissible := by
  intro e he
  obtain ⟨line, hline, hparse⟩ := exists_of_mem_mapM h he
  obtain ⟨-, -, hinfix, hb⟩ := mem_entries hline
  refine Equation.admissible_of_parse (fun hn => ?_) (fun h => hd (h.trans hinfix)) hparse
  simpa using hb '\n' hn

end Body

namespace Spec

theorem toList_toSource (s : Spec) :
    s.toSource.toList
      = settingsText s.fields.get FieldKey.all ++ dashes ++ bodyText s.equations := by
  have hnumber : ∀ k : FieldKey, (k.name ++ "=" ++ ParseError.number (s.fields.get k)).toList
      = settingText k (s.fields.get k) := by
    intro k
    simp [settingText, ParseError.number]
  simp [toSource, settingsLine, separator, String.toList_intercalate, settingsText, bodyText,
    dashes, Function.comp_def, List.flatMap_map, hnumber]

theorem segments_toSource {s : Spec} (h : ∀ e ∈ s.equations, e.Admissible) :
    segments s.toSource.toList
      = [settingsText s.fields.get FieldKey.all, bodyText s.equations] := by
  rw [toList_toSource, segments_append _ (settingsText_noDashes _ _) (by simp [settingsText]),
    segments_of_not_infix (bodyText_noDashes h)]

/-- A block compiles if its settings and its body do, and the settings may be missing. -/
theorem parse_eq_ok_iff {source : String} {s : Spec} : Spec.parse source = .ok s ↔
    ∃ body, parseBody body = .ok s.equations ∧
      (segments source.toList = [body] ∧ s.fields = Fields.default
        ∨ ∃ settings, segments source.toList = [settings, body]
          ∧ parseFields settings = .ok s.fields) := by
  have hmk : ∀ {es : List Equation} {f : Fields},
      ofContent es f = s ↔ es = s.equations ∧ f = s.fields :=
    ⟨fun h => h ▸ ⟨rfl, rfl⟩, fun h => ext_content h.1 h.2⟩
  unfold Spec.parse
  rcases segments source.toList with _ | ⟨x, _ | ⟨y, _ | ⟨z, rest⟩⟩⟩
  · simp
  · simp only [bind_eq_ok_iff, pure, Except.pure, Except.ok.injEq, hmk]
    constructor
    · rintro ⟨es, hes, rfl, hf⟩
      exact ⟨x, hes, .inl ⟨rfl, hf.symm⟩⟩
    · rintro ⟨body, hes, ⟨hx, hf⟩ | ⟨settings, hx, -⟩⟩
      · obtain rfl := List.singleton_inj.1 hx
        exact ⟨_, hes, rfl, hf.symm⟩
      · simp at hx
  · simp only [bind_eq_ok_iff, pure, Except.pure, Except.ok.injEq, hmk]
    constructor
    · rintro ⟨f, hf, es, hes, rfl, rfl⟩
      exact ⟨y, hes, .inr ⟨x, rfl, hf⟩⟩
    · rintro ⟨body, hes, ⟨hx, -⟩ | ⟨settings, hx, hf⟩⟩
      · simp at hx
      · simp only [List.cons.injEq, and_true] at hx
        obtain ⟨rfl, rfl⟩ := hx
        exact ⟨_, hf, _, hes, rfl, rfl⟩
  · simp

theorem admissible_of_mem_equations {source : String} {s : Spec} (h : Spec.parse source = .ok s) :
    ∀ e ∈ s.equations, e.Admissible := by
  obtain ⟨body, hbody, hseg⟩ := parse_eq_ok_iff.1 h
  have hmem : body ∈ segments source.toList := by
    rcases hseg with ⟨hs, -⟩ | ⟨settings, hs, -⟩ <;> simp [hs]
  exact admissible_of_parseBody (not_infix_of_mem_segments hmem) hbody

theorem parse_toSource_of_admissible {s : Spec} (h : ∀ e ∈ s.equations, e.Admissible) :
    Spec.parse s.toSource = .ok s :=
  parse_eq_ok_iff.2 ⟨_, parseBody_bodyText h,
    .inr ⟨_, segments_toSource h, parseFields_settingsText s.fields⟩⟩

/-- What compiles, written with all its settings and every equation in its plain form, compiles to
the same spec, and its fingerprint is that of its content. -/
theorem parse_toSource {source : String} {s : Spec} (h : Spec.parse source = .ok s) :
    Spec.parse s.toSource = .ok s ∧ s.fingerprint = fingerprintOf s.equations s.fields :=
  ⟨parse_toSource_of_admissible (admissible_of_mem_equations h), s.fingerprint_eq⟩

/-- Carriage returns, semicolons, comparison signs, braces and dashes in equations survive, and so
does the smallest setting. -/
theorem parse_toSource_mixed : ∃ s : Spec,
    Spec.parse ("left=-3 ; width=-9223372036854775808\n---\r\n y = x;1 | x>0 | #Ff0 |dotted|"
        ++ " a\x7d\x7bb- \n\n1=-- |--|red") = .ok s
      ∧ s.equations = [⟨"y = x;1", some .dotted, some (.hex "#Ff0"), ["x>0", "a\x7d\x7bb-"]⟩,
        ⟨"1=--", none, some (.named .red), ["--"]⟩]
      ∧ Spec.parse s.toSource = .ok s ∧ s.fingerprint = fingerprintOf s.equations s.fields :=
  ⟨_, rfl, rfl, @parse_toSource
    ("left=-3 ; width=-9223372036854775808\n---\r\n y = x;1 | x>0 | #Ff0 |dotted|"
      ++ " a\x7d\x7bb- \n\n1=-- |--|red") _ rfl⟩

end Spec

end GraphBlock
