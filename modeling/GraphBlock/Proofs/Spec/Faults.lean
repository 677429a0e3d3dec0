import GraphBlock.Proofs.Spec.LineFaults
import Mathlib.Order.Bounds.Basic

/-!
# Why a block is refused

`BlockFault` says which errors a text can be refused with, and where in the text each of them is:
more than one separator, an entry of the settings behind entries that are right (`EntryFault`),
bounds that are not in order, or a line of the body behind lines that compile (`LineFault`).  The
compiler refuses a text with these errors and no other (`Spec.parse_eq_error_iff_fault`), so what it
reports is wrong, and nothing is wrong in front of it.
-/

namespace GraphBlock

open Text

section Separators

/-- There are `n` places, and no more, where three dashes stand in a text without overlap. -/
def Separated (source : List Char) (n : Nat) : Prop :=
  IsGreatest {m | ∃ ps, ps.length = m + 1 ∧ dashes.intercalate ps = source} n

/-- Of two places with three dashes the first one leaves the rest to the other. -/
theorem exists_of_first_dashes {a b p t : List Char} (ha : ¬ dashes <:+: a ++ ['-', '-'])
    (h : a ++ dashes ++ b = p ++ dashes ++ t) : ∃ d, b = d ++ t := by
  have hp : p ++ dashes <+: a ++ dashes ++ b := h ▸ List.prefix_append _ _
  have hle : a.length ≤ p.length := by
    by_contra hlt
    have hfront : a ++ ['-', '-'] <+: a ++ dashes ++ b := ⟨'-' :: b, by simp [dashes]⟩
    have hshort : (p ++ dashes).length ≤ (a ++ ['-', '-']).length := by
      simp only [List.length_append, dashes, List.length_cons, List.length_nil]
      omega
    have hinside := List.prefix_of_prefix_length_le hp hfront hshort
    exact ha ((List.suffix_append p dashes).isInfix.trans hinside.isInfix)
  have hpre : a ++ dashes <+: p ++ dashes :=
    List.prefix_of_prefix_length_le (List.prefix_append _ b) hp (by simpa using hle)
  obtain ⟨d, hd⟩ := hpre
  refine ⟨d, ?_⟩
  rw [← hd, List.append_assoc (a ++ dashes)] at h
  exact List.append_cancel_left h

/-- No way to take a text apart at dashes has more parts than the one from the left. -/
theorem length_le_segments : ∀ (ps : List (List Char)) (p : List Char),
    (p :: ps).length ≤ (segments (dashes.intercalate (p :: ps))).length
  | [], p => List.length_pos_iff.2 (segments_ne_nil _)
  | q :: ps, p => by
    have hs : dashes.intercalate (p :: q :: ps) = p ++ dashes ++ dashes.intercalate (q :: ps) := by
      rw [List.intercalate_cons_cons]
    rcases segments_cases (dashes.intercalate (p :: q :: ps)) with ⟨-, hd⟩ | ⟨a, b, he, ha⟩
    · rw [hs] at hd
      exact absurd (List.infix_append p dashes _) hd
    · obtain ⟨d, rfl⟩ := exists_of_first_dashes ha (he.symm.trans hs)
      have hjoin : d ++ dashes.intercalate (q :: ps) = dashes.intercalate ((d ++ q) :: ps) := by
        rcases ps with _ | ⟨r, ps⟩
        · simp
        · simp [List.intercalate_cons_cons]
      have ih := length_le_segments ps (d ++ q)
      rw [he, segments_first _ ha, hjoin]
      simpa using ih

theorem separated_iff {source : List Char} {n : Nat} :
    Separated source n ↔ (segments source).length = n + 1 := by
  have hbest : Separated source ((segments source).length - 1) := by
    have hpos := List.length_pos_iff.2 (segments_ne_nil source)
    refine ⟨⟨segments source, by omega, intercalate_segments source⟩, ?_⟩
    rintro m ⟨_ | ⟨p, ps⟩, hm, rfl⟩
    · simp at hm
    · have := length_le_segments ps p
      omega
  have hpos := List.length_pos_iff.2 (segments_ne_nil source)
  constructor
  · intro h
    have := h.unique hbest
    omega
  · intro h
    rw [h] at hbest
    exact hbest

end Separators

section Settings

/-- What is wrong with a settings entry: it has no equals sign, its key is no key, its value is
blank, or its value is no number of 64 bits. -/
inductive EntryFault : List Char → ParseError → Prop
  | noEquals {entry : List Char} (h : '=' ∉ entry) :
      EntryFault entry (.missingFieldValue (String.ofList entry))
  | unknown {before after : List Char} (h : '=' ∉ before)
      (hk : ∀ k : FieldKey, trim before ≠ k.name.toList) :
      EntryFault (before ++ '=' :: after) (.unrecognizedField (String.ofList (trim before)))
  | noValue {before after : List Char} {k : FieldKey} (hk : trim before = k.name.toList)
      (hv : ∀ c ∈ after, isBlank c = true) :
      EntryFault (before ++ '=' :: after) (.missingFieldValue k.name)
  | noNumber {before after : List Char} {k : FieldKey} (hk : trim before = k.name.toList)
      (hv : ∃ c ∈ after, isBlank c = false) (hn : ∀ i, InRange i → ¬ Numeral (trim after) i) :
      EntryFault (before ++ '=' :: after) (.invalidFieldType k.name (String.ofList (trim after)))

/-- What is wrong with the settings of a block where nothing in front of it is wrong. -/
inductive SettingsFault (settings : List Char) : ParseError → Prop
  | entry {before after : List (List Char)} {entry : List Char} {d : ParseError}
      (he : entries endsEntry settings = before ++ entry :: after)
      (hb : ∀ s ∈ before, ∃ g, Gives s g ∧ InRange g.2) (hf : EntryFault entry d) :
      SettingsFault settings d
  | horizontal {given : List (FieldKey × Int)} {lower upper : Int64}
      (hg : List.Forall₂ Gives (entries endsEntry settings) given) (hr : ∀ g ∈ given, InRange g.2)
      (hl : lower.toInt = lastGiven given .left) (hu : upper.toInt = lastGiven given .right)
      (h : upper ≤ lower) : SettingsFault settings (.invalidBoundary .left lower .right upper)
  | vertical {given : List (FieldKey × Int)} {lower upper : Int64}
      (hg : List.Forall₂ Gives (entries endsEntry settings) given) (hr : ∀ g ∈ given, InRange g.2)
      (hx : lastGiven given .left < lastGiven given .right)
      (hl : lower.toInt = lastGiven given .bottom) (hu : upper.toInt = lastGiven given .top)
      (h : upper ≤ lower) : SettingsFault settings (.invalidBoundary .bottom lower .top upper)

theorem splitFirst_of_not_mem {c : Char} {s : List Char} (h : c ∉ s) : splitFirst c s = none := by
  rcases hs : splitFirst c s with _ | ⟨a, b⟩
  · rfl
  · obtain ⟨rfl, -⟩ := splitFirst_eq_some hs
    simp at h

theorem ofName?_eq_none_iff {s : List Char} :
    FieldKey.ofName? (String.ofList s) = none ↔ ∀ k : FieldKey, s ≠ k.name.toList := by
  rw [Option.eq_none_iff_forall_ne_some]
  constructor
  · rintro h k rfl
    exact h k (by rw [String.ofList_toList, FieldKey.ofName?_name])
  · intro h k hk
    exact h k (by rw [FieldKey.name_of_ofName? hk, String.toList_ofList])

theorem readInt64?_eq_none_iff {s : List Char} :
    readInt64? s = none ↔ ∀ i, InRange i → ¬ Numeral s i := by
  simp only [Option.eq_none_iff_forall_ne_some, ne_eq, readInt64?_eq_some_iff, inRange_iff,
    forall_exists_index, forall_apply_eq_imp_iff]

theorem parseEntry_eq_error_iff {entry : List Char} {d : ParseError} :
    parseEntry entry = .error d ↔ EntryFault entry d := by
  constructor
  · intro h
    unfold parseEntry at h
    split at h
    · rename_i hs
      obtain rfl := Except.error.inj h
      refine .noEquals fun hm => ?_
      obtain ⟨a, b, rfl, ha⟩ := List.eq_append_cons_of_mem hm
      simp [splitFirst_append b ha] at hs
    · rename_i before after hs
      obtain ⟨rfl, hbefore⟩ := splitFirst_eq_some hs
      dsimp only at h
      split at h
      · rename_i hk
        obtain rfl := Except.error.inj h
        exact .unknown hbefore (ofName?_eq_none_iff.1 hk)
      · rename_i k hk
        have hname := FieldKey.name_of_ofName? hk
        have htrim : trim before = k.name.toList := by
          rw [hname, String.toList_ofList]
        rw [← hname] at h
        split at h
        · rename_i hv
          obtain rfl := Except.error.inj h
          exact .noValue htrim (trim_eq_nil_iff.1 hv)
        · rename_i hv
          split at h
          · rename_i hn
            obtain rfl := Except.error.inj h
            exact .noNumber htrim (trim_ne_nil_iff.1 hv) (readInt64?_eq_none_iff.1 hn)
          · cases h
  · rintro (h | ⟨h, hk⟩ | ⟨hk, hv⟩ | ⟨hk, hv, hn⟩)
    · rw [parseEntry, splitFirst_of_not_mem h]
    · simp only [parseEntry, splitFirst_append _ h, ofName?_eq_none_iff.2 hk]
    · simp only [parseEntry, splitFirst_append _ (not_mem_of_trim_eq_name hk), hk,
        String.ofList_toList, FieldKey.ofName?_name, trim_eq_nil_iff.2 hv, if_true]
    · simp only [parseEntry, splitFirst_append _ (not_mem_of_trim_eq_name hk), hk,
        String.ofList_toList, FieldKey.ofName?_name, if_neg (trim_ne_nil_iff.2 hv),
        readInt64?_eq_none_iff.2 hn]

theorem exists_parseEntry_iff {entry : List Char} :
    (∃ o, parseEntry entry = .ok o) ↔ ∃ g, Gives entry g ∧ InRange g.2 := by
  simp only [parseEntry_eq_ok_iff]
  constructor
  · rintro ⟨o, h⟩
    exact ⟨_, h, inRange_iff.2 ⟨o.2, rfl⟩⟩
  · rintro ⟨⟨k, i⟩, h, hr⟩
    obtain ⟨j, rfl⟩ := inRange_iff.1 hr
    exact ⟨(k, j), h⟩

theorem parseFields_eq_error_iff {settings : List Char} {d : ParseError} :
    parseFields settings = .error d ↔ SettingsFault settings d := by
  have hlast : ∀ {os : List (FieldKey × Int64)} {j : Int64} {k : FieldKey},
      j.toInt = lastGiven (numbers os) k ↔ j = Fields.overridden os k := by
    intro os j k
    rw [lastGiven_numbers, Int64.toInt_inj]
  have hlt : ∀ {os : List (FieldKey × Int64)} {k l : FieldKey},
      lastGiven (numbers os) k < lastGiven (numbers os) l
        ↔ Fields.overridden os k < Fields.overridden os l := by
    intro os k l
    rw [lastGiven_numbers, lastGiven_numbers, Int64.lt_iff_toInt_lt]
  simp only [parseFields, bind_eq_error_iff, mapM_eq_error_iff, exists_parseEntry_iff,
    parseEntry_eq_error_iff, mapM_parseEntry_eq_ok_iff, Fields.withOverrides, ofValues_eq_error_iff]
  constructor
  · rintro (⟨before, entry, after, he, hb, hf⟩ | ⟨os, hg, ⟨hx, rfl⟩ | ⟨hx, hy, rfl⟩⟩)
    · exact .entry he hb hf
    · exact .horizontal hg (exists_numbers_iff.1 ⟨os, rfl⟩) (hlast.2 rfl) (hlast.2 rfl) hx
    · exact .vertical hg (exists_numbers_iff.1 ⟨os, rfl⟩) (hlt.2 hx) (hlast.2 rfl) (hlast.2 rfl) hy
  · rintro (⟨he, hb, hf⟩ | ⟨hg, hr, hl, hu, h⟩ | ⟨hg, hr, hx, hl, hu, h⟩)
    · exact .inl ⟨_, _, _, he, hb, hf⟩
    · obtain ⟨os, rfl⟩ := exists_numbers_iff.2 hr
      obtain rfl := hlast.1 hl
      obtain rfl := hlast.1 hu
      exact .inr ⟨os, hg, .inl ⟨h, rfl⟩⟩
    · obtain ⟨os, rfl⟩ := exists_numbers_iff.2 hr
      obtain rfl := hlast.1 hl
      obtain rfl := hlast.1 hu
      exact .inr ⟨os, hg, .inr ⟨hlt.1 hx, h, rfl⟩⟩

end Settings

section Block

/-- What is wrong with a text where nothing in front of it is wrong. -/
inductive BlockFault (source : List Char) : ParseError → Prop
  | separators {n : Nat} (h : Separated source n) (hn : 2 ≤ n) :
      BlockFault source (.tooManySegments (n + 1))
  | settings {settings body : List Char} {d : ParseError} (hl : Layout source settings body)
      (hf : SettingsFault settings d) : BlockFault source d
  | line {settings body line : List Char} {before after : List (List Char)} {d : ParseError}
      (hl : Layout source settings body) (hs : WellSet settings)
      (hb : entries (· == '\n') body = before ++ line :: after)
      (ho : ∀ l ∈ before, EquationLine l) (hf : LineFault line d) : BlockFault source d

theorem parseBody_eq_error_iff {body : List Char} {d : ParseError} :
    parseBody body = .error d ↔ ∃ before line after,
      entries (· == '\n') body = before ++ line :: after ∧ (∀ l ∈ before, EquationLine l)
        ∧ LineFault line d := by
  simp only [parseBody, mapM_eq_error_iff, Equation.parse_isOk_iff_equationLine]
  refine exists_congr fun before => exists_congr fun line => exists_congr fun after =>
    and_congr_right fun he => and_congr_right fun _ => ?_
  obtain ⟨hne, ht, -, -⟩ := mem_entries (he ▸ List.mem_append_right _ List.mem_cons_self)
  exact Equation.parse_eq_error_iff_lineFault hne ht

/-- A text that has a layout has at most one separator, and any other has more. -/
theorem exists_layout_iff {source : List Char} :
    (∃ settings body, Layout source settings body) ↔ (segments source).length ≤ 2 := by
  simp only [← segments_eq_iff_layout]
  rcases hs : segments source with _ | ⟨a, _ | ⟨b, _ | ⟨c, rest⟩⟩⟩
  · exact absurd hs (segments_ne_nil source)
  · exact ⟨fun _ => by simp, fun _ => ⟨[], a, .inl ⟨rfl, rfl⟩⟩⟩
  · exact ⟨fun _ => by simp, fun _ => ⟨a, b, .inr rfl⟩⟩
  · simp

theorem Spec.parse_of_many_segments {source : String} (h : 2 < (segments source.toList).length) :
    Spec.parse source = .error (.tooManySegments (segments source.toList).length) := by
  unfold Spec.parse
  split
  · rename_i hs
    simp [hs] at h
  · rename_i hs
    simp [hs] at h
  · rfl

/-- The error of a refused text is what is wrong with it first. -/
theorem Spec.parse_eq_error_iff_fault (source : String) (d : ParseError) :
    Spec.parse source = .error d ↔ BlockFault source.toList d := by
  by_cases hlayout : ∃ settings body, Layout source.toList settings body
  · have hfew := exists_layout_iff.1 hlayout
    obtain ⟨settings, body, hlayout⟩ := hlayout
    have hmap : ∀ f, (parseBody body).map (fun es => ofContent es f) = .error d
        ↔ parseBody body = .error d := by
      intro f
      rcases parseBody body with e | es <;> simp [Except.map]
    rw [parse_of_layout hlayout, bind_eq_error_iff, parseFields_eq_error_iff]
    simp only [hmap, parseBody_eq_error_iff]
    constructor
    · rintro (hf | ⟨f, hs, before, line, after, hb, ho, hf⟩)
      · exact .settings hlayout hf
      · exact .line hlayout (parseFields_isOk_iff_wellSet.1 ⟨f, hs⟩) hb ho hf
    · rintro (⟨h, hn⟩ | ⟨hl, hf⟩ | ⟨hl, hs, hb, ho, hf⟩)
      · rw [separated_iff] at h
        omega
      · obtain ⟨rfl, rfl⟩ := hl.unique hlayout
        exact .inl hf
      · obtain ⟨rfl, rfl⟩ := hl.unique hlayout
        obtain ⟨f, hs⟩ := parseFields_isOk_iff_wellSet.2 hs
        exact .inr ⟨f, hs, _, _, _, hb, ho, hf⟩
  · have hmany : 2 < (segments source.toList).length :=
      Nat.lt_of_not_le fun h => hlayout (exists_layout_iff.2 h)
    rw [parse_of_many_segments hmany, Except.error.injEq]
    constructor
    · rintro rfl
      obtain ⟨n, hn⟩ : ∃ n, (segments source.toList).length = n + 1 :=
        ⟨_, (Nat.sub_add_cancel (by omega)).symm⟩
      rw [hn]
      exact .separators (separated_iff.2 hn) (by omega)
    · rintro (⟨h, -⟩ | ⟨hl, -⟩ | ⟨hl, -⟩)
      · rw [separated_iff.1 h]
      · exact absurd ⟨_, _, hl⟩ hlayout
      · exact absurd ⟨_, _, hl⟩ hlayout

end Block

end GraphBlock
