import GraphBlock.Proofs.Spec.Grammar
import Mathlib.Logic.Relation

/-!
# Which settings hold

The settings of a block are entries in a row, and `Written` says how a row is put on paper.  The
last number given for a key holds (`lastGiven`), and only these numbers are looked at, so a row may
be restated: entries of different keys change places, an entry that is overridden goes, the default
of a key is written out (`Restated`).  None of this changes what the block compiles to or why it
does not (`settings_resolve`).
-/

namespace GraphBlock

open Text

section Written

/-- A text that gives these settings in this order: entries and blank entries with semicolons and
line breaks between them, and blanks around each key and each numeral. -/
inductive Written : List Char → List (FieldKey × Int) → Prop
  | blank {p : List Char} (h : Padding p) : Written p []
  | entry {p q r s n : List Char} {k : FieldKey} {i : Int} (hp : Padding p) (hq : Padding q)
      (hr : Padding r) (hs : Padding s) (hn : Numeral n i) :
      Written (p ++ k.name.toList ++ q ++ '=' :: (r ++ n ++ s)) [(k, i)]
  | join {a b : List Char} {c : Char} {g h : List (FieldKey × Int)} (hc : c = ';' ∨ c = '\n')
      (ha : Written a g) (hb : Written b h) : Written (a ++ c :: b) (g ++ h)

/-- A body behind settings, or a body alone, which states none. -/
inductive States : List Char → List (FieldKey × Int) → List Char → Prop
  | omitted {body : List Char} (hb : ¬ dashes <:+: body) : States body [] body
  | stated {settings body : List Char} {given : List (FieldKey × Int)}
      (hs : Written settings given) (hb : ¬ dashes <:+: body) :
      States (settings ++ dashes ++ body) given body

/-- A numeral has no three dashes in a row and does not end with a dash. -/
theorem Numeral.noDashes {s : List Char} {i : Int} (h : Numeral s i) :
    ¬ dashes <:+: s ∧ s.getLast? ≠ some '-' := by
  obtain ⟨a, b, rfl, hne, ha, hb⟩ := h.exists_digits
  have hdash : '-' ∉ b := fun hm => absurd (hb _ hm) (by decide)
  constructor
  · intro hd
    have hcount := hd.sublist.count_le '-'
    rw [List.count_append, List.count_eq_zero_of_not_mem hdash] at hcount
    rcases ha with rfl | rfl | rfl <;> simp [dashes] at hcount
  · rw [List.getLast?_append_of_ne_nil _ hne]
    exact fun hl => hdash (List.mem_of_getLast? hl)

theorem tight_name (k : FieldKey) : Tight k.name.toList :=
  tight_of_forall fun c hc => by
    have := (name_spec k).2.2 c hc
    exact isBlank_of_visible (by omega) (by omega)

theorem endsEntry_of_padding {p : List Char} (h : Padding p) : ∀ c ∈ p, endsEntry c = false := by
  intro c hc
  have hsemi : c ≠ ';' := by
    rintro rfl
    exact h.not_mem (by decide) hc
  simp [endsEntry, hsemi, (h c hc).2]

theorem endsEntry_of_code {c : Char} (h : 43 ≤ c.toNat ∧ c.toNat ≤ 58 ∨ 60 ≤ c.toNat) :
    endsEntry c = false := by
  simp only [endsEntry, Bool.or_eq_false_iff, beq_eq_false_iff_ne]
  constructor
  · rintro rfl
    exact absurd h (by decide)
  · rintro rfl
    exact absurd h (by decide)

/-- One entry, however it is padded, is one entry of the block. -/
theorem entries_entry {p q r s n : List Char} {k : FieldKey} {i : Int} (hp : Padding p)
    (hq : Padding q) (hr : Padding r) (hs : Padding s) (hn : Numeral n i) :
    entries endsEntry (p ++ k.name.toList ++ q ++ '=' :: (r ++ n ++ s))
      = [k.name.toList ++ q ++ '=' :: (r ++ n)] := by
  have ht : Tight (k.name.toList ++ (q ++ '=' :: r) ++ n) :=
    (tight_name k).append hn.tight (name_spec k).1 hn.ne_nil _
  have hcut : ∀ c ∈ p ++ k.name.toList ++ q ++ '=' :: (r ++ n ++ s), endsEntry c = false := by
    simp only [List.forall_mem_append, List.forall_mem_cons]
    refine ⟨⟨⟨endsEntry_of_padding hp, fun c hc => ?_⟩, endsEntry_of_padding hq⟩, rfl,
      ⟨endsEntry_of_padding hr, fun c hc => ?_⟩, endsEntry_of_padding hs⟩
    · have := (name_spec k).2.2 c hc
      exact endsEntry_of_code (by omega)
    · have := hn.code c hc
      exact endsEntry_of_code (by omega)
  have htrim : trim (p ++ k.name.toList ++ q ++ '=' :: (r ++ n ++ s))
      = k.name.toList ++ (q ++ '=' :: r) ++ n := by
    have hshape : p ++ k.name.toList ++ q ++ '=' :: (r ++ n ++ s)
        = p ++ (k.name.toList ++ (q ++ '=' :: r) ++ n) ++ s := by
      simp
    rw [hshape, hp.trim_padded hs, ht.trim_eq]
  have hne : k.name.toList ++ (q ++ '=' :: r) ++ n ≠ [] := by
    simp
  rw [entries_eq_singleton hcut (htrim ▸ hne), htrim]
  simp

theorem Written.gives {settings : List Char} {given : List (FieldKey × Int)}
    (h : Written settings given) : List.Forall₂ Gives (entries endsEntry settings) given := by
  induction h with
  | @blank p h =>
    have hnone : entries endsEntry p = [] := by
      simp [entries, pieces_of_forall (endsEntry_of_padding h), h.trim_eq]
    rw [hnone]
    exact .nil
  | @entry p q r s n k i hp hq hr hs hn =>
    rw [entries_entry hp hq hr hs hn]
    refine .cons ⟨k.name.toList ++ q, r ++ n, rfl, ?_, ?_⟩ .nil
    · rw [trim_append_blank hq.blank, (tight_name k).trim_eq]
    · rwa [trim_blank_append hr.blank, hn.tight.trim_eq]
  | @join a b c g h hc ha hb iha ihb =>
    rw [entries_append_cons (by rcases hc with rfl | rfl <;> rfl)]
    exact List.rel_append iha ihb

/-- Settings have no three dashes in a row and add no dash to the separator behind them. -/
theorem Written.noDashes {settings : List Char} {given : List (FieldKey × Int)}
    (h : Written settings given) : ¬ dashes <:+: settings ∧ settings.getLast? ≠ some '-' := by
  have hpadding : ∀ {p : List Char}, Padding p → '-' ∉ p := fun hp => hp.not_mem (by decide)
  induction h with
  | blank h =>
    exact ⟨noDashes_of_not_mem (hpadding h), fun hl => hpadding h (List.mem_of_getLast? hl)⟩
  | @entry p q r s n k i hp hq hr hs hn =>
    have hname : '-' ∉ k.name.toList := by
      cases k <;> decide
    have hfront : '-' ∉ p ++ k.name.toList ++ q := by
      simp [hpadding hp, hname, hpadding hq]
    constructor
    · exact not_infix_append_cons (by decide)
        (noDashes_padded (hpadding hr) (hpadding hs) hn.noDashes.1) (noDashes_of_not_mem hfront)
    · cases s using List.reverseRecOn with
      | nil =>
        have hshape : p ++ k.name.toList ++ q ++ '=' :: (r ++ n ++ [])
            = p ++ k.name.toList ++ q ++ '=' :: r ++ n := by
          simp
        rw [hshape, List.getLast?_append_of_ne_nil _ hn.ne_nil]
        exact hn.noDashes.2
      | append_singleton s c =>
        have hshape : p ++ k.name.toList ++ q ++ '=' :: (r ++ n ++ (s ++ [c]))
            = p ++ k.name.toList ++ q ++ '=' :: (r ++ n ++ s) ++ [c] := by
          simp
        rw [hshape, List.getLast?_concat]
        intro hc
        exact hpadding hs (by simp [Option.some.inj hc])
  | @join a b c g h hc ha hb iha ihb =>
    have hcut : c ≠ '-' := by
      rcases hc with rfl | rfl <;> decide
    refine ⟨not_infix_append_cons hcut ihb.1 iha.1, ?_⟩
    rw [List.getLast?_append_of_ne_nil _ (List.cons_ne_nil c b), List.getLast?_cons]
    rcases hl : b.getLast? with _ | d
    · simpa using hcut
    · have := ihb.2
      rw [hl] at this
      simpa using this

end Written

section Restated

/-- One change to a row of settings that leaves the number that holds for each key. -/
inductive Restated : List (FieldKey × Int) → List (FieldKey × Int) → Prop
  | swap {x y : List (FieldKey × Int)} {a b : FieldKey × Int} (h : a.1 ≠ b.1) :
      Restated (x ++ a :: b :: y) (x ++ b :: a :: y)
  | drop {x y z : List (FieldKey × Int)} {k : FieldKey} {i j : Int} :
      Restated (x ++ (k, i) :: (y ++ (k, j) :: z)) (x ++ (y ++ (k, j) :: z))
  | default {x y : List (FieldKey × Int)} {k : FieldKey} (h : ∀ g ∈ x ++ y, g.1 ≠ k) :
      Restated (x ++ y) (x ++ (k, k.default.toInt) :: y)

variable {given given' : List (FieldKey × Int)}

theorem lastGiven_of_not_given {k : FieldKey} (h : ∀ g ∈ given, g.1 ≠ k) :
    lastGiven given k = k.default.toInt := by
  have hnone : given.filter (·.1 = k) = [] := by
    simpa [List.filter_eq_nil_iff] using h
  rw [lastGiven, hnone]
  rfl

theorem lastGiven_append_congr (h : lastGiven given = lastGiven given')
    (y : List (FieldKey × Int)) : lastGiven (given ++ y) = lastGiven (given' ++ y) := by
  induction y using List.reverseRecOn with
  | nil => simpa using h
  | append_singleton y g ih =>
    funext k
    rw [← List.append_assoc, ← List.append_assoc, lastGiven_concat, lastGiven_concat, ih]

/-- An entry is not seen by another key, nor where its own key is given again behind it. -/
theorem lastGiven_drop {k l : FieldKey} (i : Int) (x : List (FieldKey × Int)) :
    ∀ {y : List (FieldKey × Int)}, (l = k → ∃ j, (k, j) ∈ y) →
      lastGiven (x ++ (k, i) :: y) l = lastGiven (x ++ y) l := by
  intro y h
  induction y using List.reverseRecOn with
  | nil =>
    have hl : l ≠ k := fun hk => by simpa using h hk
    rw [lastGiven_concat, if_neg hl, List.append_nil]
  | append_singleton y g ih =>
    rw [← List.cons_append, ← List.append_assoc, ← List.append_assoc, lastGiven_concat,
      lastGiven_concat]
    by_cases hg : l = g.1
    · rw [if_pos hg, if_pos hg]
    · rw [if_neg hg, if_neg hg]
      refine ih fun hk => ?_
      obtain ⟨j, hj⟩ := h hk
      rcases List.mem_append.1 hj with hj | hj
      · exact ⟨j, hj⟩
      · exact absurd (hk.trans (congrArg Prod.fst (List.mem_singleton.1 hj))) hg

theorem Restated.lastGiven_eq (h : Restated given given') : lastGiven given = lastGiven given' := by
  cases h with
  | @swap x y a b h =>
    have hpair : lastGiven (x ++ [a, b]) = lastGiven (x ++ [b, a]) := by
      funext k
      have hsplit : ∀ c d : FieldKey × Int, x ++ [c, d] = x ++ [c] ++ [d] := by simp
      rw [hsplit, hsplit, lastGiven_concat, lastGiven_concat, lastGiven_concat, lastGiven_concat]
      by_cases ha : k = a.1
      · rw [if_neg (ha ▸ h), if_pos ha, if_pos ha]
      · rw [if_neg ha, if_neg ha]
    simpa using lastGiven_append_congr hpair y
  | drop =>
    funext l
    exact lastGiven_drop _ _ fun _ => ⟨_, List.mem_append_right _ List.mem_cons_self⟩
  | @default x y k h =>
    have hx : lastGiven x = lastGiven (x ++ [(k, k.default.toInt)]) := by
      funext l
      rw [lastGiven_concat]
      by_cases hl : l = k
      · rw [if_pos hl, hl]
        exact lastGiven_of_not_given fun g hg => h g (List.mem_append_left _ hg)
      · rw [if_neg hl]
    simpa using lastGiven_append_congr hx y

/-- However often a row is restated, the same numbers hold. -/
theorem lastGiven_eq_of_restated (h : Relation.EqvGen Restated given given') :
    lastGiven given = lastGiven given' := by
  induction h with
  | rel _ _ h => exact h.lastGiven_eq
  | refl _ => rfl
  | symm _ _ _ ih => exact ih.symm
  | trans _ _ _ _ _ ih ih' => exact ih.trans ih'

end Restated

section Outcome

theorem States.exists_layout {source body : List Char} {given : List (FieldKey × Int)}
    (h : States source given body) : ∃ settings, Layout source settings body
      ∧ List.Forall₂ Gives (entries endsEntry settings) given := by
  cases h with
  | omitted hb => exact ⟨[], .body hb, by simp⟩
  | @stated settings _ _ hs hb =>
    refine ⟨settings, segments_eq_iff_layout.1 (.inr ?_), hs.gives⟩
    rw [segments_append _ hs.noDashes.1 hs.noDashes.2, segments_of_not_infix hb]

/-- A block is compiled by the values that its settings leave for each key. -/
theorem parse_of_states {source : String} {given : List (FieldKey × Int)} {body : List Char}
    (h : States source.toList given body) (hr : ∀ g ∈ given, InRange g.2) :
    ∃ v : FieldKey → Int64, (∀ k, (v k).toInt = lastGiven given k)
      ∧ Spec.parse source = Fields.ofValues v >>= fun f =>
          (parseBody body).map fun es => Spec.ofContent es f := by
  obtain ⟨settings, hlayout, hgives⟩ := h.exists_layout
  obtain ⟨os, rfl⟩ := exists_numbers_iff.2 hr
  refine ⟨Fields.overridden os, fun k => (lastGiven_numbers os k).symm, ?_⟩
  rw [Spec.parse_of_layout hlayout, parseFields, mapM_parseEntry_eq_ok_iff.2 hgives]
  rfl

/-- If of the last numbers the left one is below the right one and the bottom one below the top
one, they are the settings of the block.  Otherwise the block is refused with the first pair that
is not in order.  What else the row of settings was makes no difference. -/
theorem settings_resolve {source : String} {given : List (FieldKey × Int)} {body : List Char}
    (h : States source.toList given body) (hr : ∀ g ∈ given, InRange g.2) :
    (lastGiven given .left < lastGiven given .right →
      lastGiven given .bottom < lastGiven given .top →
        ∃ f : Fields, (∀ k, (f.get k).toInt = lastGiven given k)
          ∧ Spec.parse source = (parseBody body).map fun es => Spec.ofContent es f)
    ∧ (lastGiven given .right ≤ lastGiven given .left → ∃ lower upper : Int64,
        lower.toInt = lastGiven given .left ∧ upper.toInt = lastGiven given .right
          ∧ Spec.parse source = .error (.invalidBoundary .left lower .right upper))
    ∧ (lastGiven given .left < lastGiven given .right →
        lastGiven given .top ≤ lastGiven given .bottom → ∃ lower upper : Int64,
          lower.toInt = lastGiven given .bottom ∧ upper.toInt = lastGiven given .top
            ∧ Spec.parse source = .error (.invalidBoundary .bottom lower .top upper))
    ∧ ∀ (source' : String) (given' : List (FieldKey × Int)), States source'.toList given' body →
        (∀ g ∈ given', InRange g.2) → Relation.EqvGen Restated given given' →
          Spec.parse source' = Spec.parse source := by
  obtain ⟨v, hv, hparse⟩ := parse_of_states h hr
  simp only [← hv, ← Int64.lt_iff_toInt_lt, ← Int64.le_iff_toInt_le]
  refine ⟨fun hx hy => ?_, fun hx => ⟨_, _, rfl, rfl, ?_⟩, fun hx hy => ⟨_, _, rfl, rfl, ?_⟩,
    fun source' given' h' hr' he => ?_⟩
  · obtain ⟨f, hf⟩ := ofValues_isOk_iff.2 ⟨Int64.lt_iff_toInt_lt.1 hx, Int64.lt_iff_toInt_lt.1 hy⟩
    refine ⟨f, fun k => congrArg Int64.toInt (Fields.get_of_ofValues hf k), ?_⟩
    rw [hparse, hf]
    rfl
  · rw [hparse, ofValues_eq_error_iff.2 (.inl ⟨hx, rfl⟩)]
    rfl
  · rw [hparse, ofValues_eq_error_iff.2 (.inr ⟨hx, hy, rfl⟩)]
    rfl
  · obtain ⟨v', hv', hparse'⟩ := parse_of_states h' hr'
    have hsame : v' = v := by
      funext k
      rw [← Int64.toInt_inj, hv', hv, lastGiven_eq_of_restated he]
    rw [hparse', hparse, hsame]

/-- The first left bound is past the right one, and is overridden before anything is compared. -/
theorem settings_resolve_crossing :
    States "left=20;\tleft =-03---y=x".toList [(.left, 20), (.left, -3)] ['y', '=', 'x']
      ∧ ∃ f : Fields, (∀ k, (f.get k).toInt = lastGiven [(.left, 20), (.left, -3)] k)
        ∧ Spec.parse "left=20;\tleft =-03---y=x"
          = (parseBody ['y', '=', 'x']).map fun es => Spec.ofContent es f := by
  have hbody : '-' ∉ ['y', '=', 'x'] := by decide
  have htwenty : Digits ['2', '0'] 20 := ⟨by decide, by simp, rfl⟩
  have hthree : Digits ['0', '3'] 3 := ⟨by decide, by simp, rfl⟩
  have hfirst : Written ['l', 'e', 'f', 't', '=', '2', '0'] [(.left, 20)] :=
    .entry (k := .left) .nil .nil .nil .nil (.plain htwenty)
  have hlast : Written ['\t', 'l', 'e', 'f', 't', ' ', '=', '-', '0', '3'] [(.left, -3)] :=
    .entry (k := .left) (.singleton (c := '\t') rfl (by decide))
      (.singleton (c := ' ') rfl (by decide)) .nil .nil (.minus hthree)
  have hstates := States.stated (.join (.inl rfl) hfirst hlast) (noDashes_of_not_mem hbody)
  have hsource : States "left=20;\tleft =-03---y=x".toList [(.left, 20), (.left, -3)]
      ['y', '=', 'x'] := hstates
  exact ⟨hsource, (settings_resolve hsource (by simp [InRange])).1 (by decide) (by decide)⟩

end Outcome

end GraphBlock
