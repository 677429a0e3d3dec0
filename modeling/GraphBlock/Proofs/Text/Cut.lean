import GraphBlock.Proofs.Text.Trim
import GraphBlock.Text.Pieces

/-!
# What cutting leaves

Pieces and segments are infixes of the text without the cut in them, and a text that is put
together from such parts is cut into them again: `pieces_append_cons` and `entries_append_cons`
where a character cuts, `segments_append` where three dashes do, `segments_append_cons` where
nothing does.
-/

namespace GraphBlock.Text

section Pieces

variable {p : Char → Bool}

theorem consFirst_eq_modifyHead (c : Char) {ps : List (List Char)} (h : ps ≠ []) :
    consFirst c ps = ps.modifyHead (c :: ·) := by
  rcases ps with _ | ⟨q, ps⟩
  · exact absurd rfl h
  · rfl

theorem intercalate_consFirst (c : Char) (sep : List Char) {ps : List (List Char)} (h : ps ≠ []) :
    sep.intercalate (consFirst c ps) = c :: sep.intercalate ps := by
  rcases ps with _ | ⟨p, _ | ⟨q, ps⟩⟩
  · exact absurd rfl h
  · simp [consFirst]
  · simp [consFirst, List.intercalate_cons_cons]

theorem pieces_eq_splitOnP (p : Char → Bool) : ∀ s : List Char, pieces p s = s.splitOnP p
  | [] => List.splitOnP_nil.symm
  | c :: s => by
    rw [pieces, List.splitOnP_cons_eq_if_modifyHead, consFirst_eq_modifyHead c (pieces_ne_nil p s),
      pieces_eq_splitOnP p s]

theorem pieces_append_cons {c : Char} (h : p c = true) (a b : List Char) :
    pieces p (a ++ c :: b) = pieces p a ++ pieces p b := by
  simp only [pieces_eq_splitOnP, List.splitOnP_append_cons a b h]

/-- What does not cut stands in a piece. -/
theorem exists_mem_pieces {c : Char} (hp : p c = false) : ∀ {s : List Char}, c ∈ s →
    ∃ q ∈ pieces p s, c ∈ q
  | d :: s, h => by
    obtain ⟨q, qs, he⟩ := List.exists_cons_of_ne_nil (pieces_ne_nil p s)
    rw [pieces, he]
    rcases List.mem_cons.1 h with rfl | h
    · rw [if_neg (by simp [hp])]
      exact ⟨_, List.mem_cons_self, List.mem_cons_self⟩
    · obtain ⟨r, hr, hc⟩ := exists_mem_pieces hp h
      rw [he] at hr
      split
      · exact ⟨r, List.mem_cons_of_mem _ hr, hc⟩
      · rcases List.mem_cons.1 hr with rfl | hr
        · exact ⟨_, List.mem_cons_self, List.mem_cons_of_mem _ hc⟩
        · exact ⟨r, List.mem_cons_of_mem _ hr, hc⟩

/-- The first piece ends at the first cut, and what stands from there on holds the others. -/
theorem pieces_eq_takeWhile_cons (p : Char → Bool) : ∀ s : List Char, ∃ qs,
    pieces p s = s.takeWhile (!p ·) :: qs
      ∧ entries p (s.dropWhile (!p ·)) = (qs.map trim).filter (· ≠ [])
  | [] => ⟨[], rfl, by simp [entries, pieces]⟩
  | c :: s => by
    obtain ⟨qs, he, hs⟩ := pieces_eq_takeWhile_cons p s
    rcases hc : p c
    · refine ⟨qs, ?_, ?_⟩
      · rw [pieces, he, List.takeWhile_cons_of_pos (by simp [hc])]
        simp [hc, consFirst]
      · rw [List.dropWhile_cons_of_pos (by simp [hc]), hs]
    · refine ⟨pieces p s, ?_, ?_⟩
      · rw [pieces, if_pos hc, List.takeWhile_cons_of_neg (by simp [hc])]
      · rw [List.dropWhile_cons_of_neg (by simp [hc])]
        simp [entries, pieces, hc]

theorem pieces_of_forall {s : List Char} (h : ∀ c ∈ s, p c = false) : pieces p s = [s] := by
  rw [pieces_eq_splitOnP, List.splitOnP_eq_singleton h]

theorem pieces_intercalate {c : Char} {ps : List (List Char)} (hne : ps ≠ [])
    (h : ∀ q ∈ ps, c ∉ q) : pieces (· == c) ([c].intercalate ps) = ps := by
  rw [pieces_eq_splitOnP, ← List.splitOn_eq_splitOnP]
  exact List.splitOn_intercalate c h hne

/-- The first piece begins the text, and the others stand in it. -/
theorem pieces_spec (p : Char → Bool) : ∀ s : List Char, ∃ q qs,
    pieces p s = q :: qs ∧ q <+: s ∧ (∀ r ∈ qs, r <:+: s)
      ∧ ∀ r ∈ q :: qs, ∀ c ∈ r, p c = false
  | [] => ⟨[], [], rfl, List.prefix_rfl, by simp, by simp⟩
  | c :: s => by
    obtain ⟨q, qs, he, hq, hqs, hp⟩ := pieces_spec p s
    rw [pieces, he]
    split
    · refine ⟨[], q :: qs, rfl, List.nil_prefix, fun r hr => ?_, fun r hr => ?_⟩
      · rcases List.mem_cons.1 hr with rfl | hr
        · exact hq.isInfix.trans (List.suffix_cons c s).isInfix
        · exact (hqs r hr).trans (List.suffix_cons c s).isInfix
      · rcases List.mem_cons.1 hr with rfl | hr
        · simp
        · exact hp r hr
    · rename_i hc
      refine ⟨c :: q, qs, rfl, List.cons_prefix_cons.2 ⟨rfl, hq⟩, fun r hr => ?_, fun r hr => ?_⟩
      · exact (hqs r hr).trans (List.suffix_cons c s).isInfix
      · rcases List.mem_cons.1 hr with rfl | hr
        · intro d hd
          rcases List.mem_cons.1 hd with rfl | hd
          · simpa using hc
          · exact hp q List.mem_cons_self d hd
        · exact hp r (List.mem_cons_of_mem _ hr)

/-- What does not cut goes to the end of the last piece. -/
theorem pieces_concat {c : Char} (h : p c = false) : ∀ s : List Char, ∃ qs q,
    pieces p s = qs ++ [q] ∧ pieces p (s ++ [c]) = qs ++ [q ++ [c]]
  | [] => ⟨[], [], rfl, by simp [pieces, h, consFirst]⟩
  | d :: s => by
    obtain ⟨qs, q, hs, hc⟩ := pieces_concat h s
    rw [List.cons_append, pieces, pieces, hs, hc]
    split
    · exact ⟨[] :: qs, q, rfl, rfl⟩
    · rcases qs with _ | ⟨r, qs⟩
      · exact ⟨[], d :: q, rfl, rfl⟩
      · exact ⟨(d :: r) :: qs, q, rfl, rfl⟩

theorem map_trim_pieces_blank_append (hp : ∀ c, isBlank c = true → p c = false) :
    ∀ {b : List Char}, (∀ c ∈ b, isBlank c = true) → ∀ s,
      (pieces p (b ++ s)).map trim = (pieces p s).map trim
  | [], _, _ => rfl
  | c :: b, h, s => by
    have hc := h c List.mem_cons_self
    obtain ⟨q, qs, he⟩ := List.exists_cons_of_ne_nil (pieces_ne_nil p (b ++ s))
    rw [← map_trim_pieces_blank_append hp (fun d hd => h d (List.mem_cons_of_mem _ hd)) s,
      List.cons_append, pieces, if_neg (by simp [hp c hc]), he]
    simp only [consFirst, List.map_cons, trim_cons_blank hc]

theorem map_trim_pieces_append_blank (hp : ∀ c, isBlank c = true → p c = false) {b : List Char}
    (h : ∀ c ∈ b, isBlank c = true) (s : List Char) :
    (pieces p (s ++ b)).map trim = (pieces p s).map trim := by
  induction b using List.reverseRecOn with
  | nil => rw [List.append_nil]
  | append_singleton b c ih =>
    have hc := h c (by simp)
    obtain ⟨qs, q, hs, hsc⟩ := pieces_concat (hp c hc) (s ++ b)
    rw [← ih fun d hd => h d (List.mem_append_left _ hd), ← List.append_assoc, hs, hsc]
    simp only [List.map_append, List.map_cons, trim_concat_blank hc]

/-- Where no blank cuts, a trimmed text has the same trimmed pieces. -/
theorem map_trim_pieces_trim (hp : ∀ c, isBlank c = true → p c = false) (s : List Char) :
    (pieces p (trim s)).map trim = (pieces p s).map trim := by
  obtain ⟨a, b, he, ha, hb⟩ := exists_padding s
  conv_rhs => rw [he, map_trim_pieces_append_blank hp hb, map_trim_pieces_blank_append hp ha]

/-- A text that nothing cuts is its one entry, trimmed. -/
theorem entries_eq_singleton {s : List Char} (h : ∀ c ∈ s, p c = false) (hne : trim s ≠ []) :
    entries p s = [trim s] := by
  simp [entries, pieces_of_forall h, hne]

theorem infix_of_mem_pieces {s r : List Char} (h : r ∈ pieces p s) : r <:+: s := by
  obtain ⟨q, qs, he, hq, hqs, -⟩ := pieces_spec p s
  rw [he] at h
  rcases List.mem_cons.1 h with rfl | h
  · exact hq.isInfix
  · exact hqs r h

theorem not_of_mem_pieces {s r : List Char} (h : r ∈ pieces p s) : ∀ c ∈ r, p c = false := by
  obtain ⟨q, qs, he, -, -, hp⟩ := pieces_spec p s
  rw [he] at h
  exact hp r h

@[simp] theorem entries_nil (p : Char → Bool) : entries p [] = [] := by
  simp [entries, pieces]

theorem entries_append_cons {c : Char} (h : p c = true) (a b : List Char) :
    entries p (a ++ c :: b) = entries p a ++ entries p b := by
  simp only [entries, pieces_append_cons h, List.map_append, List.filter_append]

/-- A blank in front makes no difference, whether it cuts or not. -/
theorem entries_cons_blank {c : Char} (h : isBlank c = true) (s : List Char) :
    entries p (c :: s) = entries p s := by
  obtain ⟨q, qs, he⟩ := List.exists_cons_of_ne_nil (pieces_ne_nil p s)
  simp only [entries, pieces, he]
  split
  · simp
  · simp only [consFirst, List.map_cons, trim_cons_blank h]

/-- A blank at the end makes no difference, whether it cuts or not. -/
theorem entries_concat_blank {c : Char} (h : isBlank c = true) (s : List Char) :
    entries p (s ++ [c]) = entries p s := by
  rcases hc : p c
  · obtain ⟨qs, q, hs, hsc⟩ := pieces_concat hc s
    simp only [entries, hs, hsc, List.map_append, List.map_cons, trim_concat_blank h]
  · rw [entries_append_cons hc, entries_nil, List.append_nil]

theorem entries_of_forall {s : List Char} (hne : s ≠ []) (ht : Tight s)
    (h : ∀ c ∈ s, p c = false) : entries p s = [s] := by
  simp [entries, pieces_of_forall h, ht.trim_eq, hne]

/-- What neither cuts nor is blank stands in an entry. -/
theorem exists_mem_entries {c : Char} {s : List Char} (hp : p c = false) (hb : isBlank c = false)
    (h : c ∈ s) : ∃ q ∈ entries p s, c ∈ q := by
  obtain ⟨q, hq, hc⟩ := exists_mem_pieces hp h
  have hmem : c ∈ trim q := (blank_or_mem_trim hc).resolve_left (by simp [hb])
  refine ⟨trim q, List.mem_filter.2 ⟨List.mem_map_of_mem hq, ?_⟩, hmem⟩
  simpa using List.ne_nil_of_mem hmem

theorem mem_entries {s r : List Char} (h : r ∈ entries p s) :
    r ≠ [] ∧ Tight r ∧ r <:+: s ∧ ∀ c ∈ r, p c = false := by
  simp only [entries, List.mem_filter, List.mem_map, decide_eq_true_eq] at h
  obtain ⟨⟨q, hq, rfl⟩, hne⟩ := h
  exact ⟨hne, tight_trim q, (trim_isInfix q).trans (infix_of_mem_pieces hq),
    fun c hc => not_of_mem_pieces hq c ((trim_isInfix q).subset hc)⟩

end Pieces

section Segments

/-- What cuts a text into segments. -/
def dashes : List Char :=
  ['-', '-', '-']

theorem noDashes_of_length_lt {s : List Char} (h : s.length < 3) : ¬ dashes <:+: s :=
  fun hd => absurd hd.length_le (by simpa [dashes] using h)

/-- Dashes do not join over another character. -/
theorem not_infix_append_cons {c : Char} (hc : c ≠ '-') {b : List Char} (hb : ¬ dashes <:+: b) :
    ∀ {a : List Char}, ¬ dashes <:+: a → ¬ dashes <:+: a ++ c :: b
  | [], _, h => by
    rcases List.infix_cons_iff.1 h with h | h
    · exact hc (List.cons_prefix_cons.1 h).1.symm
    · exact hb h
  | d :: a, ha, h => by
    rcases List.infix_cons_iff.1 h with h | h
    · rcases a with _ | ⟨x, _ | ⟨y, a⟩⟩ <;> simp [dashes] at h
      · exact hc h.2.1.symm
      · exact hc h.2.2.symm
      · obtain ⟨rfl, rfl, rfl⟩ := h
        exact ha ⟨[], a, rfl⟩
    · exact not_infix_append_cons hc hb (fun h' => ha (List.infix_cons_iff.2 (.inr h'))) h

theorem noDashes_of_not_mem {s : List Char} (h : '-' ∉ s) : ¬ dashes <:+: s :=
  fun hd => h (hd.subset (by decide))

/-- What holds no dash does not add to the dashes beside it. -/
theorem noDashes_padded {p q s : List Char} (hp : '-' ∉ p) (hq : '-' ∉ q)
    (h : ¬ dashes <:+: s) : ¬ dashes <:+: p ++ s ++ q := by
  have hback : ¬ dashes <:+: s ++ q := by
    rcases q with _ | ⟨c, q⟩
    · rwa [List.append_nil]
    · simp only [List.mem_cons, not_or] at hq
      exact not_infix_append_cons (Ne.symm hq.1) (noDashes_of_not_mem hq.2) h
  rw [List.append_assoc]
  cases p using List.reverseRecOn with
  | nil => exact hback
  | append_singleton p c =>
    simp only [List.mem_append, List.mem_singleton, not_or] at hp
    rw [List.append_assoc, List.singleton_append]
    exact not_infix_append_cons (Ne.symm hp.2) hback (noDashes_of_not_mem hp.1)

theorem segments_cons {c : Char} {s : List Char} (h : ¬ dashes <+: c :: s) :
    segments (c :: s) = consFirst c (segments s) := by
  rw [segments]
  rintro t rfl rfl
  exact h ⟨t, rfl⟩

/-- Nothing is lost by cutting. -/
theorem intercalate_segments (s : List Char) : dashes.intercalate (segments s) = s := by
  fun_induction segments s with
  | case1 s ih =>
    rw [List.intercalate_cons_of_ne_nil (segments_ne_nil s), ih]
    rfl
  | case2 c s hc ih => rw [intercalate_consFirst c dashes (segments_ne_nil s), ih]
  | case3 => rfl

theorem segments_of_not_infix : ∀ {s : List Char}, ¬ dashes <:+: s → segments s = [s]
  | [], _ => rfl
  | c :: s, h => by
    rw [segments_cons fun h' => h h'.isInfix,
      segments_of_not_infix fun h' => h (List.infix_cons_iff.2 (.inr h'))]
    rfl

/-- The first three dashes behind a text that ends without one cut it off. -/
theorem segments_append (b : List Char) : ∀ {a : List Char}, ¬ dashes <:+: a →
    a.getLast? ≠ some '-' → segments (a ++ dashes ++ b) = a :: segments b
  | [], _, _ => rfl
  | c :: a, ha, hl => by
    have hpre : ¬ dashes <+: c :: (a ++ dashes ++ b) := by
      intro h
      rcases a with _ | ⟨x, _ | ⟨y, a⟩⟩ <;> simp [dashes] at h hl
      · exact hl h.symm
      · exact hl h.2.symm
      · obtain ⟨rfl, rfl, rfl⟩ := h
        exact ha ⟨[], a, rfl⟩
    have hl' : a.getLast? ≠ some '-' := by
      rcases a with _ | ⟨x, a⟩
      · simp
      · simpa using hl
    rw [List.cons_append, List.cons_append, segments_cons hpre,
      segments_append b (fun h => ha (List.infix_cons_iff.2 (.inr h))) hl']
    rfl

/-- A character that is no dash joins the last segment before it to the first behind it. -/
theorem segments_append_cons {c : Char} (hc : c ≠ '-') (b : List Char) : ∀ a : List Char,
    ∃ as p q bs, segments a = as ++ [p] ∧ segments b = q :: bs
      ∧ segments (a ++ c :: b) = as ++ (p ++ c :: q) :: bs := by
  obtain ⟨q, bs, hb⟩ := List.exists_cons_of_ne_nil (segments_ne_nil b)
  intro a
  fun_induction segments a with
  | case1 a ih =>
    obtain ⟨as, p, q, bs, ha, hb, hab⟩ := ih
    exact ⟨[] :: as, p, q, bs, by rw [ha]; rfl, hb, congrArg (List.cons []) hab⟩
  | case2 d a hd ih =>
    obtain ⟨as, p, q, bs, ha, hb, hab⟩ := ih
    have hpre : ¬ dashes <+: d :: (a ++ c :: b) := by
      intro h
      rcases a with _ | ⟨x, _ | ⟨y, a⟩⟩ <;> simp [dashes] at h
      · exact hc h.2.1.symm
      · exact hc h.2.2.symm
      · obtain ⟨rfl, rfl, rfl⟩ := h
        exact hd a rfl rfl
    rw [List.cons_append, segments_cons hpre, ha, hab]
    rcases as with _ | ⟨r, as⟩
    · exact ⟨[], d :: p, q, bs, rfl, hb, rfl⟩
    · exact ⟨(d :: r) :: as, p, q, bs, rfl, hb, rfl⟩
  | case3 =>
    refine ⟨[], [], q, bs, rfl, hb, ?_⟩
    rw [List.nil_append, segments_cons fun h => hc (List.cons_prefix_cons.1 h).1.symm, hb]
    rfl

theorem segments_spec (s : List Char) : ∃ q qs,
    segments s = q :: qs ∧ q <+: s ∧ (∀ r ∈ qs, r <:+: s) ∧ ∀ r ∈ q :: qs, ¬ dashes <:+: r := by
  fun_induction segments s with
  | case1 s ih =>
    obtain ⟨q, qs, he, hq, hqs, hd⟩ := ih
    have hs : s <:+: '-' :: '-' :: '-' :: s := ⟨['-', '-', '-'], [], by simp⟩
    refine ⟨[], q :: qs, by rw [he], List.nil_prefix, fun r hr => ?_, fun r hr => ?_⟩
    · rcases List.mem_cons.1 hr with rfl | hr
      · exact hq.isInfix.trans hs
      · exact (hqs r hr).trans hs
    · rcases List.mem_cons.1 hr with rfl | hr
      · simp [dashes]
      · exact hd r hr
  | case2 c s hc ih =>
    obtain ⟨q, qs, he, hq, hqs, hd⟩ := ih
    refine ⟨c :: q, qs, by rw [he]; rfl, List.cons_prefix_cons.2 ⟨rfl, hq⟩, fun r hr => ?_,
      fun r hr => ?_⟩
    · exact (hqs r hr).trans (List.suffix_cons c s).isInfix
    · rcases List.mem_cons.1 hr with rfl | hr
      · intro h
        rcases List.infix_cons_iff.1 h with h | h
        · obtain ⟨t, ht⟩ := h.trans (List.cons_prefix_cons.2 ⟨rfl, hq⟩ : c :: q <+: c :: s)
          simp only [dashes, List.cons_append, List.nil_append, List.cons.injEq] at ht
          exact hc _ ht.1.symm ht.2.symm
        · exact hd q List.mem_cons_self h
      · exact hd r (List.mem_cons_of_mem _ hr)
  | case3 => exact ⟨[], [], rfl, List.prefix_rfl, by simp, by simp [dashes]⟩

theorem infix_of_mem_segments {s r : List Char} (h : r ∈ segments s) : r <:+: s := by
  obtain ⟨q, qs, he, hq, hqs, -⟩ := segments_spec s
  rw [he] at h
  rcases List.mem_cons.1 h with rfl | h
  · exact hq.isInfix
  · exact hqs r h

theorem not_infix_of_mem_segments {s r : List Char} (h : r ∈ segments s) : ¬ dashes <:+: r := by
  obtain ⟨q, qs, he, -, -, hd⟩ := segments_spec s
  rw [he] at h
  exact hd r h

end Segments

end GraphBlock.Text
