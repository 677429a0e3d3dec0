import GraphBlock.Proofs.Spec.Grammar

/-!
# White space around line breaks

White space may be put in at the start of a text, at its end and beside its line breaks, with more
line breaks in it (`Spaced`).  No separator comes or goes by that, and each segment keeps its
entries, whatever else than a line break cuts them (`Spaced.map_entries_segments`).  The compiler
reads nothing else of a text (`Spec.parse_congr`), so the two texts compile to one spec or are
refused with one error.
-/

namespace GraphBlock

open Text

/-- The second text is the first one with white space put in at its start, at its end and on either
side of line breaks. -/
inductive Spaced : List Char → List Char → Prop
  | last {s u v : List Char} (hu : ∀ c ∈ u, isBlank c = true) (hv : ∀ c ∈ v, isBlank c = true) :
      Spaced s (u ++ s ++ v)
  | line {s u v a b : List Char} (hu : ∀ c ∈ u, isBlank c = true)
      (hv : ∀ c ∈ v, isBlank c = true) (h : Spaced a b) :
      Spaced (s ++ '\n' :: a) (u ++ s ++ v ++ '\n' :: b)

/-- A carriage return in front of each line break. -/
def withReturns (s : List Char) : List Char :=
  s.flatMap fun c => if c = '\n' then ['\r', '\n'] else [c]

theorem Spaced.refl (s : List Char) : Spaced s s := by
  have h := Spaced.last (s := s) (u := []) (v := []) (by simp) (by simp)
  rwa [List.nil_append, List.append_nil] at h

theorem spaced_withReturns (s : List Char) : Spaced s (withReturns s) := by
  have hreturn : ∀ c ∈ ['\r'], isBlank c = true := List.all_eq_true.1 rfl
  have hfrom : ∀ p, Spaced (p ++ s) (p ++ withReturns s) := by
    induction s with
    | nil => exact fun p => .refl (p ++ [])
    | cons c s ih =>
      intro p
      by_cases hc : c = '\n'
      · have h := Spaced.line (s := p) (u := []) (by simp) hreturn (ih [])
        simpa [withReturns, hc] using h
      · simpa [withReturns, hc] using ih (p ++ [c])
  exact hfrom []

section Entries

variable {p : Char → Bool} {c : Char} {s u v a b a' b' : List Char}

theorem ne_dash_of_isBlank (h : isBlank c = true) : c ≠ '-' := by
  rintro rfl
  exact absurd h (by decide)

theorem map_entries_segments_cons_blank (h : isBlank c = true) (s : List Char) :
    (segments (c :: s)).map (entries p) = (segments s).map (entries p) := by
  have hpre : ¬ dashes <+: c :: s := fun hd =>
    ne_dash_of_isBlank h (List.cons_prefix_cons.1 hd).1.symm
  obtain ⟨q, qs, hs⟩ := List.exists_cons_of_ne_nil (segments_ne_nil s)
  rw [segments_cons hpre, hs]
  simp only [consFirst, List.map_cons, entries_cons_blank h]

theorem map_entries_segments_concat_blank (h : isBlank c = true) (s : List Char) :
    (segments (s ++ [c])).map (entries p) = (segments s).map (entries p) := by
  obtain ⟨as, q, r, bs, hs, hr, hsc⟩ := segments_append_cons (ne_dash_of_isBlank h) [] s
  obtain ⟨rfl, rfl⟩ := List.cons.inj hr
  rw [hs, hsc]
  simp only [List.map_append, List.map_cons, entries_concat_blank h]

theorem map_entries_segments_padded (hu : ∀ c ∈ u, isBlank c = true)
    (hv : ∀ c ∈ v, isBlank c = true) (s : List Char) :
    (segments (u ++ s ++ v)).map (entries p) = (segments s).map (entries p) := by
  induction v using List.reverseRecOn with
  | nil =>
    rw [List.append_nil]
    induction u with
    | nil => rfl
    | cons c u ih =>
      rw [List.cons_append, map_entries_segments_cons_blank (hu c List.mem_cons_self)]
      exact ih fun d hd => hu d (List.mem_cons_of_mem c hd)
  | append_singleton v c ih =>
    rw [← List.append_assoc, map_entries_segments_concat_blank (hv c (by simp))]
    exact ih fun d hd => hv d (List.mem_append_left _ hd)

/-- A line break cuts entries and no segments, so what is on its two sides counts apart. -/
theorem map_entries_segments_append_cons (hp : p '\n' = true)
    (ha : (segments a).map (entries p) = (segments a').map (entries p))
    (hb : (segments b).map (entries p) = (segments b').map (entries p)) :
    (segments (a ++ '\n' :: b)).map (entries p)
      = (segments (a' ++ '\n' :: b')).map (entries p) := by
  obtain ⟨as, q, r, bs, hq, hr, hqr⟩ := segments_append_cons (c := '\n') (by decide) b a
  obtain ⟨as', q', r', bs', hq', hr', hqr'⟩ := segments_append_cons (c := '\n') (by decide) b' a'
  rw [hq, hq', List.map_append, List.map_append] at ha
  rw [hr, hr', List.map_cons, List.map_cons, List.cons.injEq] at hb
  obtain ⟨has, hlast⟩ := List.append_inj' ha rfl
  rw [hqr, hqr']
  simp only [List.map_append, List.map_cons, entries_append_cons hp, has, hb.1, hb.2,
    List.singleton_inj.1 hlast]

/-- Segment by segment, the entries are the same. -/
theorem Spaced.map_entries_segments (h : Spaced a b) (hp : p '\n' = true) :
    (segments a).map (entries p) = (segments b).map (entries p) := by
  induction h with
  | last hu hv => exact (map_entries_segments_padded hu hv _).symm
  | line hu hv _ ih =>
    exact map_entries_segments_append_cons hp (map_entries_segments_padded hu hv _).symm ih

end Entries

/-- Of a text the compiler reads the number of segments, the entries of the settings and the lines
of the body. -/
theorem Spec.parse_congr {s t : String} (h : ∀ p : Char → Bool, p '\n' = true →
    (segments s.toList).map (entries p) = (segments t.toList).map (entries p)) :
    Spec.parse s = Spec.parse t := by
  have hsettings := h endsEntry rfl
  have hbody := h (· == '\n') rfl
  have hlength := congrArg List.length hbody
  unfold Spec.parse
  generalize segments s.toList = ps at hsettings hbody hlength ⊢
  generalize segments t.toList = qs at hsettings hbody hlength ⊢
  simp only [List.length_map] at hlength
  rcases ps with _ | ⟨a, _ | ⟨b, _ | ⟨c, ps⟩⟩⟩
  · obtain rfl := List.length_eq_zero_iff.1 hlength.symm
    rfl
  · obtain ⟨a', rfl⟩ := List.length_eq_one_iff.1 hlength.symm
    simp only [parseBody, List.singleton_inj.1 hbody]
  · obtain ⟨a', b', rfl⟩ := List.length_eq_two.1 hlength.symm
    simp only [List.map_cons, List.map_nil, List.cons.injEq, and_true] at hsettings hbody
    simp only [parseFields, parseBody, hsettings.1, hbody.2]
  · obtain ⟨a', b', c', qs, rfl⟩ : ∃ a' b' c' qs', qs = a' :: b' :: c' :: qs' := by
      rcases qs with _ | ⟨a', _ | ⟨b', _ | ⟨c', qs⟩⟩⟩ <;> simp at hlength
      exact ⟨a', b', c', qs, rfl⟩
    simp only [hlength]

/-- White space around the line breaks of a text makes no difference to what it compiles to or to
why it is refused; in particular its line breaks may be given carriage returns. -/
theorem spaced_texts_compile_alike (source : String) :
    (∀ text : String, Spaced source.toList text.toList → Spec.parse text = Spec.parse source)
      ∧ Spec.parse (String.ofList (withReturns source.toList)) = Spec.parse source := by
  have halike : ∀ text : String, Spaced source.toList text.toList →
      Spec.parse text = Spec.parse source :=
    fun text h => Spec.parse_congr fun p hp => (h.map_entries_segments hp).symm
  refine ⟨halike, halike _ ?_⟩
  rw [String.toList_ofList]
  exact spaced_withReturns source.toList

/-- Blank lines, tabs and other white space beside the line breaks of a block that compiles, and of
one that does not. -/
theorem spaced_texts_compile_alike_mixed :
    Spaced "top=9;\nleft=1\n---\ny=x".toList
        "\u2003\ntop=9; \r\n\n\tleft=1\n---\u0085\r\n y=x\n\n".toList
      ∧ Spec.parse "\u2003\ntop=9; \r\n\n\tleft=1\n---\u0085\r\n y=x\n\n"
        = .ok (.ofContent [.ofExpression "y=x"] ⟨600, 400, 1, 10, -7, 9, by decide, by decide⟩)
      ∧ Spaced "y=x\n| red".toList "\ny=x\n\t| red\r\n".toList
      ∧ Spec.parse "\ny=x\n\t| red\r\n" = .error (.emptyExpression "| red")
      ∧ Spec.parse (String.ofList (withReturns "y=x\n| red".toList))
        = .error (.emptyExpression "| red") := by
  have hw : ∀ {w : List Char}, w.all isBlank = true → ∀ c ∈ w, isBlank c = true :=
    List.all_eq_true.1
  have hblock : Spaced "top=9;\nleft=1\n---\ny=x".toList
      "\u2003\ntop=9; \r\n\n\tleft=1\n---\u0085\r\n y=x\n\n".toList :=
    .line (s := "top=9;".toList) (u := ['\u2003', '\n']) (v := [' ', '\r']) (hw rfl) (hw rfl)
      (.line (s := "left=1".toList) (u := ['\n', '\t']) (v := []) (hw rfl) (hw rfl)
        (.line (s := "---".toList) (u := []) (v := ['\u0085', '\r']) (hw rfl) (hw rfl)
          (.last (s := "y=x".toList) (u := [' ']) (v := ['\n', '\n']) (hw rfl) (hw rfl))))
  have hrefused : Spaced "y=x\n| red".toList "\ny=x\n\t| red\r\n".toList :=
    .line (s := "y=x".toList) (u := ['\n']) (v := []) (hw rfl) (hw rfl)
      (.last (s := "| red".toList) (u := ['\t']) (v := ['\r', '\n']) (hw rfl) (hw rfl))
  obtain ⟨hok, -⟩ := spaced_texts_compile_alike "top=9;\nleft=1\n---\ny=x"
  obtain ⟨herror, hreturns⟩ := spaced_texts_compile_alike "y=x\n| red"
  exact ⟨hblock, (hok _ hblock).trans rfl, hrefused, (herror _ hrefused).trans rfl,
    hreturns.trans rfl⟩

end GraphBlock
