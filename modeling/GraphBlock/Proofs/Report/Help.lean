import GraphBlock.Proofs.Report.Contexts

/-!
# What a report leaves out

A report helps if it advises or shows every text of what went wrong (`Report.Helps`).  A cause that
the program does not know is advised on or listed with all its contexts; a failure that it knows is
reported alone, so where there is no advice on it (`Failure.isUnadvised`), the contexts around it
and the failures behind it are lost unless its own text shows them
(`Report.helps_iff`).  The failed write of an image hides its reason in this way
(`Report.cache_failure_hides_reason`).
-/

namespace GraphBlock

/-- A failure that the program knows and has no advice on. -/
def Failure.isUnadvised : Failure → Bool
  | cache (.ioFailure ..) | cache (.readFailed ..) | configuration _ | malformedSettings
  | other _ => true
  | parse _ | render _ | cache (.directoryMissing _) | inputUnreadable .. => false

namespace Report

open Trouble

/-- There is advice, or every text is shown. -/
def Helps (r : Report) (texts : List String) : Prop :=
  r.suggestion.isSome = true ∨ ∀ t ∈ texts, t.toList <:+: r.text.toList

variable {t : String}

theorem infix_numbered : ∀ {ts : List String} (n : Nat), t ∈ ts →
    t.toList <:+: (numbered n ts).toList
  | s :: ts, n, h => by
    rw [numbered]
    simp only [String.toList_append]
    rcases List.mem_cons.1 h with rfl | h
    · exact (List.infix_append _ _ _)
    · exact (infix_numbered (n + 1) h).trans (List.suffix_append _ _).isInfix

theorem infix_withCauses {ts : List String} (h : t ∈ ts) :
    t.toList <:+: (withCauses ts).toList := by
  rcases ts with _ | ⟨s, _ | ⟨s', ts⟩⟩
  · cases h
  · rw [List.mem_singleton.1 h]
    exact List.infix_rfl
  · have hcauses : withCauses (s :: s' :: ts)
        = s ++ "\n\nCaused by:" ++ numbered 1 (s' :: ts) := rfl
    rw [hcauses]
    simp only [String.toList_append]
    rcases List.mem_cons.1 h with rfl | h
    · rw [List.append_assoc]
      exact (List.prefix_append _ _).isInfix
    · exact (infix_numbered 1 h).trans (List.suffix_append _ _).isInfix

theorem ofFailure_of_unadvised {f : Failure} (h : f.isUnadvised = true) :
    ofFailure f = ⟨f, none, none⟩ := by
  rcases f with e | e | e | _ | _ | _ | _
  · cases h
  · cases h
  · rcases e with _ | _ | _
    · cases h
    · rfl
    · rfl
  · cases h
  all_goals rfl

theorem isSome_of_advised {f : Failure} (h : f.isUnadvised = false) :
    (ofFailure f).suggestion.isSome = true := by
  rcases f with e | e | e | _ | _ | _ | _
  · rfl
  · cases e <;> rfl
  · rcases e with _ | _ | _
    · rfl
    · cases h
    · cases h
  · rfl
  all_goals cases h

theorem chain_of_unadvised {c : Cause} {f : Failure} (hc : c.Is f) (h : f.isUnadvised = true) :
    c.chain = f.message :: f.sources := by
  rcases hc with _ | _ | _ | _
  · rfl
  · cases h
  · cases h
  · rfl

theorem message_isPrefix (r : Report) : r.failure.message.toList <+: r.text.toList := by
  rw [text, String.toList_append, String.toList_append, List.append_assoc]
  exact List.prefix_append _ _

theorem text_bare (f : Failure) : (⟨f, none, none⟩ : Report).text = f.message := by
  simp [text]

/-- A cause that the program does not know is advised on or listed. -/
theorem helps_of_unknown {trouble : Trouble} (h : trouble.cause.failure? = none) :
    (ofTrouble trouble).Helps trouble.chain := by
  have hlisted : (ofTrouble trouble).failure.message = withCauses trouble.chain →
      (ofTrouble trouble).Helps trouble.chain := fun he => .inr fun t ht =>
    ((infix_withCauses ht).trans (he ▸ (message_isPrefix _).isInfix))
  obtain ⟨c, contexts⟩ := trouble
  cases c with
  | failure f => cases h
  | parse e => cases h
  | render e => cases h
  | cache e => cases h
  | settings => exact .inl rfl
  | io e => exact hlisted rfl
  | message m => exact hlisted rfl

/-- A report helps unless a failure that the program knows and has no advice on stands in a context
or before another failure, and its own text does not show these. -/
theorem helps_iff (c : Cause) (contexts : List String) :
    (ofTrouble ((Trouble.ofCause c).withinAll contexts)).Helps
      ((Trouble.ofCause c).withinAll contexts).chain ↔
    ∀ f, c.Is f → f.isUnadvised = true →
      ∀ t ∈ contexts ++ f.sources, t.toList <:+: f.message.toList := by
  have hchain : ((Trouble.ofCause c).withinAll contexts).chain = contexts.reverse ++ c.chain := by
    rw [withinAll_eq]
    simp [chain, ofCause]
  have hcause : ((Trouble.ofCause c).withinAll contexts).cause = c := by
    rw [withinAll_eq]
    rfl
  rcases hf : c.failure? with _ | f
  · refine iff_of_true (helps_of_unknown (hcause.symm ▸ hf)) fun f hc => ?_
    rw [Cause.failure?_eq_some_iff.2 hc] at hf
    cases hf
  · have hc := Cause.failure?_eq_some_iff.1 hf
    rw [ofTrouble_of_is (hcause.symm ▸ hc), hchain]
    have honly : ∀ f', c.Is f' → f' = f := fun f' hc' =>
      Option.some.inj ((Cause.failure?_eq_some_iff.2 hc').symm.trans hf)
    cases hadvice : f.isUnadvised with
    | false =>
      refine iff_of_true (.inl (isSome_of_advised hadvice)) fun f' hc' h => ?_
      rw [honly f' hc', hadvice] at h
      cases h
    | true =>
      rw [ofFailure_of_unadvised hadvice, chain_of_unadvised hc hadvice]
      constructor
      · rintro (h | h) f' hc' - t ht
        · cases h
        · rw [honly f' hc'] at ht ⊢
          have hin := h t (by
            rcases List.mem_append.1 ht with ht | ht
            · exact List.mem_append_left _ (List.mem_reverse.2 ht)
            · exact List.mem_append_right _ (List.mem_cons_of_mem _ ht))
          rwa [text_bare] at hin
      · refine fun h => .inr fun t ht => ?_
        rw [text_bare]
        rcases List.mem_append.1 ht with ht | ht
        · exact h f hc hadvice t (List.mem_append_left _ (List.mem_reverse.1 ht))
        · rcases List.mem_cons.1 ht with rfl | ht
          · exact List.infix_rfl
          · exact h f hc hadvice t (List.mem_append_right _ ht)

/-- A failure whose own text shows the context around it. -/
theorem helps_iff_shown : (Cause.failure (.other "not stored: disk full")).Is
      (.other "not stored: disk full")
    ∧ (ofTrouble ((Trouble.ofCause (.failure (.other "not stored: disk full"))).withinAll
      ["disk full"])).Helps ["disk full", "not stored: disk full"] := by
  refine ⟨.converted _, (helps_iff _ ["disk full"]).2 fun f hc _ t ht => ?_⟩
  cases hc
  obtain rfl := List.mem_singleton.1 ht
  exact ⟨"not stored: ".toList, [], rfl⟩

/-- An image that could not be written: no advice, and the reason is not shown. -/
theorem cache_failure_hides_reason :
    let t := Trouble.ofCause (.cache (.ioFailure ⟨"k/a.png"⟩ ⟨.other, "disk full"⟩))
    t.chain = ["Failed to write cache file k/a.png", "disk full"]
      ∧ (ofTrouble t).suggestion = none ∧ (ofTrouble t).text = "Failed to write cache file k/a.png"
      ∧ ¬ (ofTrouble t).Helps t.chain := by
  intro t
  have htext : (ofTrouble t).text = "Failed to write cache file k/a.png" := by decide
  refine ⟨by decide, rfl, htext, ?_⟩
  rintro (h | h)
  · cases h
  · have hin := h "disk full" (by decide)
    rw [htext] at hin
    have hs : 's' ∈ "Failed to write cache file k/a.png".toList := hin.subset (by decide)
    exact absurd hs (by decide)

end Report

end GraphBlock
