import GraphBlock.Proofs.Render.Listeners

/-!
# The first match completes a listener, once

A listener that is still in its slot was registered by one step of the run and not ended since
(`registered_of_listener?`).  Waiting on it yields the outcome of the first completion with its
fingerprint that came from the trusted origin after that step, and no outcome if there was none.
A dispatch tells how many listeners it resolves, and what one resolved no later one resolves again
(`first_match_resolves_once`).
-/

namespace GraphBlock.Exchange

variable {x : Exchange} {n : Nat}

/-- The answer to a wait on a listener to which this was delivered. -/
def Answer.ofOutcome? : Option Outcome → Answer
  | some o => .outcome o
  | none => .unresolved

/-- The slots whose listeners get their outcome if a completion is dispatched. -/
def resolvedBy (x : Exchange) (c : Completion) : List Nat :=
  (List.range x.slots.length).filter fun n => (x.listener? n).any fun l =>
    (x.router.outcome? l).isNone && ((x.step (.dispatch c)).1.router.outcome? l).isSome

theorem answer_wait {l : Listener} (hl : x.listener? n = some l) :
    (x.step (.wait n)).2 = .ofOutcome? (x.router.outcome? l) := by
  simp only [step, hl]
  rcases x.router.outcome? l with _ | o <;> rfl

/-- What is in a slot after a run was there before, or was put there by a step of it. -/
theorem registered_of_listener? {l : Listener} : ∀ (ss : List Step) {x : Exchange},
    (x.run ss).1.listener? n = some l →
      (x.listener? n = some l ∧ ∀ s ∈ ss, s.ends n = false)
        ∨ ∃ before between, ss = before ++ .register l.fingerprint :: between
          ∧ x.slots.length + before.countP Step.isRegister = n
          ∧ ∀ s ∈ between, s.ends n = false
  | [], _, h => .inl ⟨h, by simp⟩
  | s :: ss, x, h => by
    have hlen := length_slots_step x s
    rw [run_cons] at h
    rcases registered_of_listener? ss h with ⟨hl, hs⟩ | ⟨before, between, rfl, hn, hs⟩
    · by_cases hn : n < x.slots.length
      · rw [listener?_step hn] at hl
        split at hl
        · simp at hl
        · rename_i hend
          exact .inl ⟨hl, by simpa using ⟨by simpa using hend, hs⟩⟩
      · have hlt := lt_of_listener? hl
        have hreg : s.isRegister = true := by
          by_contra hno
          rw [if_neg hno] at hlen
          omega
        rw [if_pos hreg] at hlen
        rcases s with f | c | cs | m | m <;> simp only [Step.isRegister, Bool.false_eq_true] at hreg
        rw [listener?_register, if_pos (by omega)] at hl
        obtain rfl := Option.some.inj hl
        refine .inr ⟨[], ss, rfl, ?_, hs⟩
        rw [List.countP_nil]
        omega
    · refine .inr ⟨s :: before, between, rfl, ?_, hs⟩
      rw [List.countP_cons, ← hn, hlen]
      omega

/-- What a step registers is in its slot, with the first match since then, until it ends. -/
theorem outcome?_since_register (h : x.Coherent) (f : String) {between : List Step}
    (hs : ∀ s ∈ between, s.ends x.slots.length = false) :
    (x.run (.register f :: between)).1.listener? x.slots.length = some ⟨x.router.nextId, f⟩
      ∧ (x.run (.register f :: between)).1.router.outcome? ⟨x.router.nextId, f⟩
        = firstMatch x.router.origin f (between.flatMap Step.completions) := by
  have hreg : (x.step (.register f)).1.listener? x.slots.length = some ⟨x.router.nextId, f⟩ := by
    rw [listener?_register, if_pos rfl]
  have hnone : x.router.outcome? ⟨x.router.nextId, f⟩ = none :=
    h.delivered _ (listener?_of_le (Nat.le_of_eq h.next.symm))
  have hany : between.any (Step.ends x.slots.length) = false := by simpa using hs
  rw [run_cons]
  constructor
  · rw [listener?_run between (lt_of_listener? hreg), hany]
    exact hreg
  · rw [outcome?_run between (h.register f) hreg hs, origin_step]
    show (x.router.outcome? ⟨x.router.nextId, f⟩).or _ = _
    rw [hnone, Option.none_or]

theorem mem_resolvedBy (h : x.Coherent) {c : Completion} : n ∈ x.resolvedBy c ↔
    ∃ l, x.listener? n = some l ∧ x.router.outcome? l = none
      ∧ c.origin = x.router.origin ∧ c.fingerprint = l.fingerprint := by
  simp only [resolvedBy, List.mem_filter, List.mem_range, Option.any_eq_true, Bool.and_eq_true,
    Option.isNone_iff_eq_none]
  constructor
  · rintro ⟨-, l, hl, hnone, hsome⟩
    have hd := h.outcome?_dispatch hl c
    rw [hnone, Option.none_or, firstMatch_singleton] at hd
    simp only [step, hd] at hsome
    split at hsome
    · exact ⟨l, hl, hnone, ‹_›⟩
    · simp at hsome
  · rintro ⟨l, hl, hnone, hc⟩
    have hd := h.outcome?_dispatch hl c
    rw [hnone, Option.none_or, firstMatch_singleton, if_pos hc] at hd
    exact ⟨lt_of_listener? hl, l, hl, hnone, by simp [step, hd]⟩

/-- The number that a dispatch gives is that of the listeners on the list of the fingerprint, and
these are the ones it resolves. -/
theorem answer_dispatch (h : x.Coherent) (c : Completion) :
    (x.step (.dispatch c)).2 = .delivered (x.resolvedBy c).length := by
  have hcount : (x.step (.dispatch c)).2 = .delivered (if c.origin = x.router.origin then
      (x.router.waitingOn c.fingerprint).length else 0) := by
    simp only [step, Router.dispatch]
    split <;> rfl
  rw [hcount]
  congr 1
  by_cases ho : c.origin = x.router.origin
  · rw [if_pos ho]
    refine List.Perm.length_eq ((List.perm_ext_iff_of_nodup (h.nodup _)
      (List.nodup_range.filter _)).2 fun n => ?_)
    rw [h.waiting, ← resolvedBy, mem_resolvedBy h]
    refine exists_congr fun l => ?_
    constructor
    · rintro ⟨hl, hf, hnone⟩
      exact ⟨hl, hnone, ho, hf.symm⟩
    · rintro ⟨hl, hnone, -, hf⟩
      exact ⟨hl, hf.symm, hnone⟩
  · rw [if_neg ho, eq_comm, List.length_eq_zero_iff, List.eq_nil_iff_forall_not_mem]
    intro n hn
    obtain ⟨l, -, -, hc, -⟩ := (mem_resolvedBy h).1 hn
    exact ho hc

theorem not_mem_resolvedBy_later (h : x.Coherent) {c d : Completion} (hn : n ∈ x.resolvedBy c)
    (later : List Step) : n ∉ (x.run (.dispatch c :: later)).1.resolvedBy d := by
  intro hd
  obtain ⟨l, hl, hnone, hc⟩ := (mem_resolvedBy h).1 hn
  obtain ⟨k, hk, hknone, -⟩ := (mem_resolvedBy (h.run _)).1 hd
  have hlive := listener?_run (.dispatch c :: later) (lt_of_listener? hl)
  rw [hk] at hlive
  split at hlive
  · simp at hlive
  · rename_i hends
    rw [hl] at hlive
    obtain rfl := Option.some.inj hlive
    rw [outcome?_run _ h hl (by simpa using hends), hnone, Option.none_or, List.flatMap_cons,
      firstMatch_append, show Step.completions (.dispatch c) = [c] from rfl, firstMatch_singleton,
      if_pos hc] at hknone
    simp at hknone

/-- Of every run: waiting on a listener that a step registered and none ended yields the outcome of
the first completion from the trusted origin for its fingerprint since that step, if there is one;
every listener that is left is such a one; a dispatch gives the number of listeners it resolves; no
later dispatch resolves one of them; and to listen is to dispatch one by one. -/
theorem first_match_resolves_once (origin : String) (steps : List Step) :
    let x := ((trusting origin).run steps).1
    (∀ before f between, steps = before ++ .register f :: between →
        (∀ s ∈ between, s.ends (before.countP Step.isRegister) = false) →
          (x.step (.wait (before.countP Step.isRegister))).2
            = .ofOutcome? (firstMatch origin f (between.flatMap Step.completions)))
      ∧ (∀ n l, x.listener? n = some l → ∃ before between,
          steps = before ++ .register l.fingerprint :: between
            ∧ before.countP Step.isRegister = n ∧ ∀ s ∈ between, s.ends n = false)
      ∧ (∀ c, (x.step (.dispatch c)).2 = .delivered (x.resolvedBy c).length)
      ∧ (∀ c n, n ∈ x.resolvedBy c →
          ∀ later d, n ∉ (x.run (.dispatch c :: later)).1.resolvedBy d)
      ∧ ∀ cs, (x.step (.listen cs)).1 = (x.run (cs.map .dispatch)).1 := by
  have h := coherent_run origin steps
  refine ⟨?_, fun n l hl => ?_, answer_dispatch h,
    fun c n hn later d => not_mem_resolvedBy_later h hn later, step_listen_eq_run _⟩
  · rintro before f between rfl hs
    have hlen : ((trusting origin).run before).1.slots.length = before.countP Step.isRegister := by
      simp [length_slots_run, trusting]
    rw [← hlen] at hs ⊢
    obtain ⟨hl, ho⟩ := outcome?_since_register (coherent_run origin before) f hs
    rw [run_append, answer_wait hl, ho, origin_run]
    rfl
  · rcases registered_of_listener? steps hl with ⟨hno, -⟩ | ⟨before, between, hsteps, hn, hs⟩
    · exact absurd (lt_of_listener? hno) (Nat.not_lt_zero n)
    · exact ⟨before, between, hsteps, by simpa [trusting] using hn, hs⟩

/-- A second listener comes when the first is resolved already. -/
theorem first_match_resolves_once_twice :
    let o : Outcome := .success [1]
    let x := ((trusting "a").run [.register "f", .dispatch ⟨"b", "f", .success [0]⟩,
      .listen [⟨"a", "g", .success [0]⟩, ⟨"a", "f", o⟩], .register "f"]).1
    x.listener? 0 = some ⟨0, "f"⟩ ∧ (x.step (.wait 0)).2 = .outcome o
      ∧ (x.step (.wait 1)).2 = .unresolved
      ∧ (x.step (.dispatch ⟨"a", "f", o⟩)).2 = .delivered 1 ∧ x.resolvedBy ⟨"a", "f", o⟩ = [1]
      ∧ 1 ∉ (x.run [.dispatch ⟨"a", "f", o⟩, .register "f"]).1.resolvedBy ⟨"a", "f", o⟩ := by
  intro o x
  obtain ⟨hwait, -, hcount, honce, -⟩ := first_match_resolves_once "a" [.register "f",
    .dispatch ⟨"b", "f", .success [0]⟩, .listen [⟨"a", "g", .success [0]⟩, ⟨"a", "f", o⟩],
    .register "f"]
  exact ⟨rfl, hwait [] "f" _ rfl (by decide), hwait [_, _, _] "f" [] rfl (by decide),
    hcount ⟨"a", "f", o⟩, rfl, honce ⟨"a", "f", o⟩ 1 (by decide) [.register "f"] ⟨"a", "f", o⟩⟩

end GraphBlock.Exchange
