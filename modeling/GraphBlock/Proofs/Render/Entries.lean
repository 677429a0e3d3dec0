import GraphBlock.Proofs.Render.Completion
import Mathlib.Data.Set.Card

/-!
# The registry holds the open registrations

A registration is open after a run if nothing resolved, dropped or consumed it since
(`Exchange.Open`).  The entries of the registry are the open registrations, each once and under
its own fingerprint and number, and the registry keeps no empty list
(`registry_lists_open_registrations`).  To drop a listener or to wait on it takes off its own entry
at most (`entries_step_of_ends`).
-/

namespace GraphBlock

namespace Router

variable {r : Router}

/-- The registry listener by listener, each under its fingerprint. -/
def entries (r : Router) : List (String × Nat) :=
  r.waiting.flatMap fun e => e.2.map fun n => (e.1, n)

theorem mem_entries (h : r.Tidy) {f : String} {n : Nat} :
    (f, n) ∈ r.entries ↔ n ∈ r.waitingOn f := by
  simp only [entries, List.mem_flatMap, List.mem_map, Prod.mk.injEq]
  constructor
  · rintro ⟨e, he, m, hm, rfl, rfl⟩
    rwa [h.waitingOn_of_mem he]
  · intro hn
    rcases hl : r.waiting.lookup f with _ | ids
    · simp [waitingOn, hl] at hn
    · obtain ⟨as, bs, hw, -⟩ := List.lookup_eq_some_iff.1 hl
      refine ⟨(f, ids), by simp [hw], n, ?_, rfl, rfl⟩
      simpa [waitingOn, hl] using hn

theorem entries_strike (f : String) (id : Nat) : ∀ {xs : List (String × List Nat)},
    (xs.map Prod.fst).Nodup →
      (strike f id xs).flatMap (fun e => e.2.map fun n => (e.1, n))
        = (xs.flatMap fun e => e.2.map fun n => (e.1, n)).filter (· ≠ (f, id))
  | [], _ => rfl
  | (k, ids) :: xs, h => by
    rw [List.map_cons, List.nodup_cons] at h
    have ih := entries_strike f id h.2
    rw [List.flatMap_cons, List.filter_append, List.filter_map]
    simp only [strike]
    split
    · rename_i hk
      have hids : ids.filter ((fun p : String × Nat => decide (p ≠ (f, id))) ∘ fun n => (k, n))
          = ids.filter (· ≠ id) := List.filter_congr fun n _ => by simp [hk]
      have hxs : (xs.flatMap fun e => e.2.map fun n => (e.1, n)).filter (· ≠ (f, id))
          = xs.flatMap fun e => e.2.map fun n => (e.1, n) := by
        refine List.filter_eq_self.2 fun p hp => ?_
        obtain ⟨e, he, hpe⟩ := List.mem_flatMap.1 hp
        obtain ⟨n, -, rfl⟩ := List.mem_map.1 hpe
        have hne : e.1 ≠ f := by
          rintro rfl
          exact h.1 (List.mem_map.2 ⟨e, he, hk.symm⟩)
        simp [hne]
      rw [hids, hxs]
      split
      · rename_i hrest
        rw [hrest, List.map_nil, List.nil_append]
      · rw [List.flatMap_cons]
    · rename_i hk
      have hids : ids.filter ((fun p : String × Nat => decide (p ≠ (f, id))) ∘ fun n => (k, n))
          = ids := List.filter_eq_self.2 fun n _ => by simp [hk]
      rw [hids, List.flatMap_cons, ih]

/-- A listener that is released takes its own entry with it and leaves all others. -/
theorem entries_release (h : r.Tidy) (l : Listener) :
    (r.release l).entries = r.entries.filter (· ≠ (l.fingerprint, l.id)) :=
  entries_strike l.fingerprint l.id h.keys

end Router

namespace Exchange

variable {x : Exchange} {origin f : String} {n : Nat}

/-- The `n`-th registration of a run was for this fingerprint, and it was neither resolved, dropped
nor consumed by a wait. -/
def Open (origin : String) (steps : List Step) (n : Nat) (f : String) : Prop :=
  ∃ before between, steps = before ++ .register f :: between
    ∧ before.countP Step.isRegister = n ∧ (∀ s ∈ between, s.ends n = false)
    ∧ firstMatch origin f (between.flatMap Step.completions) = none

theorem Coherent.nodup_entries (h : x.Coherent) : (x.router.entries.map Prod.snd).Nodup := by
  have hids : x.router.entries.map Prod.snd = x.router.waiting.flatMap Prod.snd := by
    rw [Router.entries, List.map_flatMap]
    exact List.flatMap_congr fun e _ => by simp [Function.comp_def]
  rw [hids, List.nodup_flatMap]
  constructor
  · intro e he
    rw [← h.tidy.waitingOn_of_mem he]
    exact h.nodup e.1
  · refine (List.pairwise_map.1 h.tidy.keys).imp_of_mem fun {e k} he hk hne n hn hm => ?_
    rw [← h.tidy.waitingOn_of_mem he] at hn
    rw [← h.tidy.waitingOn_of_mem hk] at hm
    obtain ⟨l, hl, hle, -⟩ := (h.waiting _ _).1 hn
    obtain ⟨m, hl', hmk, -⟩ := (h.waiting _ _).1 hm
    rw [hl] at hl'
    obtain rfl := Option.some.inj hl'
    exact hne (hle.symm.trans hmk)

/-- What is released had its entry under its own fingerprint, if it had one. -/
theorem entries_step_of_ends (h : x.Coherent) {s : Step} (hs : s.ends n = true) :
    (x.step s).1.router.entries = x.router.entries.filter (·.2 ≠ n) := by
  have hkeep : x.listener? n = none →
      x.router.entries = x.router.entries.filter (·.2 ≠ n) := fun hnone => by
    refine (List.filter_eq_self.2 fun p hp => ?_).symm
    obtain ⟨l, hl, -⟩ := (h.waiting p.1 p.2).1 ((Router.mem_entries h.tidy).1 hp)
    have hne : p.2 ≠ n := by
      rintro rfl
      rw [hnone] at hl
      simp at hl
    simpa using hne
  have hclear : ∀ l, x.listener? n = some l →
      (x.router.release l).entries = x.router.entries.filter (·.2 ≠ n) := fun l hl => by
    rw [Router.entries_release h.tidy]
    refine List.filter_congr fun p hp => ?_
    obtain ⟨m, hm, hmf, -⟩ := (h.waiting p.1 p.2).1 ((Router.mem_entries h.tidy).1 hp)
    have heq : p = (l.fingerprint, l.id) ↔ p.2 = n := by
      rw [h.id n l hl]
      constructor
      · rintro rfl
        rfl
      · rintro rfl
        rw [hl] at hm
        obtain rfl := Option.some.inj hm
        rw [hmf]
    simp only [ne_eq, heq]
  cases s with
  | register f | dispatch c | listen cs => simp [Step.ends] at hs
  | drop m | wait m =>
    obtain rfl : m = n := by simpa [Step.ends] using hs
    simp only [step]
    split
    · exact hclear _ ‹_›
    · exact hkeep ‹_›

theorem listener?_of_open {steps : List Step} (h : Open origin steps n f) :
    ((trusting origin).run steps).1.listener? n = some ⟨n, f⟩
      ∧ ((trusting origin).run steps).1.router.outcome? ⟨n, f⟩ = none := by
  obtain ⟨before, between, rfl, hn, hs, hnone⟩ := h
  have hb := coherent_run origin before
  have hlen : ((trusting origin).run before).1.slots.length = n := by
    rw [length_slots_run, hn]
    exact Nat.zero_add n
  rw [← hlen] at hs
  obtain ⟨hl, ho⟩ := outcome?_since_register hb f hs
  rw [origin_run] at ho
  rw [hb.next, hlen] at hl ho
  rw [run_append]
  exact ⟨hl, ho.trans hnone⟩

theorem mem_waitingOn_run {steps : List Step} :
    n ∈ ((trusting origin).run steps).1.router.waitingOn f ↔ Open origin steps n f := by
  have h := coherent_run origin steps
  rw [h.waiting]
  constructor
  · rintro ⟨l, hl, rfl, hnone⟩
    rcases registered_of_listener? steps hl with ⟨hno, -⟩ | ⟨before, between, rfl, hn, hs⟩
    · exact absurd (lt_of_listener? hno) (Nat.not_lt_zero n)
    · have hb := coherent_run origin before
      have hlen : ((trusting origin).run before).1.slots.length = n := by
        rw [length_slots_run]
        exact hn
      obtain ⟨hl', ho⟩ := outcome?_since_register hb l.fingerprint (hlen ▸ hs)
      rw [run_append] at hl hnone
      rw [hlen, hl] at hl'
      rw [← Option.some.inj hl', hnone, origin_run] at ho
      exact ⟨before, between, rfl, (Nat.zero_add _).symm.trans hn, hs, ho.symm⟩
  · intro ho
    obtain ⟨hl, hnone⟩ := listener?_of_open ho
    exact ⟨_, hl, rfl, hnone⟩

theorem lt_of_open {steps : List Step} (h : Open origin steps n f) :
    n < steps.countP Step.isRegister := by
  obtain ⟨before, between, rfl, rfl, -⟩ := h
  rw [List.countP_append, List.countP_cons_of_pos rfl]
  omega

/-- Of every run: as many listeners are pending for a fingerprint as it has open registrations; the
entries are the open registrations under the number and the fingerprint that the listener has
itself; no two entries have one number, a fingerprint has one list and none is empty; numbers are
below the count of registrations; and the end of a listener takes off its own entry only. -/
theorem registry_lists_open_registrations (origin : String) (steps : List Step) :
    let x := ((trusting origin).run steps).1
    (∀ f, x.router.pending f = {n | Open origin steps n f}.ncard)
      ∧ (∀ f n, (f, n) ∈ x.router.entries ↔ Open origin steps n f)
      ∧ (∀ f n, Open origin steps n f →
          x.listener? n = some ⟨n, f⟩ ∧ n < steps.countP Step.isRegister)
      ∧ (x.router.entries.map Prod.snd).Nodup
      ∧ ((x.router.waiting.map Prod.fst).Nodup ∧ ∀ e ∈ x.router.waiting, e.2 ≠ [])
      ∧ ∀ n s, s = .drop n ∨ s = .wait n →
          (x.step s).1.router.entries = x.router.entries.filter (·.2 ≠ n) := by
  have h := coherent_run origin steps
  refine ⟨fun f => ?_, fun f n => ?_, fun f n ho => ⟨(listener?_of_open ho).1, lt_of_open ho⟩,
    h.nodup_entries, ⟨h.tidy.keys, h.tidy.nonempty⟩, fun n s hs => ?_⟩
  · have hset : {n | Open origin steps n f}
        = ↑(((trusting origin).run steps).1.router.waitingOn f).toFinset := by
      ext n
      rw [Set.mem_ofPred_eq, Finset.mem_coe, List.mem_toFinset, mem_waitingOn_run]
    rw [hset, Set.ncard_coe_finset, List.toFinset_card_of_nodup (h.nodup f)]
    rfl
  · rw [Router.mem_entries h.tidy, mem_waitingOn_run]
  · refine entries_step_of_ends h ?_
    rcases hs with rfl | rfl <;> simp [Step.ends]

/-- The first two listeners of "f" are resolved and still held when the third comes. -/
theorem registry_lists_open_registrations_third :
    let steps : List Step := [.register "f", .register "f", .dispatch ⟨"a", "f", .failure ""⟩,
      .register "f", .drop 0, .wait 1]
    Open "a" steps 2 "f" ∧ ("f", 2) ∈ ((trusting "a").run steps).1.router.entries := by
  intro steps
  have ho : Open "a" steps 2 "f" :=
    ⟨[.register "f", .register "f", .dispatch ⟨"a", "f", .failure ""⟩], [.drop 0, .wait 1], rfl,
      rfl, by decide, rfl⟩
  exact ⟨ho, ((registry_lists_open_registrations "a" steps).2.1 "f" 2).2 ho⟩

end Exchange

end GraphBlock
