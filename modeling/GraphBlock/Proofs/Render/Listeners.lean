import GraphBlock.Proofs.Render.Registry
import GraphBlock.Render.Exchange

/-!
# Listeners and the registry agree

Slot `n` holds a listener of number `n`, and a number stands in the list of a fingerprint exactly
if its slot holds a listener for that fingerprint to which nothing was delivered
(`Exchange.Coherent`).  Every step keeps it so (`Coherent.step`), and thus every run does
(`coherent_run`).  Of a listener that a step does not end, the step changes the outcome at most
from none to that of the first completion that matches (`outcome?_step`), and so does a run
(`outcome?_run`).
-/

namespace GraphBlock.Exchange

/-- The outcome of the first completion from an origin for a fingerprint. -/
def firstMatch (origin fingerprint : String) (cs : List Completion) : Option Outcome :=
  (cs.find? fun c => c.origin = origin ∧ c.fingerprint = fingerprint).map Completion.outcome

theorem firstMatch_append (origin f : String) (cs ds : List Completion) :
    firstMatch origin f (cs ++ ds) = (firstMatch origin f cs).or (firstMatch origin f ds) := by
  simp [firstMatch, List.find?_append, Option.map_or]

theorem firstMatch_singleton (origin f : String) (c : Completion) :
    firstMatch origin f [c]
      = if c.origin = origin ∧ c.fingerprint = f then some c.outcome else none := by
  by_cases h : c.origin = origin ∧ c.fingerprint = f <;> simp [firstMatch, h]

namespace Step

/-- What a step delivers, in order. -/
def completions : Step → List Completion
  | .dispatch c => [c]
  | .listen cs => cs
  | _ => []

def isRegister : Step → Bool
  | .register _ => true
  | _ => false

/-- Whether a step ends what is in a slot. -/
def ends (n : Nat) : Step → Bool
  | .drop m => m = n
  | .wait m => m = n
  | _ => false

end Step

variable {x : Exchange}

/-- The listeners in the slots and the registry say the same. -/
structure Coherent (x : Exchange) : Prop where
  tidy : x.router.Tidy
  next : x.router.nextId = x.slots.length
  id : ∀ n l, x.listener? n = some l → l.id = n
  waiting : ∀ g n, n ∈ x.router.waitingOn g ↔
    ∃ l, x.listener? n = some l ∧ l.fingerprint = g ∧ x.router.outcome? l = none
  nodup : ∀ g, (x.router.waitingOn g).Nodup
  /-- Nothing is kept for a listener that ended or that is still to come. -/
  delivered : ∀ l : Listener, x.listener? l.id = none → x.router.outcome? l = none

theorem lt_of_listener? {n : Nat} {l : Listener} (h : x.listener? n = some l) :
    n < x.slots.length := by
  rw [listener?, Option.join_eq_some_iff] at h
  exact (List.getElem?_eq_some_iff.1 h).1

theorem listener?_of_le {n : Nat} (h : x.slots.length ≤ n) : x.listener? n = none := by
  rw [listener?, List.getElem?_eq_none h, Option.join_none]

theorem listener?_register (x : Exchange) (f : String) (n : Nat) :
    (x.step (.register f)).1.listener? n =
      if n = x.slots.length then some ⟨x.router.nextId, f⟩ else x.listener? n := by
  show ((x.slots ++ [some _])[n]?).join = _
  rw [List.getElem?_append, listener?]
  rcases Nat.lt_trichotomy n x.slots.length with hn | hn | hn
  · rw [if_pos hn, if_neg (Nat.ne_of_lt hn)]
  · subst hn
    simp only [Nat.lt_irrefl, if_false, if_true, Nat.sub_self]
    rfl
  · rw [if_neg (by omega), if_neg (by omega), List.getElem?_eq_none (by simp; omega),
      List.getElem?_eq_none (by omega)]

theorem listener?_clear (x : Exchange) (m : Nat) (l : Listener) (n : Nat) :
    (x.clear m l).listener? n = if n = m then none else x.listener? n := by
  show ((x.slots.set m none)[n]?).join = _
  rw [List.getElem?_set, listener?]
  by_cases hn : n = m
  · subst hn
    by_cases hl : n < x.slots.length <;> simp [hl]
  · rw [if_neg (Ne.symm hn), if_neg hn]

theorem coherent_trusting (origin : String) : (trusting origin).Coherent where
  tidy := Router.tidy_trusting origin
  next := rfl
  id := by simp [trusting, listener?]
  waiting := by simp [trusting, listener?, Router.trusting, Router.waitingOn]
  nodup := by simp [trusting, Router.trusting, Router.waitingOn]
  delivered := fun _ _ => rfl

namespace Coherent

theorem register (h : x.Coherent) (f : String) : (x.step (.register f)).1.Coherent := by
  have hempty : x.listener? x.slots.length = none := listener?_of_le (Nat.le_refl _)
  have hnew : ∀ g, x.router.nextId ∉ x.router.waitingOn g := fun g hg => by
    obtain ⟨l, hl, -⟩ := (h.waiting g _).1 hg
    rw [h.next, hempty] at hl
    simp at hl
  refine ⟨h.tidy.register f, ?_, fun n l hl => ?_, fun g n => ?_, fun g => ?_, fun l hl => ?_⟩
  · show x.router.nextId + 1 = (x.slots ++ [_]).length
    rw [h.next, List.length_append, List.length_singleton]
  · rw [listener?_register] at hl
    split at hl
    · rename_i hn
      obtain rfl := Option.some.inj hl
      rw [hn, ← h.next]
    · exact h.id n l hl
  · show n ∈ (x.router.register f).1.waitingOn g ↔ _
    rw [Router.waitingOn_register, listener?_register]
    by_cases hn : n = x.slots.length
    · have hnone : x.router.outcome? ⟨x.router.nextId, f⟩ = none :=
        h.delivered _ (by rw [h.next, hempty])
      have hmem : n ∉ x.router.waitingOn g := by
        rw [hn, ← h.next]
        exact hnew g
      rw [if_pos hn]
      constructor
      · intro hg
        split at hg
        · rename_i hgf
          exact ⟨_, rfl, hgf.symm, hnone⟩
        · exact absurd hg hmem
      · rintro ⟨l, hl, hgf, -⟩
        obtain rfl := Option.some.inj hl
        rw [if_pos hgf.symm, hn, h.next]
        exact List.mem_append_right _ (List.mem_singleton_self _)
    · rw [if_neg hn]
      refine Iff.trans ?_ (h.waiting g n)
      split
      · simp [h.next, hn]
      · exact Iff.rfl
  · show ((x.router.register f).1.waitingOn g).Nodup
    rw [Router.waitingOn_register]
    split
    · refine List.nodup_append.2 ⟨h.nodup g, List.nodup_singleton _, fun a ha b hb => ?_⟩
      rintro rfl
      exact hnew g (List.mem_singleton.1 hb ▸ ha)
    · exact h.nodup g
  · rw [listener?_register] at hl
    split at hl
    · simp at hl
    · exact h.delivered l hl

/-- A listener that waits is on the list of its fingerprint, so a completion that matches resolves
it, and one that has an outcome keeps it. -/
theorem outcome?_dispatch (h : x.Coherent) {n : Nat} {l : Listener} (hl : x.listener? n = some l)
    (c : Completion) : (x.router.dispatch c).1.outcome? l
      = (x.router.outcome? l).or (firstMatch x.router.origin l.fingerprint [c]) := by
  rw [Router.outcome?_dispatch, firstMatch_singleton]
  rcases ho : x.router.outcome? l with _ | o
  · have hmem : l.id ∈ x.router.waitingOn c.fingerprint ↔ c.fingerprint = l.fingerprint := by
      rw [h.id n l hl, h.waiting]
      constructor
      · rintro ⟨m, hm, hc, -⟩
        rw [hl] at hm
        rw [Option.some.inj hm, hc]
      · exact fun hc => ⟨l, hl, hc.symm, ho⟩
    simp only [hmem]
  · rfl

theorem dispatch (h : x.Coherent) (c : Completion) : (x.step (.dispatch c)).1.Coherent := by
  refine ⟨h.tidy.dispatch c, ?_, h.id, fun g n => ?_, fun g => ?_, fun l hl => ?_⟩
  · show (x.router.dispatch c).1.nextId = x.slots.length
    rw [Router.nextId_dispatch, h.next]
  · show n ∈ (x.router.dispatch c).1.waitingOn g ↔ ∃ l, x.listener? n = some l ∧
      l.fingerprint = g ∧ (x.router.dispatch c).1.outcome? l = none
    rw [Router.waitingOn_dispatch]
    split
    · rename_i hc
      refine iff_of_false List.not_mem_nil ?_
      rintro ⟨l, hl, hg, ho⟩
      rw [h.outcome?_dispatch hl, firstMatch_singleton,
        if_pos ⟨hc.1, hc.2.symm.trans hg.symm⟩] at ho
      simp at ho
    · rename_i hc
      rw [h.waiting]
      refine exists_congr fun l => and_congr_right fun hl => and_congr_right fun hg => ?_
      rw [h.outcome?_dispatch hl, firstMatch_singleton,
        if_neg fun hm => hc ⟨hm.1, hg.symm.trans hm.2.symm⟩, Option.or_none]
  · show ((x.router.dispatch c).1.waitingOn g).Nodup
    rw [Router.waitingOn_dispatch]
    split
    · exact List.nodup_nil
    · exact h.nodup g
  · show (x.router.dispatch c).1.outcome? l = none
    have hmem : l.id ∉ x.router.waitingOn c.fingerprint := fun hm => by
      obtain ⟨m, hm, -⟩ := (h.waiting _ _).1 hm
      rw [show x.listener? l.id = none from hl] at hm
      simp at hm
    rw [Router.outcome?_dispatch, if_neg fun hm => hmem hm.2, Option.or_none]
    exact h.delivered l hl

theorem clear (h : x.Coherent) {m : Nat} {l : Listener} (hl : x.listener? m = some l) :
    (x.clear m l).Coherent := by
  have hid := h.id m l hl
  refine ⟨h.tidy.release l, ?_, fun n k hk => ?_, fun g n => ?_, fun g => ?_, fun k hk => ?_⟩
  · show x.router.nextId = (x.slots.set m none).length
    rw [h.next, List.length_set]
  · rw [listener?_clear] at hk
    split at hk
    · simp at hk
    · exact h.id n k hk
  · show n ∈ (x.router.release l).waitingOn g ↔ ∃ k, (x.clear m l).listener? n = some k ∧
      k.fingerprint = g ∧ (x.router.release l).outcome? k = none
    rw [Router.waitingOn_release h.tidy, listener?_clear]
    by_cases hn : n = m
    · subst hn
      refine iff_of_false (fun hmem => ?_) (by simp)
      split at hmem
      · simp [hid] at hmem
      · rename_i hg
        obtain ⟨k, hk, rfl, -⟩ := (h.waiting _ _).1 hmem
        rw [hl] at hk
        exact hg (by rw [Option.some.inj hk])
    · have hmem : n ∈ (if g = l.fingerprint then (x.router.waitingOn g).filter (· ≠ l.id)
          else x.router.waitingOn g) ↔ n ∈ x.router.waitingOn g := by
        split
        · simp [hid, hn]
        · exact Iff.rfl
      rw [hmem, if_neg hn, h.waiting]
      refine exists_congr fun k => and_congr_right fun hk => and_congr_right fun _ => ?_
      rw [Router.outcome?_release, if_neg (by rw [h.id n k hk, hid]; exact hn)]
  · show ((x.router.release l).waitingOn g).Nodup
    rw [Router.waitingOn_release h.tidy]
    split
    · exact (h.nodup g).filter _
    · exact h.nodup g
  · show (x.router.release l).outcome? k = none
    rw [Router.outcome?_release]
    split
    · rfl
    · rename_i hne
      rw [listener?_clear, if_neg fun hn => hne (hn.trans hid.symm)] at hk
      exact h.delivered k hk

end Coherent

/-- Completions that come over a channel are dispatched one by one. -/
theorem step_listen_cons (x : Exchange) (c : Completion) (cs : List Completion) :
    (x.step (.listen (c :: cs))).1 = ((x.step (.dispatch c)).1.step (.listen cs)).1 :=
  rfl

theorem step_listen_eq_run : ∀ (x : Exchange) (cs : List Completion),
    (x.step (.listen cs)).1 = (x.run (cs.map .dispatch)).1
  | _, [] => rfl
  | x, c :: cs => step_listen_eq_run (x.step (.dispatch c)).1 cs

theorem Coherent.listen : ∀ (cs : List Completion) {x : Exchange}, x.Coherent →
    (x.step (.listen cs)).1.Coherent
  | [], _, h => h
  | c :: cs, x, h => by
    rw [step_listen_cons]
    exact Coherent.listen cs (h.dispatch c)

theorem Coherent.step (h : x.Coherent) (s : Step) : (x.step s).1.Coherent := by
  cases s with
  | register f => exact h.register f
  | dispatch c => exact h.dispatch c
  | listen cs => exact .listen cs h
  | drop n | wait n =>
    simp only [Exchange.step]
    split
    · exact h.clear ‹_›
    · exact h

@[simp] theorem origin_step (x : Exchange) (s : Step) :
    (x.step s).1.router.origin = x.router.origin := by
  cases s with
  | register f => rfl
  | dispatch c => exact Router.origin_dispatch _ c
  | listen cs =>
    induction cs generalizing x with
    | nil => rfl
    | cons c cs ih => rw [step_listen_cons, ih, step, Router.origin_dispatch]
  | drop n | wait n =>
    simp only [step]
    split <;> rfl

theorem length_slots_step (x : Exchange) (s : Step) :
    (x.step s).1.slots.length = x.slots.length + if s.isRegister then 1 else 0 := by
  cases s with
  | register f => exact List.length_append
  | dispatch c | listen cs => rfl
  | drop n | wait n =>
    simp only [step]
    split
    · exact List.length_set
    · rfl

/-- Slots are not used again, so what is in one stays there until it ends. -/
theorem listener?_step {n : Nat} (hn : n < x.slots.length) (s : Step) :
    (x.step s).1.listener? n = if s.ends n then none else x.listener? n := by
  cases s with
  | register f =>
    rw [listener?_register, if_neg (Nat.ne_of_lt hn)]
    rfl
  | dispatch c | listen cs => rfl
  | drop m | wait m =>
    simp only [step, Step.ends, decide_eq_true_eq, eq_comm (a := m)]
    split
    · exact listener?_clear x m _ n
    · rename_i hm
      split
      · rename_i hnm
        rw [hnm, hm]
      · rfl

theorem outcome?_listen {n : Nat} {l : Listener} : ∀ (cs : List Completion) {x : Exchange},
    x.Coherent → x.listener? n = some l → (x.router.listen cs).outcome? l
      = (x.router.outcome? l).or (firstMatch x.router.origin l.fingerprint cs)
  | [], _, _, _ => (Option.or_none).symm
  | c :: cs, x, h, hl => by
    have ih := outcome?_listen cs (h.dispatch c) hl
    rw [origin_step] at ih
    have hc := firstMatch_append x.router.origin l.fingerprint [c] cs
    rw [List.singleton_append] at hc
    rw [hc, ← Option.or_assoc, ← h.outcome?_dispatch hl]
    exact ih

/-- A step delivers to a listener that it does not end the first match, if nothing was delivered
before. -/
theorem outcome?_step (h : x.Coherent) {n : Nat} {l : Listener} (hl : x.listener? n = some l)
    {s : Step} (hs : s.ends n = false) : (x.step s).1.router.outcome? l
      = (x.router.outcome? l).or (firstMatch x.router.origin l.fingerprint s.completions) := by
  cases s with
  | register f => exact (Option.or_none).symm
  | dispatch c => exact h.outcome?_dispatch hl c
  | listen cs => exact outcome?_listen cs h hl
  | drop m | wait m =>
    simp only [Step.ends, decide_eq_false_iff_not] at hs
    simp only [step]
    split
    · rename_i k hk
      have hne : l.id ≠ k.id := by
        rw [h.id n l hl, h.id m k hk]
        exact Ne.symm hs
      show (x.router.release k).outcome? l = _
      rw [Router.outcome?_release, if_neg hne]
      exact (Option.or_none).symm
    · exact (Option.or_none).symm

section Run

theorem run_cons (x : Exchange) (s : Step) (ss : List Step) :
    (x.run (s :: ss)).1 = ((x.step s).1.run ss).1 :=
  rfl

theorem run_append : ∀ (x : Exchange) (ss ts : List Step),
    (x.run (ss ++ ts)).1 = ((x.run ss).1.run ts).1
  | _, [], _ => rfl
  | x, s :: ss, ts => run_append (x.step s).1 ss ts

theorem Coherent.run : ∀ (ss : List Step) {x : Exchange}, x.Coherent → (x.run ss).1.Coherent
  | [], _, h => h
  | s :: ss, _, h => Coherent.run ss (h.step s)

theorem coherent_run (origin : String) (ss : List Step) :
    ((trusting origin).run ss).1.Coherent :=
  .run ss (coherent_trusting origin)

theorem origin_run : ∀ (x : Exchange) (ss : List Step),
    (x.run ss).1.router.origin = x.router.origin
  | _, [] => rfl
  | x, s :: ss => by rw [run_cons, origin_run, origin_step]

theorem length_slots_run : ∀ (x : Exchange) (ss : List Step),
    (x.run ss).1.slots.length = x.slots.length + ss.countP Step.isRegister
  | _, [] => rfl
  | x, s :: ss => by
    rw [run_cons, length_slots_run, length_slots_step, List.countP_cons]
    omega

/-- What was in a slot at the start is in it at the end if no step ended it. -/
theorem listener?_run {n : Nat} : ∀ (ss : List Step) {x : Exchange}, n < x.slots.length →
    (x.run ss).1.listener? n = if ss.any (Step.ends n) then none else x.listener? n
  | [], _, _ => rfl
  | s :: ss, x, hn => by
    have hlen := length_slots_step x s
    rw [run_cons, listener?_run ss (by omega), listener?_step hn, List.any_cons]
    cases s.ends n <;> cases ss.any (Step.ends n) <;> rfl

/-- A run delivers to a listener that it does not end the first match of all its completions, if
nothing was delivered before. -/
theorem outcome?_run {n : Nat} {l : Listener} : ∀ (ss : List Step) {x : Exchange},
    x.Coherent → x.listener? n = some l → (∀ s ∈ ss, s.ends n = false) →
      (x.run ss).1.router.outcome? l = (x.router.outcome? l).or
        (firstMatch x.router.origin l.fingerprint (ss.flatMap Step.completions))
  | [], _, _, _, _ => (Option.or_none).symm
  | s :: ss, x, h, hl, hs => by
    have hhead := hs s List.mem_cons_self
    have hl' : (x.step s).1.listener? n = some l := by
      rw [listener?_step (lt_of_listener? hl), hhead]
      exact hl
    rw [run_cons, outcome?_run ss (h.step s) hl' fun t ht => hs t (List.mem_cons_of_mem s ht),
      outcome?_step h hl hhead, origin_step, List.flatMap_cons, firstMatch_append, Option.or_assoc]

end Run

end GraphBlock.Exchange
