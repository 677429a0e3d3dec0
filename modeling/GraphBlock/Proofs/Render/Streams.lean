import GraphBlock.Proofs.Render.Listeners

/-!
# Of a stream the first matches count

To listen to a stream takes those fingerprints off the registry for which there is a completion
from the trusted origin in it (`Router.waiting_listen`), and each listener gets the first of them.
So two streams with the same first matches leave what looks the same, in whatever order they come
and whatever else is in them (`Coherent.sameView_listen`).  A step is answered by what the exchange
looks like and leaves what looks the same (`SameView.step`), and so does every run
(`SameView.run`).
-/

namespace GraphBlock

namespace Router

theorem waiting_dispatch (r : Router) (c : Completion) : (r.dispatch c).1.waiting
    = r.waiting.filter fun e => (Exchange.firstMatch r.origin e.1 [c]).isNone := by
  unfold dispatch
  split_ifs with ho
  · refine List.filter_congr fun e _ => ?_
    rw [Exchange.firstMatch_singleton]
    by_cases he : e.1 = c.fingerprint
    · simp [he, ho]
    · simp [he, Ne.symm he]
  · refine (List.filter_eq_self.2 fun e _ => ?_).symm
    rw [Exchange.firstMatch_singleton, if_neg fun h => ho h.1]
    rfl

/-- Who waits on a fingerprint with a match in the stream is resolved, and all others wait on. -/
theorem waiting_listen : ∀ (cs : List Completion) (r : Router), (r.listen cs).waiting
    = r.waiting.filter fun e => (Exchange.firstMatch r.origin e.1 cs).isNone
  | [], r => (List.filter_eq_self.2 fun _ _ => rfl).symm
  | c :: cs, r => by
    have ih := waiting_listen cs (r.dispatch c).1
    rw [origin_dispatch, waiting_dispatch, List.filter_filter] at ih
    refine ih.trans (List.filter_congr fun e _ => ?_)
    have hc := Exchange.firstMatch_append r.origin e.1 [c] cs
    rw [List.singleton_append] at hc
    rw [hc]
    cases Exchange.firstMatch r.origin e.1 [c] <;> simp

theorem nextId_listen : ∀ (cs : List Completion) (r : Router), (r.listen cs).nextId = r.nextId
  | [], _ => rfl
  | c :: cs, r => (nextId_listen cs (r.dispatch c).1).trans (nextId_dispatch r c)

end Router

namespace Exchange

variable {x y : Exchange}

/-- Two exchanges that look the same: they differ at most in the order of what was delivered. -/
structure SameView (x y : Exchange) : Prop where
  origin : x.router.origin = y.router.origin
  waiting : x.router.waiting = y.router.waiting
  nextId : x.router.nextId = y.router.nextId
  slots : x.slots = y.slots
  outcome? : ∀ l, x.router.outcome? l = y.router.outcome? l

namespace SameView

theorem listener? (h : SameView x y) (n : Nat) : x.listener? n = y.listener? n := by
  unfold Exchange.listener?
  rw [h.slots]

theorem waitingOn (h : SameView x y) (f : String) :
    x.router.waitingOn f = y.router.waitingOn f := by
  unfold Router.waitingOn
  rw [h.waiting]

theorem register (h : SameView x y) (f : String) :
    SameView (x.step (.register f)).1 (y.step (.register f)).1 := by
  refine ⟨h.origin, ?_, ?_, ?_, h.outcome?⟩
  · show Router.enrol f x.router.nextId x.router.waiting
      = Router.enrol f y.router.nextId y.router.waiting
    rw [h.nextId, h.waiting]
  · show x.router.nextId + 1 = y.router.nextId + 1
    rw [h.nextId]
  · show x.slots ++ [some ⟨x.router.nextId, f⟩] = y.slots ++ [some ⟨y.router.nextId, f⟩]
    rw [h.slots, h.nextId]

theorem dispatch (h : SameView x y) (c : Completion) :
    SameView (x.step (.dispatch c)).1 (y.step (.dispatch c)).1 := by
  refine ⟨?_, ?_, ?_, h.slots, fun l => ?_⟩
  · rw [origin_step, origin_step, h.origin]
  · show (x.router.dispatch c).1.waiting = (y.router.dispatch c).1.waiting
    rw [Router.waiting_dispatch, Router.waiting_dispatch, h.waiting, h.origin]
  · show (x.router.dispatch c).1.nextId = (y.router.dispatch c).1.nextId
    rw [Router.nextId_dispatch, Router.nextId_dispatch, h.nextId]
  · show (x.router.dispatch c).1.outcome? l = (y.router.dispatch c).1.outcome? l
    rw [Router.outcome?_dispatch, Router.outcome?_dispatch, h.outcome?, h.origin, h.waitingOn]

theorem listen : ∀ (cs : List Completion) {x y : Exchange}, SameView x y →
    SameView (x.step (.listen cs)).1 (y.step (.listen cs)).1
  | [], _, _, h => h
  | c :: cs, x, y, h => by
    rw [step_listen_cons, step_listen_cons]
    exact listen cs (h.dispatch c)

theorem clear (h : SameView x y) (n : Nat) (l : Listener) :
    SameView (x.clear n l) (y.clear n l) := by
  refine ⟨h.origin, ?_, h.nextId, ?_, fun k => ?_⟩
  · show Router.strike l.fingerprint l.id x.router.waiting
      = Router.strike l.fingerprint l.id y.router.waiting
    rw [h.waiting]
  · show x.slots.set n none = y.slots.set n none
    rw [h.slots]
  · show (x.router.release l).outcome? k = (y.router.release l).outcome? k
    rw [Router.outcome?_release, Router.outcome?_release, h.outcome?]

/-- What looks the same answers a step alike and looks the same behind it. -/
theorem step (h : SameView x y) (s : Step) :
    (x.step s).2 = (y.step s).2 ∧ SameView (x.step s).1 (y.step s).1 := by
  cases s with
  | register f =>
    refine ⟨?_, h.register f⟩
    show Answer.registered x.slots.length = .registered y.slots.length
    rw [h.slots]
  | dispatch c =>
    refine ⟨?_, h.dispatch c⟩
    simp only [Exchange.step, Router.dispatch, h.origin, h.waitingOn]
    split_ifs <;> rfl
  | listen cs => exact ⟨rfl, .listen cs h⟩
  | drop n =>
    simp only [Exchange.step, h.listener? n]
    rcases y.listener? n with _ | l
    · exact ⟨rfl, h⟩
    · exact ⟨rfl, h.clear n l⟩
  | wait n =>
    simp only [Exchange.step, h.listener? n, h.outcome?]
    rcases y.listener? n with _ | l
    · exact ⟨rfl, h⟩
    · exact ⟨rfl, h.clear n l⟩

theorem run : ∀ (ss : List Step) {x y : Exchange}, SameView x y →
    (x.run ss).2 = (y.run ss).2 ∧ SameView (x.run ss).1 (y.run ss).1
  | [], _, _, h => ⟨rfl, h⟩
  | s :: ss, x, y, h => by
    obtain ⟨ha, hs⟩ := h.step s
    obtain ⟨has, hss⟩ := run ss hs
    exact ⟨List.cons_eq_cons.2 ⟨ha, has⟩, hss⟩

end SameView

/-- Two streams with the same first matches leave what looks the same. -/
theorem Coherent.sameView_listen (h : x.Coherent) {cs ds : List Completion}
    (hfirst : ∀ f, firstMatch x.router.origin f cs = firstMatch x.router.origin f ds) :
    SameView (x.step (.listen cs)).1 (x.step (.listen ds)).1 := by
  refine ⟨?_, ?_, ?_, rfl, fun l => ?_⟩
  · rw [origin_step, origin_step]
  · show (x.router.listen cs).waiting = (x.router.listen ds).waiting
    simp only [Router.waiting_listen, hfirst]
  · show (x.router.listen cs).nextId = (x.router.listen ds).nextId
    rw [Router.nextId_listen, Router.nextId_listen]
  · rcases hl : x.listener? l.id with _ | k
    · -- nothing is delivered to a listener that is in no slot
      rw [(Coherent.listen cs h).delivered l hl, (Coherent.listen ds h).delivered l hl]
    · have hid : k.id = l.id := h.id _ _ hl
      have hk : (x.router.listen cs).outcome? k = (x.router.listen ds).outcome? k := by
        rw [outcome?_listen cs h hl, outcome?_listen ds h hl, hfirst]
      unfold Router.outcome? at hk
      rw [hid] at hk
      exact hk

/-- In whatever state, two streams that have the same first completion from the trusted origin for
each fingerprint leave the same listeners waiting, and whatever is done later, every answer is the
same, those to waits among them.  To listen to a stream is to dispatch its completions one by
one. -/
theorem first_matches_of_stream_count (origin : String) (steps : List Step)
    (cs ds : List Completion) (h : ∀ f, firstMatch origin f cs = firstMatch origin f ds) :
    let x := ((trusting origin).run steps).1
    let y := (x.step (.listen cs)).1
    let z := (x.step (.listen ds)).1
    y.router.waiting = z.router.waiting
      ∧ (∀ later, (y.run later).2 = (z.run later).2
        ∧ (y.run later).1.router.waiting = (z.run later).1.router.waiting
        ∧ ∀ n, ((y.run later).1.step (.wait n)).2 = ((z.run later).1.step (.wait n)).2)
      ∧ y = (x.run (cs.map .dispatch)).1 ∧ z = (x.run (ds.map .dispatch)).1 := by
  intro x y z
  have horigin : x.router.origin = origin := origin_run (trusting origin) steps
  have hview : SameView y z := by
    refine (coherent_run origin steps).sameView_listen fun f => ?_
    rw [horigin]
    exact h f
  refine ⟨hview.waiting, fun later => ?_, step_listen_eq_run x cs, step_listen_eq_run x ds⟩
  obtain ⟨hanswers, hlater⟩ := hview.run later
  exact ⟨hanswers, hlater.waiting, fun n => (hlater.step (.wait n)).1⟩

/-- The other order, with a forged completion in front and a repeated one behind. -/
theorem first_matches_of_stream_count_forged :
    let o : Outcome := .success [1]
    let cs : List Completion := [⟨"a", "f", o⟩, ⟨"a", "g", .failure "no"⟩]
    let ds : List Completion :=
      [⟨"b", "f", .success [0]⟩, ⟨"a", "g", .failure "no"⟩, ⟨"a", "f", o⟩, ⟨"a", "g", o⟩]
    let x := ((trusting "a").run [.register "f", .register "g", .register "h"]).1
    let y := (x.step (.listen cs)).1
    let z := (x.step (.listen ds)).1
    y ≠ z ∧ y.router.waiting = [("h", [2])] ∧ z.router.waiting = [("h", [2])]
      ∧ (z.step (.wait 0)).2 = .outcome o ∧ (z.step (.wait 1)).2 = .outcome (.failure "no") := by
  intro o cs ds x y z
  have hfirst : ∀ f, firstMatch "a" f cs = firstMatch "a" f ds := by
    intro f
    by_cases hf : f = "f"
    · subst hf
      rfl
    · by_cases hg : f = "g"
      · subst hg
        rfl
      · simp [cs, ds, firstMatch, Ne.symm hf, Ne.symm hg]
  obtain ⟨hwaiting, hlater, -⟩ := first_matches_of_stream_count "a"
    [.register "f", .register "g", .register "h"] cs ds hfirst
  obtain ⟨-, -, hwait⟩ := hlater []
  exact ⟨by decide, rfl, hwaiting.symm, (hwait 0).symm, (hwait 1).symm⟩

end Exchange

end GraphBlock
