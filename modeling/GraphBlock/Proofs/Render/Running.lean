import GraphBlock.Proofs.Render.Steps

/-!
# No render is lost and none is leaked

A render runs while it is in flight and no outcome was delivered for it.  In every state of a
session as many renders of a fingerprint run as the router has pending, and a completion for the
fingerprint of a running render ends all running renders of that fingerprint with its outcome and
no render of another (`running_renders_are_pending`).  A render in flight that does not run any
more got its outcome from the replies to a batch, and it ends when it is polled or with the next
running renders of its fingerprint.
-/

namespace GraphBlock.Session

open Disk Stage

variable {H : History} {P : String → Outcome → Prop} {s s' : Session} {d d' : Disk} {f : String}
  {i : Nat}

/-- Whether a render of this fingerprint waits for its outcome. -/
def waits (r : Router) (f : String) (x : String × Option PendingRender) : Bool :=
  x.2.any fun p => x.1 = f ∧ r.outcome? p.listener = none

/-- The numbers of the renders of a fingerprint that wait for their outcome. -/
def running (s : Session) (f : String) : List Nat :=
  (s.renders.zipIdx.filter fun x => waits s.coordinator.router f x.1).map Prod.snd

/-- The outcome was the reply to a request of a batch. -/
def Replied (H : History) (f : String) (o : Outcome) : Prop :=
  ∃ specs root reply results submitted,
    (Event.step (.renderAll specs root reply), some (Answer.rendered results submitted)) ∈ H
      ∧ f ∈ submitted ∧ reply f = some o

/-- The render of this number submitted this request. -/
def Submitted (H : History) (i : Nat) (request : PlotRequest) : Prop :=
  ∃ e p, (e, some (Answer.started i (.waiting p request))) ∈ H

theorem mem_running : i ∈ s.running f ↔ ∃ p, s.renders[i]? = some (f, some p)
    ∧ s.coordinator.router.outcome? p.listener = none := by
  simp only [running, List.mem_map, List.mem_filter]
  constructor
  · rintro ⟨⟨⟨g, w⟩, j⟩, ⟨hx, hw⟩, rfl⟩
    obtain ⟨p, rfl, hp⟩ := (Option.any_eq_true _ _).1 hw
    obtain ⟨rfl, hnone⟩ := of_decide_eq_true hp
    exact ⟨p, List.mk_mem_zipIdx_iff_getElem?.1 hx, hnone⟩
  · rintro ⟨p, hi, hnone⟩
    exact ⟨((f, some p), i), ⟨List.mk_mem_zipIdx_iff_getElem?.2 hi, by simp [waits, hnone]⟩, rfl⟩

/-- The router and the list of renders agree, and each outcome of a render in flight has this
property. -/
structure Accounted (P : String → Outcome → Prop) (s : Session) (d : Disk) : Prop where
  routed : (s.stage d).Routed
  vouched : (s.stage d).Vouched P
  key : ∀ f p, (f, some p) ∈ s.renders → p.fingerprint = f

theorem mem_inFlight {p : PendingRender} (hp : p ∈ s.inFlight) : ∃ g, (g, some p) ∈ s.renders := by
  obtain ⟨⟨g, w⟩, hx, rfl⟩ := List.mem_filterMap.1 hp
  exact ⟨g, hx⟩

theorem inFlight_of_mem {g : String} {p : PendingRender} (hp : (g, some p) ∈ s.renders) :
    p ∈ s.inFlight :=
  List.mem_filterMap.2 ⟨_, hp, rfl⟩

namespace Accounted

theorem pending_eq (h : Accounted P s d) (f : String) :
    s.coordinator.router.pending f = (s.running f).length := by
  have hp := h.routed.serves.pending_eq f
  rw [stage] at hp
  rw [hp, running, List.length_map, ← List.countP_eq_length_filter, List.countP_map]
  have hzip : s.renders.zipIdx.countP (fun x => waits s.coordinator.router f x.1)
      = s.renders.countP (waits s.coordinator.router f) := by
    have hmap := List.countP_map (p := waits s.coordinator.router f) (f := Prod.fst)
      (l := s.renders.zipIdx)
    rw [List.zipIdx_map_fst] at hmap
    exact hmap.symm
  rw [hzip, inFlight, List.countP_filterMap]
  refine List.countP_congr fun x hx => ?_
  obtain ⟨g, w⟩ := x
  rcases w with _ | p
  · simp [waits]
  · have hfp := h.routed.key p (inFlight_of_mem hx)
    rw [h.key g p hx] at hfp
    simp [waits, hfp]

theorem imp {Q : String → Outcome → Prop} (h : Accounted P s d) (hPQ : ∀ f o, P f o → Q f o) :
    Accounted Q s d :=
  ⟨h.routed, h.vouched.imp hPQ, h.key⟩

theorem start (h : Accounted P s d) {spec : Spec} {root : Path} {st : Started}
    (hs : (s.start spec root : StateM Disk _).run d = ((s', st), d')) : Accounted P s' d' := by
  obtain ⟨hm, hrenders, -, -, hb⟩ := start_spec hs
  refine ⟨hm.routed h.routed, hm.vouched h.routed h.vouched, fun f p hp => ?_⟩
  rw [hrenders] at hp
  rcases List.mem_append.1 hp with hp | hp
  · exact h.key f p hp
  · obtain ⟨rfl, hst⟩ := Prod.mk.inj (List.mem_singleton.1 hp)
    rcases st with r | ⟨q, request⟩
    · simp [render?] at hst
    · obtain rfl := Option.some.inj hst
      exact hb.2.2

/-- Who was waiting has the outcome now, and nobody else got it. -/
theorem outcome?_dispatch (h : Accounted P s d) {p : PendingRender} (hp : p ∈ s.inFlight)
    (c : Completion) : (s.coordinator.router.dispatch c).1.outcome? p.listener
      = (s.coordinator.router.outcome? p.listener).or
        (if c.origin = s.coordinator.router.origin ∧ c.fingerprint = p.fingerprint then
          some c.outcome else none) := by
  rw [← h.routed.key p hp, ← Exchange.firstMatch_singleton]
  exact h.routed.serves.outcome?_dispatch (List.mem_map_of_mem hp) c

/-- What is there after a completion was there before, or is the completion's and resolved
somebody. -/
theorem vouched_dispatch {Q : String → Outcome → Prop} (h : Accounted P s d) {c : Completion}
    (hold : ∀ f o, P f o → Q f o)
    (hnew : c.origin = s.coordinator.router.origin →
      0 < (s.coordinator.router.dispatch c).2 → Q c.fingerprint c.outcome) :
    Vouched Q ⟨{ s.coordinator with router := (s.coordinator.router.dispatch c).1 },
      s.inFlight, d⟩ := by
  intro p hp o ho
  by_cases h0 : (s.coordinator.router.dispatch c).2 = 0
  · refine hold _ _ (h.vouched p hp o ?_)
    rw [← ho]
    exact (Router.outcome?_dispatch_of_zero h0 p.listener).symm
  · rw [h.outcome?_dispatch hp] at ho
    rcases Option.or_eq_some_iff.1 ho with ho | ⟨-, ho⟩
    · exact hold _ _ (h.vouched p hp o ho)
    · split_ifs at ho with hm
      obtain rfl := Option.some.inj ho
      exact hm.2 ▸ hnew hm.1 (Nat.pos_of_ne_zero h0)

theorem dispatch (h : Accounted P s d) {c : Completion} {late : Bool} {n : Nat}
    {ended : List (Nat × RenderResult)}
    (hs : (s.dispatch c late : StateM Disk _).run d = ((s', n, ended), d')) :
    Accounted P s' d' := by
  obtain ⟨hn, hm, hcase⟩ := dispatch_spec hs h.routed
  have hr' : Routed ⟨{ s.coordinator with router := (s.coordinator.router.dispatch c).1 },
      s.inFlight, d⟩ := ⟨h.routed.serves.dispatch c, h.routed.key⟩
  -- The new outcome need not have the property, but who gets it ends in the same step.
  rcases hcase with ⟨h0, hrenders, -⟩ | ⟨-, hfin⟩
  · refine ⟨hm.routed hr', hm.vouched hr' fun p hp o ho => h.vouched p hp o ?_, ?_⟩
    · rw [← ho]
      exact (Router.outcome?_dispatch_of_zero (hn.symm.trans h0) p.listener).symm
    · rw [hrenders]
      exact h.key
  · have hmem : ∀ g p, (g, some p) ∈ s'.renders → (g, some p) ∈ s.renders
        ∧ resolved (s.coordinator.router.dispatch c).1 (s.wakes c.fingerprint late) (g, some p)
          = false := by
      intro g p hp
      obtain ⟨⟨j, hj⟩, hno⟩ := hfin.mem_of_mem hp
      exact ⟨List.mem_of_getElem? (List.mk_mem_zipIdx_iff_getElem?.1 hj), hno⟩
    refine ⟨hm.routed hr', fun p hp o ho => ?_, fun g p hp => h.key g p (hmem g p hp).1⟩
    have ho := hm.outcome?_of ho
    obtain ⟨g, hg⟩ := mem_inFlight hp
    obtain ⟨hold, hno⟩ := hmem g p hg
    have hno : s.wakes c.fingerprint late g p = false := by simpa [resolved, ho] using hno
    rw [h.outcome?_dispatch (inFlight_of_mem hold), h.key g p hold] at ho
    rcases Option.or_eq_some_iff.1 ho with ho | ⟨hnone, ho⟩
    · exact h.vouched p (inFlight_of_mem hold) o ho
    · split_ifs at ho with hc
      simp [wakes, hc.2, hnone] at hno

theorem poll (h : Accounted P s d) {f : String} {ended : List (Nat × RenderResult)}
    (hs : (s.poll f : StateM Disk _).run d = ((s', ended), d')) : Accounted P s' d' := by
  obtain ⟨hm, hfin⟩ := poll_spec hs h.routed
  refine ⟨hm.routed h.routed, hm.vouched h.routed h.vouched, fun g p hp => h.key g p ?_⟩
  obtain ⟨⟨j, hj⟩, -⟩ := hfin.mem_of_mem hp
  exact List.mem_of_getElem? (List.mk_mem_zipIdx_iff_getElem?.1 hj)

theorem abort (h : Accounted P s d) (i : Nat) : Accounted P (s.abort i).1 d := by
  rcases abort_spec s i with he | ⟨f, p, as, bs, hi, hfl, hfl', hrenders, hc⟩
  · rw [he]
    exact h
  · have hst : s.stage d = ⟨s.coordinator, as ++ p :: bs, d⟩ := by rw [stage, hfl]
    have hst' : (s.abort i).1.stage d = ⟨s.coordinator.abandon p, as ++ bs, d⟩ := by
      rw [stage, hfl', hc]
    refine ⟨?_, ?_, fun g q hq => ?_⟩
    · rw [hst']
      exact (hst ▸ h.routed).release s.coordinator.images d
    · rw [hst']
      exact (hst ▸ h.vouched).release s.coordinator.images d
    · rw [hrenders] at hq
      rcases List.mem_or_eq_of_mem_set hq with hq | hq
      · exact h.key g q hq
      · simp at hq

theorem renderAll (h : Accounted P s d) {specs : List Spec} {root : Path}
    {reply : String → Option Outcome} {results : List (Option RenderResult)}
    {submitted : List String}
    (hs : (s.renderAll specs root reply : StateM Disk _).run d = ((s', results, submitted), d'))
    (hP : ∀ f ∈ submitted, ∀ o, reply f = some o → P f o) : Accounted P s' d' := by
  obtain ⟨c, batch, hb⟩ := renderAll_spec hs h.routed
  have hr := hb.listened h.routed
  refine ⟨hb.ended.routed hr, hb.ended.vouched hr (hb.vouched h.routed h.vouched hP), ?_⟩
  rw [hb.renders]
  exact h.key

/-- After a completion that reaches somebody, every render of its fingerprint has its outcome. -/
theorem resolved_dispatch (h : Accounted P s d) (f : String) (o : Outcome) (late : Bool)
    {x : String × Option PendingRender} (hx : x ∈ s.renders) :
    resolved (s.coordinator.router.dispatch ⟨s.coordinator.router.origin, f, o⟩).1
        (s.wakes f late) x
      = if late then decide (x.1 = f) && x.2.isSome else waits s.coordinator.router f x := by
  obtain ⟨g, _ | p⟩ := x
  · simp [resolved, waits]
  · by_cases hg : g = f
    · have hout := h.outcome?_dispatch (inFlight_of_mem hx) ⟨s.coordinator.router.origin, f, o⟩
      rw [if_pos ⟨rfl, (hg ▸ h.key g p hx).symm⟩] at hout
      simp only [resolved, Option.any_some, hout, wakes, waits, hg]
      cases late <;> cases s.coordinator.router.outcome? p.listener <;> rfl
    · simp [resolved, wakes, waits, hg]

section Delivery

variable {o : Outcome} {late : Bool} {n : Nat} {ended : List (Nat × RenderResult)}

theorem finished_dispatch (h : Accounted P s d) (hf : s.running f ≠ [])
    (hs : (s.dispatch ⟨s.coordinator.router.origin, f, o⟩ late : StateM Disk _).run d
      = ((s', n, ended), d')) :
    n = (s.running f).length
      ∧ Finished (s.wakes f late) [] s.renders.zipIdx { s.coordinator with router :=
          (s.coordinator.router.dispatch ⟨s.coordinator.router.origin, f, o⟩).1 } d
          s'.coordinator s'.renders ended d' := by
  obtain ⟨hn, -, hcase⟩ := dispatch_spec hs h.routed
  have hlen : n = (s.running f).length := by
    rw [hn, Router.dispatch, if_pos rfl, ← h.pending_eq f]
    rfl
  rcases hcase with ⟨h0, -⟩ | ⟨-, hfin⟩
  · exact absurd (List.length_eq_zero_iff.1 (hlen.symm.trans h0)) hf
  · exact ⟨hlen, hfin⟩

/-- The slots of the fingerprint become vacant, and no other slot changes. -/
theorem renders_dispatch (h : Accounted P s d) (hf : s.running f ≠ [])
    (hs : (s.dispatch ⟨s.coordinator.router.origin, f, o⟩ : StateM Disk _).run d
      = ((s', n, ended), d')) :
    s'.renders = s.renders.map fun x => if x.1 = f then (f, none) else x := by
  obtain ⟨-, hfin⟩ := h.finished_dispatch hf hs
  rw [hfin.renders_eq]
  refine List.map_congr_left fun x hx => ?_
  rw [remaining, h.resolved_dispatch _ _ _ hx]
  obtain ⟨g, _ | p⟩ := x <;> by_cases hg : g = f <;> simp [hg]

/-- Who waits afterwards waited before, for another fingerprint. -/
theorem waits_dispatch (h : Accounted P s d) (hf : s.running f ≠ [])
    (hs : (s.dispatch ⟨s.coordinator.router.origin, f, o⟩ late : StateM Disk _).run d
      = ((s', n, ended), d')) (g : String) {x : String × Option PendingRender}
    (hx : x ∈ s.renders) :
    waits s'.coordinator.router g (remaining (s.coordinator.router.dispatch
        ⟨s.coordinator.router.origin, f, o⟩).1 (s.wakes f late) x)
      = (decide (g ≠ f) && waits s.coordinator.router g x) := by
  obtain ⟨-, hm, -⟩ := dispatch_spec hs h.routed
  have hslot := (h.finished_dispatch hf hs).2.renders_eq ▸ List.mem_map_of_mem hx
  have hres := h.resolved_dispatch f o late hx
  obtain ⟨k, _ | p⟩ := x
  · simp [waits, remaining]
  have hkey : p.fingerprint = k := h.key k p hx
  cases hb : resolved (s.coordinator.router.dispatch ⟨s.coordinator.router.origin, f, o⟩).1
    (s.wakes f late) (k, some p) <;> simp only [remaining, hb, if_true, if_false,
      Bool.false_eq_true] at hslot ⊢ <;> rw [hb] at hres
  · have hout : s'.coordinator.router.outcome? p.listener = _ := hm.outcome?_eq
      ⟨h.routed.serves.dispatch _, h.routed.key⟩ (inFlight_of_mem hx) (inFlight_of_mem hslot)
    rw [h.outcome?_dispatch (inFlight_of_mem hx), hkey] at hout
    by_cases hk : k = f
    · -- The render was resolved before, and so it does not wait now either.
      have hold : s.coordinator.router.outcome? p.listener ≠ none := fun hnone => by
        cases late <;> simp [hk, waits, hnone] at hres
      obtain ⟨o', ho'⟩ := Option.ne_none_iff_exists'.1 hold
      simp [waits, hout, ho']
    · rw [if_neg fun he => hk he.2.symm, Option.or_none] at hout
      simp only [waits, Option.any_some, hout]
      by_cases hg : k = g
      · simp [hg, hg ▸ hk]
      · simp [hg]
  · have hk : k = f := by
      by_contra hk
      cases late <;> simp [hk, waits] at hres
    by_cases hg : g = f
    · simp [waits, hg]
    · simp [waits, hk, Ne.symm hg]

theorem running_dispatch (h : Accounted P s d) (hf : s.running f ≠ [])
    (hs : (s.dispatch ⟨s.coordinator.router.origin, f, o⟩ late : StateM Disk _).run d
      = ((s', n, ended), d')) (g : String) :
    s'.running g = if g = f then [] else s.running g := by
  have hrenders := (h.finished_dispatch hf hs).2.renders_eq
  have hrun : s'.running g = (s.renders.zipIdx.filter fun x =>
      decide (g ≠ f) && waits s.coordinator.router g x.1).map Prod.snd := by
    rw [running, hrenders, List.zipIdx_map, List.filter_map, List.map_map]
    refine congrArg (List.map Prod.snd) (List.filter_congr fun x hx => ?_)
    exact h.waits_dispatch hf hs g (List.mem_of_getElem? (List.mk_mem_zipIdx_iff_getElem?.1 hx))
  rw [hrun]
  split_ifs with hg
  · simp [hg]
  · simp [hg, running]

/-- The running renders end with the outcome, and who else ends had an outcome before. -/
theorem ended_dispatch (h : Accounted P s d) (hf : s.running f ≠ [])
    (hs : (s.dispatch ⟨s.coordinator.router.origin, f, o⟩ late : StateM Disk _).run d
      = ((s', n, ended), d')) :
    (ended.map Prod.fst).Pairwise (· < ·)
      ∧ (∀ i ∈ s.running f, ∃ result, (i, result) ∈ ended ∧ o.Settles f result)
      ∧ ∀ i result, (i, result) ∈ ended → i ∉ s.running f →
          ∃ p o', s.renders[i]? = some (f, some p) ∧ P f o' ∧ o'.Settles f result := by
  obtain ⟨-, hfin⟩ := h.finished_dispatch hf hs
  have hout : ∀ {i : Nat} {p : PendingRender}, s.renders[i]? = some (f, some p) →
      (s.coordinator.router.dispatch ⟨s.coordinator.router.origin, f, o⟩).1.outcome? p.listener
        = (s.coordinator.router.outcome? p.listener).or (some o) := fun {i p} hi => by
    have hp := List.mem_of_getElem? hi
    rw [h.outcome?_dispatch (inFlight_of_mem hp), if_pos ⟨rfl, (h.key f p hp).symm⟩]
  refine ⟨?_, fun i hi => ?_, fun i result hi hno => ?_⟩
  · rw [← map_eq_map_of_forall₂ (hfin.ended.imp fun x e hx => hx.1)]
    refine List.Pairwise.sublist (List.filter_sublist.map _) ?_
    rw [List.zipIdx_map_snd]
    exact List.pairwise_lt_range'
  · obtain ⟨p, hp, hnone⟩ := mem_running.1 hi
    have hx : ((f, some p), i) ∈ s.renders.zipIdx := List.mk_mem_zipIdx_iff_getElem?.2 hp
    obtain ⟨⟨j, result⟩, he, rfl, q, o', hq, ho', hset⟩ := exists_of_forall₂_mem hfin.ended
      (List.mem_filter.2 ⟨hx, by
        rw [h.resolved_dispatch _ _ _ (List.mem_of_getElem? hp)]
        cases late <;> simp [waits, hnone]⟩)
    obtain rfl := Option.some.inj hq
    rw [hout hp, hnone, Option.none_or, Option.some.injEq] at ho'
    subst ho'
    exact ⟨result, he, h.key f p (List.mem_of_getElem? hp) ▸ hset⟩
  · obtain ⟨⟨⟨g, w⟩, j⟩, hx, rfl, p, o', rfl, ho', hset⟩ := exists_of_mem_forall₂ hfin.ended hi
    obtain ⟨hx, hres⟩ := List.mem_filter.1 hx
    have hp := List.mk_mem_zipIdx_iff_getElem?.1 hx
    have hmem := List.mem_of_getElem? hp
    obtain rfl : g = f := by
      rw [h.resolved_dispatch _ _ _ hmem] at hres
      cases late <;> simp_all [waits]
    rcases hold : s.coordinator.router.outcome? p.listener with _ | o₁
    · exact absurd (mem_running.2 ⟨p, hp, hold⟩) hno
    · rw [hout hp, hold, Option.some_or, Option.some.injEq] at ho'
      subst ho'
      have hkey := h.key _ p hmem
      exact ⟨p, o₁, hp, hkey ▸ h.vouched p (inFlight_of_mem hmem) o₁ hold, hkey ▸ hset⟩

end Delivery

end Accounted

/-- A session and what happened in it. -/
structure Recorded (origin : String) (H : History) (s : Session) (d : Disk) : Prop where
  accounted : Accounted (Replied H) s d
  trusted : s.coordinator.router.origin = origin
  named : ∀ i request, Submitted H i request →
    (s.renders.map Prod.fst)[i]? = some request.fingerprint
  submitted : ∀ i f p, s.renders[i]? = some (f, some p) → ∃ request, Submitted H i request

theorem recorded_new (cache : CacheService) (origin : String) (d : Disk) :
    Recorded origin [] (new cache origin) d where
  accounted := ⟨⟨Router.serves_trusting origin, fun p hp => by simp [new, stage, inFlight] at hp⟩,
    fun p hp => by simp [new, stage, inFlight] at hp, fun f p hp => by simp [new] at hp⟩
  trusted := rfl
  named := fun i request ⟨e, p, h⟩ => by simp at h
  submitted := fun i f p hi => by simp [new] at hi

variable {origin : String} {e : Event} {a : Option Answer}

theorem replied_append {K : History} {o : Outcome} :
    Replied (H ++ K) f o ↔ Replied H f o ∨ Replied K f o := by
  simp only [Replied, List.mem_append, or_and_right, exists_or]

theorem Replied.append {o : Outcome} (h : Replied H f o) (K : History) : Replied (H ++ K) f o :=
  replied_append.2 (.inl h)

theorem Recorded.handle (h : Recorded origin H s d) (he : Happens s d e s' a d') :
    Recorded origin (H ++ [(e, a)]) s' d' := by
  have hr := h.accounted.routed
  have hacc := h.accounted.imp fun f o ho => Replied.append ho [(e, a)]
  obtain ⟨⟨fs, hnames⟩, hnamed⟩ := he.names hr
  refine ⟨?_, (he.setting hr).2.trans h.trusted, ?_, ?_⟩
  · cases he with
    | start spec root h => exact hacc.start h
    | dispatch c h | deliver c h => exact hacc.dispatch h
    | poll f h => exact hacc.poll h
    | abort i => exact hacc.abort i
    | renderAll specs root reply h =>
      refine hacc.renderAll h fun f hf o ho => ?_
      exact ⟨specs, root, reply, _, _, List.mem_append_right _ (List.mem_singleton.2 rfl), hf, ho⟩
    | close | put path entry | remove path =>
      exact ⟨⟨hacc.routed.serves, hacc.routed.key⟩, hacc.vouched, hacc.key⟩
  · rintro i request ⟨e', p, hmem⟩
    rcases List.mem_append.1 hmem with hmem | hmem
    · have hold := h.named i request ⟨e', p, hmem⟩
      rw [hnames, List.getElem?_append_left (List.getElem?_eq_some_iff.1 hold).1]
      exact hold
    · exact hnamed i p request (Prod.mk.inj (List.mem_singleton.1 hmem)).2.symm
  · intro i f p hi
    rcases he.of_inFlight hr hi with hold | ⟨⟨request, rfl⟩, -⟩
    · obtain ⟨request, e', q, hmem⟩ := h.submitted i f p hold
      exact ⟨request, e', q, List.mem_append_left _ hmem⟩
    · exact ⟨request, e, p, List.mem_append_right _ (List.mem_singleton.2 rfl)⟩

theorem Recorded.fingerprint_eq (h : Recorded origin H s d) {p : PendingRender}
    {request : PlotRequest} (hi : s.renders[i]? = some (f, some p)) (hs : Submitted H i request) :
    request.fingerprint = f := by
  have hn := h.named i request hs
  rw [List.getElem?_map, hi] at hn
  exact (Option.some.inj hn).symm

/-- Of every run.  As many renders of a fingerprint run as are pending.  A running render submitted
a request, with the fingerprint that it runs for.  A render that is in flight and does not run
has its outcome from the replies to a batch.  A trusted completion for the fingerprint of a running
render reaches all running renders of it and ends each with its outcome; who else ends has that
fingerprint and the outcome of a batch; and afterwards the renders of other fingerprints are as
they were. -/
theorem running_renders_are_pending (cache : CacheService) (origin : String) (d₀ : Disk)
    (events : List Event) :
    let r := ((new cache origin).run events).run d₀
    let s := r.1.1
    let H := events.zip r.1.2
    (∀ f, s.coordinator.router.pending f = (s.running f).length)
      ∧ (∀ f, ∀ i ∈ s.running f, (∃ request, Submitted H i request)
          ∧ ∀ request, Submitted H i request → request.fingerprint = f)
      ∧ (∀ i f p, s.renders[i]? = some (f, some p) → i ∉ s.running f →
          ∃ o, s.coordinator.router.outcome? p.listener = some o ∧ Replied H f o)
      ∧ ∀ f o, s.running f ≠ [] →
          let t := (s.handle (.step (.dispatch ⟨origin, f, o⟩))).run r.2
          ∃ ended, t.1.2 = some (.dispatched (s.running f).length ended)
            ∧ (ended.map Prod.fst).Pairwise (· < ·)
            ∧ (∀ i ∈ s.running f, ∃ result, (i, result) ∈ ended ∧ o.Settles f result)
            ∧ (∀ i result, (i, result) ∈ ended → i ∉ s.running f →
                ∃ p o', s.renders[i]? = some (f, some p) ∧ Replied H f o' ∧ o'.Settles f result)
            ∧ t.1.1.renders = s.renders.map (fun x => if x.1 = f then (f, none) else x)
            ∧ ∀ g, t.1.1.running g = if g = f then [] else s.running g := by
  intro r s H
  have h : Recorded origin H s r.2 := run_keep (fun he h => h.handle he) events rfl
    (recorded_new cache origin d₀)
  refine ⟨h.accounted.pending_eq, fun f i hi => ?_, fun i f p hi hno => ?_, fun f o hf => ?_⟩
  · obtain ⟨p, hp, -⟩ := mem_running.1 hi
    exact ⟨h.submitted i f p hp, fun request hs => h.fingerprint_eq hp hs⟩
  · have hmem := List.mem_of_getElem? hi
    rcases ho : s.coordinator.router.outcome? p.listener with _ | o
    · exact absurd (mem_running.2 ⟨p, hi, ho⟩) hno
    · exact ⟨o, rfl, h.accounted.key f p hmem ▸ h.accounted.vouched p (inFlight_of_mem hmem) o ho⟩
  · rcases hd : (s.dispatch ⟨origin, f, o⟩ : StateM Disk _).run r.2 with ⟨⟨s', n, ended⟩, d'⟩
    have ht : (s.handle (.step (.dispatch ⟨origin, f, o⟩))).run r.2
        = ((s', some (.dispatched n ended)), d') :=
      run_bind_eq.2 ⟨_, _, run_bind_eq.2 ⟨_, _, hd, rfl⟩, rfl⟩
    rw [ht]
    rw [← h.trusted] at hd
    obtain ⟨hasc, hrun, hrest⟩ := h.accounted.ended_dispatch hf hd
    exact ⟨ended, by rw [(h.accounted.finished_dispatch hf hd).1], hasc, hrun, hrest,
      h.accounted.renders_dispatch hf hd, h.accounted.running_dispatch hf hd⟩

/-- One render, and the completion that makes it fail. -/
theorem running_renders_are_pending_one :
    let spec := Spec.ofContent [] .default
    let r := ((new ⟨⟨false, .memory, none⟩, "", ⟨"/tmp"⟩⟩ "a").run
      [.step (.start spec ⟨"/"⟩)]).run ⟨[], []⟩
    r.1.1.running spec.fingerprint = [0] ∧ r.1.1.coordinator.router.pending spec.fingerprint = 1
      ∧ ∃ ended, ((r.1.1.handle (.step (.dispatch ⟨"a", spec.fingerprint, .failure "no"⟩))).run
          r.2).1.2 = some (.dispatched 1 ended)
        ∧ (0, .error (.renderFailed spec.fingerprint "no")) ∈ ended := by
  intro spec r
  have hrun : r.1.1.running spec.fingerprint = [0] := by
    have hs : r.1.1 = ⟨⟨⟨⟨false, .memory, none⟩, "", ⟨"/tmp"⟩⟩, .empty,
        ((Router.trusting "a").register spec.fingerprint).1⟩, true,
        [(spec.fingerprint, some ⟨spec.fingerprint, none, ⟨0, spec.fingerprint⟩⟩)]⟩ := rfl
    rw [hs]
    simp [running, waits, Router.outcome?, Router.register, Router.trusting]
  obtain ⟨hpending, -, -, hdispatch⟩ := running_renders_are_pending
    ⟨⟨false, .memory, none⟩, "", ⟨"/tmp"⟩⟩ "a" ⟨[], []⟩ [.step (.start spec ⟨"/"⟩)]
  have hlen : (r.1.1.running spec.fingerprint).length = 1 := by rw [hrun]; rfl
  obtain ⟨ended, hanswer, -, hends, -⟩ := hdispatch spec.fingerprint (.failure "no")
    (List.ne_nil_of_length_pos (hlen ▸ Nat.one_pos))
  obtain ⟨result, hmem, rfl⟩ := hends 0 (by rw [hrun]; exact List.mem_singleton_self 0)
  exact ⟨hrun, (hpending _).trans hlen, ended, hlen ▸ hanswer, hmem⟩

end GraphBlock.Session
