import GraphBlock.Proofs.Render.Holdings
import GraphBlock.Proofs.Render.Roster

/-!
# How renders end, exactly

Where moves say what may become of a render, here stands what becomes of it.  The results of a
completion and what is held afterwards are those of the renders that are due, ended one after the
other, each with the outcome that it was delivered first (`Accounted.dispatch_due`); in a session
without batches that is the outcome of the completion (`Accounted.dispatch_endings`).  A spec that
is rendered by itself gets the image that it finds, or else its reply (`Session.answer`,
`start_opens`).
-/

namespace GraphBlock

open Disk

/-- Renders of a fingerprint that end, by number, store and outcome: their results, and what is held
then. -/
def endDue (f : String) :
    List (Nat × Option CacheStore × Outcome) → Holdings → List (Nat × RenderResult) × Holdings
  | [], k => ([], k)
  | (i, store, o) :: rest, k =>
    let t := endDue f rest (o.filled f store k)
    ((i, o.result f store k.2) :: t.1, t.2)

/-- Renders of a fingerprint that end with one outcome, by number and store: their results, and
what is held then. -/
def Outcome.endings (o : Outcome) (f : String) :
    List (Nat × Option CacheStore) → Holdings → List (Nat × RenderResult) × Holdings
  | [], k => ([], k)
  | (i, store) :: rest, k =>
    let t := o.endings f rest (o.filled f store k)
    ((i, o.result f store k.2) :: t.1, t.2)

theorem Outcome.endings_eq_endDue (o : Outcome) (f : String) :
    ∀ (xs : List (Nat × Option CacheStore)) (k : Holdings),
      o.endings f xs k = endDue f (xs.map fun x => (x.1, x.2, o)) k
  | [], _ => rfl
  | (i, store) :: xs, k => by
    rw [endings, endings_eq_endDue o f xs]
    rfl

namespace Session

open Stage

variable {s s' : Session} {d d' : Disk} {f : String} {o : Outcome}

section Completion

/-- The renders of a fingerprint that are in flight, by number, with the stores they fill. -/
def slotsOf (f : String) (xs : List ((String × Option PendingRender) × Nat)) :
    List (Nat × Option CacheStore) :=
  xs.filterMap fun x => if x.1.1 = f then x.1.2.map fun p => (x.2, p.store) else none

def slots (s : Session) (f : String) : List (Nat × Option CacheStore) :=
  slotsOf f s.renders.zipIdx

/-- The renders that are due and whose outcome was delivered, each with it. -/
def dueOf (r : Router) (due : String → PendingRender → Bool)
    (xs : List ((String × Option PendingRender) × Nat)) :
    List (Nat × Option CacheStore × Outcome) :=
  xs.filterMap fun x => x.1.2.bind fun p =>
    if due x.1.1 p then (r.outcome? p.listener).map fun o => (x.2, p.store, o) else none

/-- To release the listener of one render leaves what the others are due. -/
theorem dueOf_release {c : Coordinator} {p : PendingRender} {ps : List PendingRender}
    (due : String → PendingRender → Bool) (xs : List ((String × Option PendingRender) × Nat))
    (hr : Routed ⟨c, ps ++ p :: xs.filterMap (fun x => x.1.2), d⟩) :
    dueOf (c.router.release p.listener) due xs = dueOf c.router due xs := by
  refine List.filterMap_congr fun x hx => ?_
  obtain ⟨⟨g, _ | q⟩, i⟩ := x
  · rfl
  · have hmem : q ∈ ps ++ xs.filterMap fun x => x.1.2 :=
      List.mem_append_right _ (List.mem_filterMap.2 ⟨_, hx, rfl⟩)
    simp only [Option.bind_some, hr.outcome?_release hmem]

/-- Those end that are due and whose outcome was delivered, each with its own. -/
theorem finishAll_due (f : String) {due : String → PendingRender → Bool} :
    ∀ (xs : List ((String × Option PendingRender) × Nat))
    {c c' : Coordinator} {d d' : Disk} {renders : List (String × Option PendingRender)}
    {ended : List (Nat × RenderResult)},
    (finishAll c due xs : StateM Disk _).run d = ((c', renders, ended), d') →
    ∀ ps, Routed ⟨c, ps ++ xs.filterMap fun x => x.1.2, d⟩ →
      (∀ g p i, ((g, some p), i) ∈ xs → due g p = true → p.fingerprint = f) →
      (ended, c'.images, d') = endDue f (dueOf c.router due xs) (c.images, d)
  | [], c, c', d, d', renders, ended, h, ps, _, _ => by
    cases h
    rfl
  | ((g, none), i) :: xs, c, c', d, d', renders, ended, h, ps, hr, hkey => by
    obtain ⟨⟨c₁, rs, es⟩, d₁, h₁, h⟩ := run_bind_eq.1 h
    cases h
    have ih := finishAll_due f xs h₁ ps hr fun g p j hp => hkey g p j (List.mem_cons_of_mem _ hp)
    rw [ih, dueOf, dueOf, List.filterMap_cons_none (by simp)]
  | ((g, some p), i) :: xs, c, c', d, d', renders, ended, h, ps, hr, hkey => by
    have hrest := fun k q j hq => hkey k q j (List.mem_cons_of_mem _ hq)
    have hskip : Routed ⟨c, (ps ++ [p]) ++ xs.filterMap fun x => x.1.2, d⟩ := by
      rw [List.append_assoc]
      exact hr
    simp only [finishAll] at h
    split_ifs at h with hdue
    · have hp : p.fingerprint = f := hkey g p i List.mem_cons_self hdue
      obtain ⟨⟨c₁, res⟩, d₁, hfin, h⟩ := run_bind_eq.1 h
      rcases hout : c.router.outcome? p.listener with _ | o
      · obtain ⟨-, rfl, rfl, rfl⟩ | ⟨o, _, _, ho, -⟩ := Coordinator.run_finish hfin
        · obtain ⟨⟨c₂, rs, es⟩, d₂, h₁, h⟩ := run_bind_eq.1 h
          cases h
          have ih := finishAll_due f xs h₁ _ hskip hrest
          rw [ih, dueOf, dueOf, List.filterMap_cons_none (by simp [hout])]
        · rw [hout] at ho
          cases ho
      · rw [Coordinator.run_finish_some hout] at hfin
        cases hfin
        obtain ⟨⟨c₂, rs, es⟩, d₂, h₁, h⟩ := run_bind_eq.1 h
        cases h
        have ih := finishAll_due f xs h₁ ps (hr.release _ _) hrest
        have hcons : dueOf c.router due (((g, some p), i) :: xs)
            = (i, p.store, o) :: dueOf c.router due xs := by
          simp [dueOf, hout, hdue]
        rw [hp, dueOf_release due xs hr] at ih
        rw [hcons, endDue, hp]
        exact congrArg (fun t => ((i, o.result f p.store d) :: t.1, t.2)) ih
    · obtain ⟨⟨c₂, rs, es⟩, d₂, h₁, h⟩ := run_bind_eq.1 h
      cases h
      have ih := finishAll_due f xs h₁ _ hskip hrest
      rw [ih, dueOf, dueOf, List.filterMap_cons_none (by simp [hdue])]

/-- The renders of a fingerprint that end with a completion, each with the outcome that it was
delivered first. -/
def due (s : Session) (f : String) (o : Outcome) (late : Bool := true) :
    List (Nat × Option CacheStore × Outcome) :=
  dueOf (s.coordinator.router.dispatch ⟨s.coordinator.router.origin, f, o⟩).1 (s.wakes f late)
    s.renders.zipIdx

theorem Accounted.due_eq {P : String → Outcome → Prop} (h : Accounted P s d) (f : String)
    (o : Outcome) {late : Bool} :
    s.due f o late = s.renders.zipIdx.filterMap fun x => x.1.2.bind fun p =>
      if s.wakes f late x.1.1 p then
        some (x.2, p.store, (s.coordinator.router.outcome? p.listener).getD o) else none := by
  refine List.filterMap_congr fun x hx => ?_
  obtain ⟨⟨g, _ | p⟩, i⟩ := x
  · rfl
  · simp only [Option.bind_some]
    split_ifs with hw
    · have hmem := List.mem_of_getElem? (List.mk_mem_zipIdx_iff_getElem?.1 hx)
      have hg : g = f := by
        simp only [wakes, Bool.and_eq_true, decide_eq_true_eq] at hw
        exact hw.1
      have hout := h.outcome?_dispatch (inFlight_of_mem hmem) ⟨s.coordinator.router.origin, f, o⟩
      rw [if_pos ⟨rfl, hg.symm.trans (h.key g p hmem).symm⟩] at hout
      rw [hout]
      cases s.coordinator.router.outcome? p.listener <;> rfl
    · rfl

/-- A completion that a running render waits for ends the renders that it wakes one after the
other. -/
theorem Accounted.dispatch_due {P : String → Outcome → Prop} (h : Accounted P s d)
    (hf : s.running f ≠ []) {late : Bool} {n : Nat} {ended : List (Nat × RenderResult)}
    (hs : (s.dispatch ⟨s.coordinator.router.origin, f, o⟩ late : StateM Disk _).run d
      = ((s', n, ended), d')) :
    (ended, s'.coordinator.images, d') = endDue f (s.due f o late) (s.coordinator.images, d)
      ∧ s'.channelOpen = s.channelOpen := by
  have hlen := (h.finished_dispatch hf hs).1
  obtain ⟨hn, -⟩ := dispatch_spec hs h.routed
  simp only [Session.dispatch] at hs
  split_ifs at hs with hzero
  · rw [← hn, hlen, List.length_eq_zero_iff] at hzero
    exact absurd hzero hf
  · obtain ⟨⟨c, renders, es⟩, d₁, hfin, hs⟩ := run_bind_eq.1 hs
    cases hs
    refine ⟨finishAll_due f _ hfin [] ?_ fun g p i hp hw => ?_, rfl⟩
    · rw [List.nil_append, filterMap_zipIdx]
      exact ⟨h.routed.serves.dispatch _, h.routed.key⟩
    · simp only [wakes, Bool.and_eq_true, decide_eq_true_eq] at hw
      exact (h.key g p (List.mem_of_getElem? (List.mk_mem_zipIdx_iff_getElem?.1 hp))).trans hw.1

/-- Nothing was delivered for any render in flight, as in a session without batches. -/
abbrev Unanswered (s : Session) (d : Disk) : Prop :=
  Accounted (fun _ _ => False) s d

theorem Accounted.outcome?_eq_none (h : Unanswered s d) {p : PendingRender}
    (hp : p ∈ s.inFlight) : s.coordinator.router.outcome? p.listener = none := by
  rcases ho : s.coordinator.router.outcome? p.listener with _ | o
  · rfl
  · exact (h.vouched p hp o ho).elim

theorem Accounted.due_eq_slots (h : Unanswered s d) (f : String) (o : Outcome) :
    s.due f o = (s.slots f).map fun x => (x.1, x.2, o) := by
  rw [h.due_eq, slots, slotsOf, List.map_filterMap]
  refine List.filterMap_congr fun x hx => ?_
  obtain ⟨⟨g, _ | p⟩, i⟩ := x
  · split_ifs <;> rfl
  · have hmem := List.mem_of_getElem? (List.mk_mem_zipIdx_iff_getElem?.1 hx)
    have hnone := h.outcome?_eq_none (inFlight_of_mem hmem)
    by_cases hg : g = f <;> simp [wakes, hg, hnone]

theorem Accounted.map_slots (h : Unanswered s d) (f : String) :
    (s.slots f).map Prod.fst = s.running f := by
  rw [slots, slotsOf, running, List.map_filterMap, ← List.filterMap_eq_map, List.filterMap_filter]
  refine List.filterMap_congr fun x hx => ?_
  obtain ⟨⟨g, w⟩, i⟩ := x
  have hmem := List.mem_of_getElem? (List.mk_mem_zipIdx_iff_getElem?.1 hx)
  rcases w with _ | p
  · simp [waits]
  · have hnone := h.outcome?_eq_none (inFlight_of_mem hmem)
    by_cases hg : g = f <;> simp [waits, hg, hnone]

theorem Accounted.pending_eq_slots (h : Unanswered s d) (f : String) :
    s.coordinator.router.pending f = (s.slots f).length := by
  rw [h.pending_eq, ← h.map_slots, List.length_map]

/-- A completion that is trusted ends the renders of its fingerprint that are in flight, in the
order of their numbers, and no others. -/
theorem Accounted.dispatch_endings (h : Unanswered s d) {n : Nat}
    {ended : List (Nat × RenderResult)}
    (hs : (s.dispatch ⟨s.coordinator.router.origin, f, o⟩ : StateM Disk _).run d
      = ((s', n, ended), d')) :
    n = (s.slots f).length
      ∧ (ended, s'.coordinator.images, d') = o.endings f (s.slots f) (s.coordinator.images, d)
      ∧ s'.renders = s.renders.map (fun x => if x.1 = f then (f, none) else x)
      ∧ s'.channelOpen = s.channelOpen := by
  by_cases hf : s.running f = []
  · rw [h.dispatch_unheard (.inr hf)] at hs
    cases hs
    have hnil : s.slots f = [] := List.map_eq_nil_iff.1 ((h.map_slots f).trans hf)
    rw [hnil]
    refine ⟨rfl, rfl, ((List.map_congr_left fun x hx => ?_).trans (List.map_id' _)).symm, rfl⟩
    obtain ⟨g, _ | p⟩ := x
    · split_ifs with hg
      · rw [← hg]
      · rfl
    · refine if_neg fun hg => ?_
      obtain ⟨i, hi⟩ := List.mem_iff_getElem?.1 hx
      have hi' : i ∈ s.running f :=
        mem_running.2 ⟨p, hg ▸ hi, h.outcome?_eq_none (inFlight_of_mem hx)⟩
      rw [hf] at hi'
      simp at hi'
  · obtain ⟨hends, hopen⟩ := h.dispatch_due hf hs
    rw [h.due_eq_slots, ← o.endings_eq_endDue] at hends
    have hlen : (s.running f).length = (s.slots f).length := by
      rw [← h.map_slots, List.length_map]
    exact ⟨(h.finished_dispatch hf hs).1.trans hlen, hends, h.renders_dispatch hf hs, hopen⟩

theorem dispatch_of_ne {c : Completion} (h : c.origin ≠ s.coordinator.router.origin) (d : Disk) :
    (s.dispatch c : StateM Disk _).run d = ((s, 0, []), d) := by
  simp only [dispatch, Router.dispatch, if_neg h]
  rfl

end Completion

section Batch

/-- The answer to a spec of this fingerprint that looks at what was `seen`: the image found there,
or else the reply to its request. -/
def answer (store : Option CacheStore) (reply : String → Outcome) (seen k : Holdings) (f : String) :
    RenderResult × Holdings :=
  match CacheStore.found? store seen.1 seen.2 f with
  | some b => (.ok ⟨b, .cache, none⟩, k)
  | none => ((reply f).result f store k.2, (reply f).filled f store k)

/-- How the render of a spec begins as long as the channel is open. -/
def Opens (store : Option CacheStore) (seen : Holdings) (spec : Spec) (st : Started) : Prop :=
  (∃ b, CacheStore.found? store seen.1 seen.2 spec.fingerprint = some b
      ∧ st = .done (.ok ⟨b, .cache, none⟩))
    ∨ CacheStore.found? store seen.1 seen.2 spec.fingerprint = none
      ∧ ∃ p, st = .waiting p spec.request ∧ p.fingerprint = spec.fingerprint ∧ p.store = store

variable {root : Path}

theorem coordinator_start_opens {c c' : Coordinator} {spec : Spec} {st : Started}
    (hopen : s.channelOpen = true)
    (h : (c.start s.submit spec root : StateM Disk _).run d = ((c', st), d')) :
    Opens (c.store? root) (c.images, d) spec st ∧ c'.images = c.images ∧ c'.cache = c.cache := by
  obtain ⟨rfl, h⟩ := Coordinator.run_start h
  rcases h with ⟨b, hf, rfl, rfl⟩ | ⟨hf, ⟨-, rfl, rfl⟩ | ⟨e, he, -, -⟩⟩
  · exact ⟨.inl ⟨b, hf, rfl⟩, rfl, rfl⟩
  · exact ⟨.inr ⟨hf, _, rfl, rfl, rfl⟩, rfl, rfl⟩
  · simp [submit, hopen] at he

theorem start_opens {spec : Spec} {st : Started} (hopen : s.channelOpen = true)
    (h : (s.start spec root : StateM Disk _).run d = ((s', st), d')) :
    Opens (s.coordinator.store? root) (s.coordinator.images, d) spec st
      ∧ s'.coordinator.cache = s.coordinator.cache ∧ s'.channelOpen = true := by
  obtain ⟨⟨c, st'⟩, d₁, hc, h⟩ := run_bind_eq.1 h
  cases h
  obtain ⟨hst, -, hcache⟩ := coordinator_start_opens hopen hc
  exact ⟨hst, hcache, hopen⟩

end Batch

end Session

end GraphBlock
