import GraphBlock.Proofs.Render.Endings
import GraphBlock.Proofs.Render.Slots

/-!
# A session without batches, in outline

As long as no batch is rendered, nothing lies in the router for a render that is in flight.  So the
router and the listeners can be left out: what a session answers and what it holds follows from
what is held, from the fingerprint of each render and from the store that a render in flight is to
fill (`Outline.step`).  A session takes each single step as its outline does (`Plain.step`).
-/

namespace GraphBlock

open Disk

namespace Session

open Stage

/-- A step that is no batch. -/
inductive Single where
  | start (spec : Spec) (root : Path)
  | dispatch (completion : Completion)
  | abort (render : Nat)
  | close

def Single.step : Single → Step
  | start spec root => .start spec root
  | dispatch completion => .dispatch completion
  | abort render => .abort render
  | close => .close

/-- How a render began, with its result seen through `g` and without the number of its listener. -/
def Started.seen (g : RenderResult → RenderResult) : Started → Started
  | .done result => .done (g result)
  | .waiting p request => .waiting { p with listener := ⟨0, p.fingerprint⟩ } request

/-- An answer with its results seen through `g` and its renders numbered by `r`. -/
def Answer.seen (g : RenderResult → RenderResult) (r : Nat → Nat) : Answer → Answer
  | .started render st => .started (r render) (Started.seen g st)
  | .dispatched delivered ended => .dispatched delivered (ended.map fun e => (r e.1, g e.2))
  | .aborted inFlight => .aborted inFlight
  | .closed => .closed
  | .rendered results submitted => .rendered (results.map (Option.map g)) submitted

theorem Answer.seen_seen (g g' : RenderResult → RenderResult) (r r' : Nat → Nat) (a : Answer) :
    (a.seen g r).seen g' r' = a.seen (g' ∘ g) (r' ∘ r) := by
  cases a with
  | started render st => cases st <;> rfl
  | dispatched delivered ended =>
    simp only [seen, List.map_map]
    rfl
  | aborted | closed => rfl
  | rendered results submitted =>
    simp only [seen, List.map_map, Option.map_comp_map]

structure Outline where
  slots : Slots
  channelOpen : Bool
  holdings : Holdings

namespace Outline

/-- How the render of a spec begins, and what it fills if it is in flight then. -/
def start (cache : CacheService) (o : Outline) (spec : Spec) (root : Path) :
    Option (Option CacheStore) × Started :=
  let f := spec.fingerprint
  let store := cache.store? root
  match CacheStore.found? store o.holdings.1 o.holdings.2 f with
  | some b => (none, .done (.ok ⟨b, .cache, none⟩))
  | none =>
    if o.channelOpen then (some store, .waiting ⟨f, store, ⟨0, f⟩⟩ spec.request)
    else (none, .done (.error (.rendererUnavailable "request channel closed")))

def step (cache : CacheService) (origin : String) (o : Outline) : Single → Outline × Answer
  | .start spec root =>
    let t := o.start cache spec root
    ({ o with slots := o.slots ++ [(spec.fingerprint, t.1)] }, .started o.slots.length t.2)
  | .dispatch c =>
    if c.origin = origin then
      let t := c.outcome.endings c.fingerprint (o.slots.held c.fingerprint) o.holdings
      ({ o with slots := o.slots.vacateAll c.fingerprint, holdings := t.2 },
        .dispatched (o.slots.held c.fingerprint).length t.1)
    else (o, .dispatched 0 [])
  | .abort i =>
    ({ o with slots := o.slots.modify i Slots.vacate },
      .aborted (o.slots[i]?.any fun x => x.2.isSome))
  | .close => ({ o with channelOpen := false }, .closed)

/-- The answers of an outline to a row of steps. -/
def answers (cache : CacheService) (origin : String) : Outline → List Single → List Answer
  | _, [] => []
  | o, x :: xs => (o.step cache origin x).2 :: answers cache origin (o.step cache origin x).1 xs

end Outline

/-- A render that misses and is served at once, where no other is in flight. -/
theorem Outline.answers_served {cache : CacheService} (origin : String) (spec : Spec) (b : Bytes)
    {v : Slots} {k : Holdings} {root : Path} (hv : ∀ x ∈ v, x.2 = none)
    (hmiss : CacheStore.found? (cache.store? root) k.1 k.2 spec.fingerprint = none)
    (xs : List Single) :
    ∃ st, Outline.answers cache origin ⟨v, true, k⟩
        (.start spec root :: .dispatch ⟨origin, spec.fingerprint, .success b⟩ :: xs)
      = .started v.length st
        :: .dispatched 1 [(v.length, .ok ⟨b, .renderer,
          CacheStore.warning? (cache.store? root) spec.fingerprint k.2⟩)]
        :: Outline.answers cache origin ⟨v ++ [(spec.fingerprint, none)], true,
          CacheStore.kept (cache.store? root) spec.fingerprint b k⟩ xs := by
  have hheld : Slots.held spec.fingerprint
      (v ++ [(spec.fingerprint, some (cache.store? root))]) = [(v.length, cache.store? root)] := by
    have hnil : Slots.held spec.fingerprint v = [] :=
      List.eq_nil_iff_forall_not_mem.2 fun x hx => by
        cases hv _ (Slots.mem_of_mem_held hx)
    rw [Slots.held_append, hnil, if_pos rfl]
    rfl
  have hvacate : Slots.vacateAll spec.fingerprint
      (v ++ [(spec.fingerprint, some (cache.store? root))]) = v ++ [(spec.fingerprint, none)] := by
    have hsame : Slots.vacateAll spec.fingerprint v = v := by
      refine (List.map_congr_left fun x hx => ?_).trans (List.map_id' v)
      obtain ⟨g, w⟩ := x
      obtain rfl : w = none := hv _ hx
      exact ite_self _
    rw [Slots.vacateAll, List.map_append, ← Slots.vacateAll, hsame, List.map_singleton, if_pos rfl]
    rfl
  simp only [Outline.answers, Outline.step, Outline.start, hmiss, if_true, hheld, hvacate]
  exact ⟨_, rfl⟩

section Refinement

variable {cache : CacheService} {origin : String} {s s' : Session} {d d' : Disk}

def view (s : Session) : Slots :=
  s.renders.map fun x => (x.1, x.2.map PendingRender.store)

def outline (s : Session) (d : Disk) : Outline :=
  ⟨s.view, s.channelOpen, s.coordinator.images, d⟩

theorem held_view (s : Session) (f : String) : s.view.held f = s.slots f := by
  rw [slots, slotsOf, Slots.held, view, List.zipIdx_map, List.filterMap_map]
  refine List.filterMap_congr fun x _ => ?_
  simp only [Function.comp_apply, Prod.map, id, Option.map_map]
  rfl

/-- A state that single steps lead to. -/
structure Plain (cache : CacheService) (origin : String) (s : Session) (d : Disk) : Prop where
  unanswered : Unanswered s d
  cache_eq : s.coordinator.cache = cache
  origin_eq : s.coordinator.router.origin = origin

theorem plain_new (cache : CacheService) (origin : String) (d : Disk) :
    Plain cache origin (new cache origin) d where
  unanswered := (recorded_new cache origin d).accounted.imp fun f o h => by
    simp [Replied] at h
  cache_eq := rfl
  origin_eq := rfl

theorem Plain.keep {x : Single} {a : Option Answer} (h : Plain cache origin s d)
    (he : Happens s d (.step x.step) s' a d') : Plain cache origin s' d' := by
  obtain ⟨hcache, horigin⟩ := he.setting h.unanswered.routed
  refine ⟨?_, hcache.trans h.cache_eq, horigin.trans h.origin_eq⟩
  cases x with
  | start spec root =>
    cases he with
    | start spec root hs => exact h.unanswered.start hs
  | dispatch c =>
    cases he with
    | dispatch c hs => exact h.unanswered.dispatch hs
  | abort i =>
    cases he with
    | abort i => exact h.unanswered.abort i
  | close =>
    cases he with
    | close => exact ⟨⟨h.unanswered.routed.serves, h.unanswered.routed.key⟩, h.unanswered.vouched,
        h.unanswered.key⟩

theorem outline_start (h : Plain cache origin s d) {spec : Spec} {root : Path} {st : Started}
    (hs : (s.start spec root : StateM Disk _).run d = ((s', st), d')) :
    (s'.outline d', (Answer.started s.renders.length st).seen id id)
      = (s.outline d).step cache origin (.start spec root) := by
  obtain ⟨⟨c, st'⟩, d₁, hc, hs⟩ := run_bind_eq.1 hs
  cases hs
  obtain ⟨rfl, hcases⟩ := Coordinator.run_start hc
  rw [Coordinator.store?_eq, h.cache_eq] at hcases
  have hlen : s.view.length = s.renders.length := by simp [view]
  simp only [Outline.step, Outline.start, outline, hlen]
  rcases hcases with ⟨b, hf, rfl, rfl⟩ | ⟨hf, ⟨hok, rfl, rfl⟩ | ⟨e, he, rfl, rfl⟩⟩
  · rw [hf]
    simp [view, Answer.seen, Started.seen]
  · have hopen : s.channelOpen = true := by
      by_contra hno
      simp [submit, hno] at hok
    rw [hf]
    simp [view, Answer.seen, Started.seen, hopen]
  · have hclosed : s.channelOpen = false := by
      cases hopen : s.channelOpen with
      | false => rfl
      | true => simp [submit, hopen] at he
    simp only [submit, hclosed, Bool.false_eq_true, if_false, Except.error.injEq] at he
    subst he
    rw [hf]
    simp [view, Answer.seen, Started.seen, hclosed]

theorem outline_dispatch (h : Plain cache origin s d) {c : Completion} {n : Nat}
    {ended : List (Nat × RenderResult)}
    (hs : (s.dispatch c : StateM Disk _).run d = ((s', n, ended), d')) :
    (s'.outline d', (Answer.dispatched n ended).seen id id)
      = (s.outline d).step cache origin (.dispatch c) := by
  have hseen : (Answer.dispatched n ended).seen id id = .dispatched n ended := by
    simp [Answer.seen]
  rw [hseen, Outline.step]
  split_ifs with ho
  · obtain ⟨o, f, outcome⟩ := c
    obtain rfl : o = s.coordinator.router.origin := ho.trans h.origin_eq.symm
    obtain ⟨hn, hends, hrenders, hopen⟩ := h.unanswered.dispatch_endings hs
    have hview : s'.view = s.view.vacateAll f := by
      rw [view, hrenders, view, Slots.vacateAll, List.map_map, List.map_map]
      refine List.map_congr_left fun x _ => ?_
      simp only [Function.comp_apply]
      split_ifs with hx
      · rw [← hx]
        rfl
      · rfl
    have hheld : (s.outline d).slots.held f = s.slots f := held_view s f
    obtain ⟨rfl, hk⟩ := Prod.mk.inj hends
    simp only [hheld, hn]
    simp only [outline, hview, hopen, hk]
  · rw [dispatch_of_ne fun he => ho (he.trans h.origin_eq)] at hs
    cases hs
    rfl

theorem outline_abort (s : Session) (d : Disk) (i : Nat) :
    ((s.abort i).1.outline d, (Answer.aborted (s.abort i).2).seen id id)
      = (s.outline d).step cache origin (.abort i) := by
  have hget : s.view[i]? = s.renders[i]?.map fun x => (x.1, x.2.map PendingRender.store) := by
    rw [view, List.getElem?_map]
  have hsame : (∀ x, s.view[i]? = some x → x.2 = none) →
      s.view.modify i Slots.vacate = s.view := fun hall => by
    refine List.ext_getElem? fun j => ?_
    rw [List.getElem?_modify]
    split_ifs with hij
    · subst hij
      rcases hx : s.view[i]? with _ | ⟨g, w⟩
      · rfl
      · obtain rfl : w = none := hall _ hx
        rfl
    · simp
  simp only [Outline.step, outline, abort]
  rcases hi : s.renders[i]? with _ | ⟨g, _ | p⟩ <;> rw [hi] at hget
  · rw [hget, hsame fun x hx => by simp [hget] at hx]
    simp [Answer.seen]
  · rw [hget, hsame fun x hx => by simp [hget] at hx; rw [← hx]]
    simp [Answer.seen]
  · have hset : (s.renders.set i (g, none)).map (fun x => (x.1, x.2.map PendingRender.store))
        = s.view.modify i Slots.vacate := by
      refine List.ext_getElem? fun j => ?_
      rw [List.getElem?_map, List.getElem?_set, List.getElem?_modify, view, List.getElem?_map]
      split_ifs with hij hlt
      · subst hij
        rw [hi]
        rfl
      · exact absurd (List.getElem?_eq_some_iff.1 hi).1 hlt
      · simp
    rw [hget, ← hset]
    simp [Answer.seen, view]
    rfl

/-- A single step of a session is one of its outline. -/
theorem Plain.step {x : Single} {a : Answer} (h : Plain cache origin s d)
    (hs : (s.step x.step : StateM Disk _).run d = ((s', a), d')) :
    Plain cache origin s' d'
      ∧ (s.outline d).step cache origin x = (s'.outline d', a.seen id id) := by
  have hhandle : (s.handle (.step x.step)).run d = ((s', some a), d') :=
    run_bind_eq.2 ⟨_, _, hs, rfl⟩
  have he := happens_of_handle hhandle
  refine ⟨h.keep he, Eq.symm ?_⟩
  cases x with
  | start spec root =>
    cases he with
    | start spec root hs => exact outline_start h hs
  | dispatch c =>
    cases he with
    | dispatch c hs => exact outline_dispatch h hs
  | abort i =>
    cases he with
    | abort i => exact outline_abort s d i
  | close =>
    cases he with
    | close => rfl

end Refinement

end Session

end GraphBlock
