import GraphBlock.Proofs.Render.Due
import GraphBlock.Proofs.Render.Provenance

/-!
# What a render's fate depends on

A render that is in flight ends, or is given up, in a later step of the session (`Session.fate`).
Of all there is in the session this depends on little (`Glimpse`): what was delivered for the
render, who else of its fingerprint runs, whether the channel is open, and what is held for the
fingerprint.  The glimpse moves with each step of the session (`Follows.step`), so it tells the
render's fate as far as an impartial view shows it (`Follows.fate_eq`), and glimpses that agree on
the render tell the same fate (`Agree.fate_eq`).
-/

namespace GraphBlock

open Disk

/-- What became of a render. -/
inductive Fate where
  | ended (result : RenderResult)
  | givenUp

/-- What became of a render, with its result seen through a view. -/
def Fate.seen (see : RenderResult → RenderResult) : Fate → Fate
  | ended result => .ended (see result)
  | givenUp => .givenUp

@[simp] theorem Fate.seen_id (x : Fate) : x.seen id = x := by
  cases x <;> rfl

theorem map_or_congr {α β : Type} {f : α → β} {a b x y : Option α} (h : a.map f = b.map f)
    (hrest : b = none → x.map f = y.map f) : (a.or x).map f = (b.or y).map f := by
  rcases b with _ | b
  · rw [Option.map_eq_none_iff.1 h, Option.none_or, Option.none_or, hrest rfl]
  · obtain ⟨a', rfl, hab⟩ := Option.map_eq_some_iff.1 h
    rw [Option.some_or, Option.some_or, Option.map_some, hab, Option.map_some]

namespace Session

/-- What an event makes of a render. -/
def fateAt (j : Nat) (e : Event) (a : Option Answer) : Option Fate :=
  match e, a with
  | .step (.dispatch _), some (.dispatched _ ended) => (ended.lookup j).map .ended
  | .step (.abort i), some (.aborted true) => if i = j then some .givenUp else none
  | _, _ => none

/-- What the steps to come make of a render. -/
def fate (s : Session) (d : Disk) (j : Nat) (xs : List Step) : Option Fate :=
  let events := xs.map Event.step
  (events.zip ((s.run events).run d).1.2).findSome? fun x => fateAt j x.1 x.2

theorem fate_cons {s s' : Session} {d d' : Disk} {j : Nat} {x : Step} {a : Option Answer}
    (h : Happens s d (.step x) s' a d') (xs : List Step) :
    s.fate d j (x :: xs) = (fateAt j (.step x) a).or (s'.fate d' j xs) := by
  rcases ht : (s'.run (xs.map Event.step)).run d' with ⟨⟨s'', as⟩, d''⟩
  rw [fate, fate, List.map_cons]
  simp only [h.run_cons ht, ht, List.zip_cons_cons, List.findSome?_cons]
  cases fateAt j (.step x) a <;> rfl

end Session

/-- What the fate of a render depends on. -/
structure Glimpse where
  /-- The root of the render's own request. -/
  root : Path
  /-- What was delivered for the render. -/
  outcome : Option Outcome
  /-- The running renders of its fingerprint. -/
  running : List Nat
  /-- How many renders were started. -/
  started : Nat
  channelOpen : Bool
  holdings : Holdings

namespace Glimpse

variable (cache : CacheService) (origin g : String) (j : Nat)

/-- Whether a request of the fingerprint is submitted. -/
def Submits (v : Glimpse) (root : Path) : Prop :=
  v.channelOpen = true
    ∧ CacheStore.found? (cache.store? root) v.holdings.1 v.holdings.2 g = none

instance (v : Glimpse) (root : Path) : Decidable (v.Submits cache g root) :=
  inferInstanceAs (Decidable (_ ∧ _))

/-- What a batch delivers to the renders of the fingerprint. -/
def reply (v : Glimpse) (specs : List Spec) (root : Path) (reply : String → Option Outcome) :
    Option Outcome :=
  if g ∈ specs.map Spec.fingerprint ∧ v.Submits cache g root then reply g else none

/-- The glimpse after a step in which the render neither ends nor is given up. -/
def step (v : Glimpse) : Session.Step → Glimpse
  | .start spec root => { v with
      running := v.running ++
        if spec.fingerprint = g ∧ v.Submits cache g root then [v.started] else []
      started := v.started + 1 }
  | .dispatch _ => v
  | .abort i => { v with running := v.running.filter (· ≠ i) }
  | .close => { v with channelOpen := false }
  | .renderAll specs root reply =>
    let o := v.reply cache g specs root reply
    { v with
      outcome := v.outcome.or o
      running := if o.isSome then [] else v.running
      holdings := Outcome.filled? g (cache.store? root) o v.holdings }

/-- What a step makes of the render. -/
def fateAt (v : Glimpse) : Session.Step → Option Fate
  | .dispatch c =>
    if c.origin = origin ∧ c.fingerprint = g ∧ v.running ≠ [] then
      some (.ended ((v.outcome.getD c.outcome).result g (cache.store? v.root) v.holdings.2))
    else none
  | .abort i => if i = j then some .givenUp else none
  | _ => none

def fate (v : Glimpse) : List Session.Step → Option Fate
  | [] => none
  | x :: xs => (v.fateAt cache origin g j x).or (fate (v.step cache g x) xs)

end Glimpse

namespace Session

variable {cache : CacheService} {origin g : String} {j : Nat} {see : RenderResult → RenderResult}

/-- A render that is due fills a store of the cache service. -/
theorem Sourced.of_mem_due {d₀ : Disk} {H : History} {s : Session} {d : Disk} {f : String}
    {o : Outcome} {late : Bool} (h : Sourced cache origin d₀ H s d) :
    ∀ x ∈ s.due f o late, '/' ∉ f.toList ∧ ∃ root, x.2.1 = cache.store? root := by
  rintro ⟨i, store, o'⟩ hx
  have hacc := h.recorded.accounted
  obtain ⟨p, hp, rfl, -⟩ := hacc.mem_due.1 hx
  have hmem := List.mem_of_getElem? hp
  obtain ⟨hslash, root, hstore⟩ := h.traced.stores p (inFlight_of_mem hmem)
  have hcache : s.coordinator.cache = cache := h.traced.cache_eq
  exact ⟨hacc.key f p hmem ▸ hslash, root, hstore.trans (by rw [← hcache]; rfl)⟩

section Follows

open Stage

variable {s s' : Session} {d d' : Disk} {v : Glimpse} {a : Option Answer}

/-- The glimpse is one of this session, for a render that is in flight. -/
structure Follows (cache : CacheService) (origin g : String) (j : Nat) (s : Session) (d : Disk)
    (v : Glimpse) : Prop where
  sourced : ∃ d₀ H, Sourced cache origin d₀ H s d
  slot : ∃ p, s.renders[j]? = some (g, some p) ∧ p.store = cache.store? v.root
    ∧ s.coordinator.router.outcome? p.listener = v.outcome
  running : s.running g = v.running
  started : s.renders.length = v.started
  channelOpen : s.channelOpen = v.channelOpen
  holdings : cache.Alike g (s.coordinator.images, d) v.holdings

namespace Follows

theorem accounted (h : Follows cache origin g j s d v) :
    ∃ P, Accounted P s d ∧ s.coordinator.router.origin = origin ∧ s.coordinator.cache = cache := by
  obtain ⟨d₀, H, hs⟩ := h.sourced
  exact ⟨_, hs.recorded.accounted, hs.recorded.trusted, hs.traced.cache_eq⟩

theorem slash (h : Follows cache origin g j s d v) : '/' ∉ g.toList := by
  obtain ⟨d₀, H, hs⟩ := h.sourced
  obtain ⟨p, hp, -, -⟩ := h.slot
  have hmem := List.mem_of_getElem? hp
  have hslash := (hs.traced.stores p (inFlight_of_mem hmem)).1
  rwa [hs.recorded.accounted.key g p hmem] at hslash

theorem submits_iff (h : Follows cache origin g j s d v) (root : Path) :
    v.Submits cache g root ↔ s.channelOpen = true
      ∧ CacheStore.found? (s.coordinator.store? root) s.coordinator.images d g = none := by
  obtain ⟨P, -, -, hcache⟩ := h.accounted
  rw [Glimpse.Submits, Coordinator.store?_eq, hcache, h.channelOpen,
    h.holdings.found?_eq h.slash]

theorem sourced_step (h : Follows cache origin g j s d v) {e : Event} {a : Option Answer}
    (he : Happens s d e s' a d') : ∃ d₀ H, Sourced cache origin d₀ H s' d' := by
  obtain ⟨d₀, H, hs⟩ := h.sourced
  exact ⟨d₀, _, hs.handle he⟩

/-- As long as the render stays in its slot, it is delivered what the events deliver. -/
theorem slot_step (h : Follows cache origin g j s d v) {e : Event} {a : Option Answer}
    (he : Happens s d e s' a d')
    (hj : ∀ p, s.renders[j]? = some (g, some p) → s'.renders[j]? = some (g, some p)) :
    ∃ p, s'.renders[j]? = some (g, some p) ∧ p.store = cache.store? v.root
      ∧ s'.coordinator.router.outcome? p.listener = v.outcome.or (heard origin g e a) := by
  obtain ⟨P, hacc, rfl, -⟩ := h.accounted
  obtain ⟨p, hp, hstore, hout⟩ := h.slot
  have hp' := hj p hp
  refine ⟨p, hp', hstore, ?_⟩
  rw [hacc.outcome?_eq he (List.mem_of_getElem? hp) (List.mem_of_getElem? hp'), hout]

theorem slot_unheard (h : Follows cache origin g j s d v) {e : Event} {a : Option Answer}
    (he : Happens s d e s' a d')
    (hj : ∀ p, s.renders[j]? = some (g, some p) → s'.renders[j]? = some (g, some p))
    (hnone : heard origin g e a = none) :
    ∃ p, s'.renders[j]? = some (g, some p) ∧ p.store = cache.store? v.root
      ∧ s'.coordinator.router.outcome? p.listener = v.outcome := by
  have hslot := h.slot_step he hj
  rwa [hnone, Option.or_none] at hslot

theorem start (h : Follows cache origin g j s d v) {spec : Spec} {root : Path} {st : Started}
    (hs : (s.start spec root : StateM Disk _).run d = ((s', st), d')) :
    Follows cache origin g j s' d' (v.step cache g (.start spec root)) := by
  have he : Happens s d _ s' _ d' := .start spec root hs
  obtain ⟨P, hacc, -, -⟩ := h.accounted
  obtain ⟨-, hrenders, himages, rfl, -⟩ := start_spec hs
  have hslot : ∀ p, s.renders[j]? = some (g, some p) → s'.renders[j]? = some (g, some p) :=
    fun p hp => by
      rw [hrenders, List.getElem?_append_left (List.getElem?_eq_some_iff.1 hp).1, hp]
  refine ⟨h.sourced_step he, h.slot_unheard he hslot rfl, ?_, ?_,
    (he.channelOpen_eq (by simp)).trans h.channelOpen, ?_⟩
  · have hcond : (spec.fingerprint = g ∧ (render? st).isSome)
        ↔ (spec.fingerprint = g ∧ v.Submits cache g root) := by
      refine and_congr_right fun hg => ?_
      rw [h.submits_iff, (start_waits hs).2, hg]
    simp only [Glimpse.step, hacc.running_start hs, h.running, h.started, hcond]
  · rw [hrenders, List.length_append, h.started]
    rfl
  · rw [himages]
    exact h.holdings

theorem abort (h : Follows cache origin g j s d v) {i : Nat} (hij : i ≠ j) :
    Follows cache origin g j (s.abort i).1 d (v.step cache g (.abort i)) := by
  have he : Happens s d _ (s.abort i).1 _ d := .abort i
  obtain ⟨P, hacc, -, -⟩ := h.accounted
  have hslot : ∀ p, s.renders[j]? = some (g, some p) →
      (s.abort i).1.renders[j]? = some (g, some p) :=
    fun p hp => by rw [getElem?_abort, if_neg hij, hp]
  refine ⟨h.sourced_step he, h.slot_unheard he hslot rfl, ?_, (length_abort s i).trans h.started,
    (he.channelOpen_eq (by simp)).trans h.channelOpen, ?_⟩
  · exact (hacc.running_abort i g).trans (congrArg _ h.running)
  · rw [images_abort]
    exact h.holdings

/-- A completion that nobody waits for, or that is for another fingerprint, changes nothing that the
render's fate depends on. -/
theorem dispatch_other (h : Follows cache origin g j s d v) {c : Completion} {late : Bool} {n : Nat}
    {ended : List (Nat × RenderResult)}
    (hc : ¬ (c.origin = origin ∧ c.fingerprint = g ∧ v.running ≠ []))
    (hs : (s.dispatch c late : StateM Disk _).run d = ((s', n, ended), d')) :
    ended.lookup j = none ∧ Follows cache origin g j s' d' v := by
  obtain ⟨d₀, H, hsrc⟩ := h.sourced
  have hacc := hsrc.recorded.accounted
  have horigin := hsrc.recorded.trusted
  by_cases hunheard : c.origin ≠ s.coordinator.router.origin ∨ s.running c.fingerprint = []
  · rw [hacc.dispatch_unheard hunheard] at hs
    cases hs
    exact ⟨rfl, h⟩
  obtain ⟨e, hcompletion, he⟩ := exists_happens_of_dispatch hs
  rw [not_or, not_not] at hunheard
  obtain ⟨ho, hrun⟩ := hunheard
  have hne : c.fingerprint ≠ g := fun hg =>
    hc ⟨ho.trans horigin, hg, fun hnil => hrun (by rw [hg, h.running, hnil])⟩
  obtain ⟨co, f, o⟩ := c
  subst ho
  have hrenders := (hacc.finished_dispatch hrun hs).2.renders_eq
  obtain ⟨hends, -⟩ := hacc.dispatch_due hrun hs
  obtain ⟨hended, hk⟩ := Prod.mk.inj hends
  obtain ⟨p, hp, -, -⟩ := h.slot
  refine ⟨?_, h.sourced_step he, h.slot_unheard he (fun q hq => ?_) ?_, ?_, ?_,
    (he.channelOpen_eq fun hclose => by simp [hclose, Event.completion?] at hcompletion).trans
      h.channelOpen, ?_⟩
  · rw [hended]
    refine lookup_endDue_of_not_mem _ fun hj => ?_
    obtain ⟨⟨i, store, o'⟩, hx, rfl⟩ := List.mem_map.1 hj
    obtain ⟨q, hq, -, -⟩ := hacc.mem_due.1 hx
    rw [hq] at hp
    cases hp
    exact hne rfl
  · have hno : resolved (s.coordinator.router.dispatch ⟨s.coordinator.router.origin, f, o⟩).1
        (s.wakes f late) (g, some q) = false := by
      simp [resolved, wakes, Ne.symm hne]
    rw [hrenders, List.getElem?_map, hq, Option.map_some, remaining, hno]
    rfl
  · rw [heard_of_completion hcompletion, if_neg fun hm => hne hm.2]
  · rw [hacc.running_dispatch hrun hs, if_neg (Ne.symm hne), h.running]
  · rw [hrenders, List.length_map, h.started]
  · rw [hk]
    exact (endDue_alike_of_ne h.slash (Ne.symm hne) _ _ hsrc.of_mem_due).trans h.holdings

/-- A completion that a running render of the fingerprint waits for ends the render, with the first
outcome that it was delivered. -/
theorem dispatch_ends (hsee : cache.Impartial see) (h : Follows cache origin g j s d v)
    (hrun : v.running ≠ []) {o : Outcome} {n : Nat} {ended : List (Nat × RenderResult)}
    (hs : (s.dispatch ⟨origin, g, o⟩ : StateM Disk _).run d = ((s', n, ended), d')) :
    ∃ result, ended.lookup j = some result
      ∧ see result = see ((v.outcome.getD o).result g (cache.store? v.root) v.holdings.2) := by
  obtain ⟨P, hacc, rfl, -⟩ := h.accounted
  obtain ⟨hends, -⟩ := hacc.dispatch_due (h.running.symm ▸ hrun) hs
  obtain ⟨hended, -⟩ := Prod.mk.inj hends
  obtain ⟨p, hp, hstore, hout⟩ := h.slot
  have hx : (j, cache.store? v.root, v.outcome.getD o) ∈ s.due g o :=
    hacc.mem_due.2 ⟨p, hp, hstore, by simp [wakes], by rw [hout]⟩
  obtain ⟨e, he, hl⟩ := lookup_endDue (s.coordinator.images, d) (hacc.nodup_due g o) hx
  rw [← hended] at hl
  exact ⟨_, hl, hsee h.slash (he.trans h.holdings.directories) v.root _⟩

theorem renderAll (h : Follows cache origin g j s d v) {specs : List Spec} {root : Path}
    {reply : String → Option Outcome} {results : List (Option RenderResult)}
    {submitted : List String}
    (hs : (s.renderAll specs root reply : StateM Disk _).run d = ((s', results, submitted), d')) :
    Follows cache origin g j s' d' (v.step cache g (.renderAll specs root reply)) := by
  have he : Happens s d _ s' _ d' := .renderAll specs root reply hs
  obtain ⟨P, hacc, -, hcache⟩ := h.accounted
  obtain ⟨c, batch, hb⟩ := renderAll_spec hs hacc.routed
  have hreply : replyTo reply submitted g = v.reply cache g specs root reply := by
    have hiff : g ∈ submitted ↔ g ∈ specs.map Spec.fingerprint ∧ v.Submits cache g root := by
      rw [mem_submitted_iff hacc.routed hs, h.submits_iff, and_left_comm]
    simp only [replyTo, Glimpse.reply, hiff]
  have hslot := h.slot_step he fun p hp => hb.renders ▸ hp
  rw [heard, hreply] at hslot
  refine ⟨h.sourced_step he, hslot, ?_, ?_, (he.channelOpen_eq (by simp)).trans h.channelOpen, ?_⟩
  · simp only [Glimpse.step, hacc.running_renderAll hs, hreply, h.running]
  · rw [hb.renders, h.started]
    rfl
  · have halike := renderAll_alike hacc hcache h.slash hs
    rw [hreply] at halike
    exact halike.trans (h.holdings.filled? root _)

theorem step (hsee : cache.Impartial see) (h : Follows cache origin g j s d v) {x : Step}
    (he : Happens s d (.step x) s' a d') :
    (Session.fateAt j (.step x) a).map (Fate.seen see)
        = (v.fateAt cache origin g j x).map (Fate.seen see)
      ∧ (v.fateAt cache origin g j x = none →
        Follows cache origin g j s' d' (v.step cache g x)) := by
  cases he with
  | start spec root hs => exact ⟨rfl, fun _ => h.start hs⟩
  | dispatch c hs =>
    by_cases hc : c.origin = origin ∧ c.fingerprint = g ∧ v.running ≠ []
    · rw [Glimpse.fateAt, if_pos hc]
      refine ⟨?_, fun hno => by cases hno⟩
      obtain ⟨co, f, o⟩ := c
      obtain ⟨rfl, rfl, hrun⟩ := hc
      obtain ⟨result, hl, hseen⟩ := h.dispatch_ends hsee hrun hs
      simp only [Session.fateAt, hl, Option.map_some, Fate.seen, hseen]
    · obtain ⟨hl, hfollows⟩ := h.dispatch_other hc hs
      rw [Glimpse.fateAt, if_neg hc]
      exact ⟨by simp only [Session.fateAt, hl, Option.map_none], fun _ => hfollows⟩
  | abort i =>
    by_cases hij : i = j
    · obtain ⟨p, hp, -, -⟩ := h.slot
      have hrunning : (s.abort i).2 = true := by simp only [Session.abort, hij, hp]
      rw [Glimpse.fateAt, if_pos hij, hrunning]
      exact ⟨by rw [Session.fateAt, if_pos hij], fun hno => by cases hno⟩
    · rw [Glimpse.fateAt, if_neg hij]
      refine ⟨?_, fun _ => h.abort hij⟩
      rcases (s.abort i).2
      · rfl
      · rw [Session.fateAt, if_neg hij]
  | close =>
    refine ⟨rfl, fun _ => ?_⟩
    have he : Happens s d _ s.close _ d := .close
    exact ⟨h.sourced_step he, h.slot, h.running, h.started, rfl, h.holdings⟩
  | renderAll specs root reply hs => exact ⟨rfl, fun _ => h.renderAll hs⟩

theorem fate_eq (hsee : cache.Impartial see) : ∀ (xs : List Step) {s : Session} {d : Disk}
    {v : Glimpse}, Follows cache origin g j s d v →
      (s.fate d j xs).map (Fate.seen see) = (v.fate cache origin g j xs).map (Fate.seen see)
  | [], _, _, _, _ => rfl
  | x :: xs, s, d, v, h => by
    rcases hx : (s.handle (.step x)).run d with ⟨⟨s', a⟩, d'⟩
    have he := happens_of_handle hx
    obtain ⟨hfate, hnext⟩ := h.step hsee he
    rw [fate_cons he, Glimpse.fate]
    exact map_or_congr hfate fun hv => fate_eq hsee xs (hnext hv)

end Follows

end Follows

section Agree

variable {v w : Glimpse}

/-- Two glimpses of one render, of its own session each, with the same ahead of it. -/
structure Agree (cache : CacheService) (g : String) (j : Nat) (v w : Glimpse) : Prop where
  root : v.root = w.root
  outcome : v.outcome = w.outcome
  running : v.running = w.running ∨ j ∈ v.running ∧ j ∈ w.running
  started : v.channelOpen = true → v.started = w.started
  channelOpen : v.channelOpen = w.channelOpen
  holdings : cache.Alike g v.holdings w.holdings

namespace Agree

theorem submits_iff (hg : '/' ∉ g.toList) (h : Agree cache g j v w) (root : Path) :
    v.Submits cache g root ↔ w.Submits cache g root := by
  rw [Glimpse.Submits, Glimpse.Submits, h.channelOpen, h.holdings.found?_eq hg]

theorem running_eq_nil_iff (h : Agree cache g j v w) : v.running = [] ↔ w.running = [] := by
  rcases h.running with heq | ⟨hv, hw⟩
  · rw [heq]
  · exact iff_of_false (List.ne_nil_of_mem hv) (List.ne_nil_of_mem hw)

theorem fateAt_eq (hsee : cache.Impartial see) (hg : '/' ∉ g.toList) (h : Agree cache g j v w)
    (x : Step) : (v.fateAt cache origin g j x).map (Fate.seen see)
      = (w.fateAt cache origin g j x).map (Fate.seen see) := by
  cases x with
  | dispatch c =>
    simp only [Glimpse.fateAt, ne_eq, h.running_eq_nil_iff, h.outcome, h.root]
    split_ifs
    · have hseen := hsee hg h.holdings.directories w.root (w.outcome.getD c.outcome)
      simp only [Option.map_some, Fate.seen, hseen]
    · rfl
  | start | abort | close | renderAll => rfl

theorem step (hg : '/' ∉ g.toList) (h : Agree cache g j v w) {x : Step}
    (hx : v.fateAt cache origin g j x = none) :
    Agree cache g j (v.step cache g x) (w.step cache g x) := by
  cases x with
  | start spec root =>
    refine ⟨h.root, h.outcome, ?_, fun hopen => congrArg (· + 1) (h.started hopen), h.channelOpen,
      h.holdings⟩
    rcases h.running with heq | ⟨hv, hw⟩
    · left
      simp only [Glimpse.step, heq, h.submits_iff hg]
      split_ifs with hc
      · rw [h.started (h.channelOpen.trans hc.2.1)]
      · rfl
    · exact .inr ⟨List.mem_append_left _ hv, List.mem_append_left _ hw⟩
  | dispatch c => exact h
  | abort i =>
    have hij : j ≠ i := fun hij => by simp [Glimpse.fateAt, hij] at hx
    refine ⟨h.root, h.outcome, ?_, h.started, h.channelOpen, h.holdings⟩
    refine h.running.imp (fun heq => ?_) fun ⟨hv, hw⟩ => ?_
    · rw [Glimpse.step, Glimpse.step, heq]
    · exact ⟨List.mem_filter.2 ⟨hv, by simpa using hij⟩, List.mem_filter.2 ⟨hw, by simpa using hij⟩⟩
  | close =>
    exact ⟨h.root, h.outcome, h.running, fun hopen => absurd hopen Bool.false_ne_true, rfl,
      h.holdings⟩
  | renderAll specs root reply =>
    have hreply : v.reply cache g specs root reply = w.reply cache g specs root reply := by
      simp only [Glimpse.reply, h.submits_iff hg]
    refine ⟨h.root, ?_, ?_, h.started, h.channelOpen, ?_⟩
    · simp only [Glimpse.step, h.outcome, hreply]
    · simp only [Glimpse.step, hreply]
      split_ifs
      · exact .inl rfl
      · exact h.running
    · simp only [Glimpse.step, hreply]
      exact h.holdings.filled? root _

theorem fate_eq (hsee : cache.Impartial see) (hg : '/' ∉ g.toList) : ∀ (xs : List Step)
    {v w : Glimpse}, Agree cache g j v w →
      (v.fate cache origin g j xs).map (Fate.seen see)
        = (w.fate cache origin g j xs).map (Fate.seen see)
  | [], _, _, _ => rfl
  | x :: xs, v, w, h => by
    have hfate : (v.fateAt cache origin g j x).map (Fate.seen see)
        = (w.fateAt cache origin g j x).map (Fate.seen see) := h.fateAt_eq hsee hg x
    rw [Glimpse.fate, Glimpse.fate]
    refine map_or_congr hfate fun hw => fate_eq hsee hg xs ?_
    rw [hw, Option.map_none, Option.map_eq_none_iff] at hfate
    exact h.step hg hfate

end Agree

/-- A render has the same fate in two sessions whose glimpses of it agree. -/
theorem Follows.same_fate (hsee : cache.Impartial see) {s t : Session} {d e : Disk}
    (hs : Follows cache origin g j s d v) (ht : Follows cache origin g j t e w)
    (h : Agree cache g j v w) (xs : List Step) :
    (s.fate d j xs).map (Fate.seen see) = (t.fate e j xs).map (Fate.seen see) := by
  rw [hs.fate_eq hsee, ht.fate_eq hsee, h.fate_eq hsee hs.slash]

end Agree

end Session

end GraphBlock
