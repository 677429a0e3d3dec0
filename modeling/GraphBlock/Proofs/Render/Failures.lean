import GraphBlock.Proofs.Render.Glimpse

/-!
# What failed renders leave

A start that is refused, a render that is given up, a completion with an error and a completion
that nobody waits for leave the images in memory and the disk as they were, and the running renders
of all other fingerprints have the same ahead of them (`failures_leave_no_trace`).  An error ends
just the renders that it resolves.  Where a batch had answered others of its fingerprint, these end
when they are polled, each with what the batch delivered for it.
-/

namespace GraphBlock

namespace Session

open Disk Stage

variable {cache : CacheService} {origin f g message : String} {d₀ d d' : Disk} {H : History}
  {s s' : Session} {i j n : Nat} {P : String → Outcome → Prop}

/-- The render is in flight although this outcome was delivered for it. -/
def Answered (s : Session) (f : String) (i : Nat) (o : Outcome) : Prop :=
  ∃ p, s.renders[i]? = some (f, some p) ∧ s.coordinator.router.outcome? p.listener = some o

/-- A render has the same fate in two states, whatever steps come: it ends at the same time with the
same image or error and the same warning, if any.  Where files are kept and their prefix has a slash
in it, the system may give another reason for the failed write of which the warning tells. -/
structure SameFate (cache : CacheService) (s : Session) (d : Disk) (s' : Session) (d' : Disk)
    (j : Nat) : Prop where
  bare : ∀ xs : List Step, (s'.fate d' j xs).map (Fate.seen (Except.map Rendered.bare))
    = (s.fate d j xs).map (Fate.seen (Except.map Rendered.bare))
  exact : cache.Flat → ∀ xs : List Step, s'.fate d' j xs = s.fate d j xs

section Fates

/-- A running render, as far as its fate depends on the session. -/
def glimpse (s : Session) (d : Disk) (g : String) (root : Path) : Glimpse where
  root := root
  outcome := none
  running := s.running g
  started := s.renders.length
  channelOpen := s.channelOpen
  holdings := (s.coordinator.images, d)

theorem Sourced.follows (h : Sourced cache origin d₀ H s d) (hj : j ∈ s.running g) :
    ∃ root, Follows cache origin g j s d (s.glimpse d g root) := by
  obtain ⟨p, hp, hnone⟩ := mem_running.1 hj
  obtain ⟨-, root, hstore⟩ := h.traced.stores p (inFlight_of_mem (List.mem_of_getElem? hp))
  have hcache : s.coordinator.cache = cache := h.traced.cache_eq
  refine ⟨root, ⟨d₀, H, h⟩, ⟨p, hp, hstore.trans ?_, hnone⟩, rfl, rfl, rfl, .refl cache g _⟩
  rw [← hcache]
  rfl

theorem SameFate.of_agree {v w : Glimpse} (hs : Follows cache origin g j s d v)
    (hs' : Follows cache origin g j s' d' w) (h : Agree cache g j v w) :
    SameFate cache s d s' d' j where
  bare xs := (hs.same_fate cache.impartial_bare hs' h xs).symm
  exact hp xs := by
    have hxs := hs.same_fate (CacheService.impartial_id hp) hs' h xs
    simpa only [funext Fate.seen_id, Option.map_id_fun', id] using hxs.symm

theorem closed_of_refused {spec : Spec} {root : Path} {e : RenderError}
    (hs : (s.start spec root : StateM Disk _).run d = ((s', .done (.error e)), d')) :
    s.channelOpen = false := by
  obtain ⟨-, -, -, -, ⟨image, -, hr⟩ | ⟨hmiss, -⟩⟩ := start_spec hs
  · cases hr
  · by_contra hopen
    have hwaits := (start_waits hs).2.2 ⟨by simpa using hopen, hmiss⟩
    cases hwaits

theorem Sourced.same_fate_start (h : Sourced cache origin d₀ H s d) (hj : j ∈ s.running g)
    {spec : Spec} {root : Path} {e : RenderError}
    (hs : (s.start spec root : StateM Disk _).run d = ((s', .done (.error e)), d')) :
    SameFate cache s d s' d' j := by
  obtain ⟨r, hfollows⟩ := h.follows hj
  have hclosed := closed_of_refused hs
  have hopen : (s.glimpse d g r).channelOpen ≠ true := by simp [glimpse, hclosed]
  refine .of_agree hfollows (hfollows.start hs)
    ⟨rfl, rfl, .inl ?_, fun h => absurd h hopen, rfl, .refl cache g _⟩
  simp only [Glimpse.step]
  rw [if_neg fun hc => hopen hc.2.1, List.append_nil]

theorem Sourced.same_fate_abort (h : Sourced cache origin d₀ H s d) (hj : j ∈ s.running g)
    (hij : j ≠ i) : SameFate cache s d (s.abort i).1 d j := by
  obtain ⟨r, hfollows⟩ := h.follows hj
  refine .of_agree hfollows (hfollows.abort (Ne.symm hij)) ?_
  exact ⟨rfl, rfl, .inr ⟨hj, List.mem_filter.2 ⟨hj, by simpa using hij⟩⟩, fun _ => rfl, rfl,
    .refl cache g _⟩

theorem Sourced.same_fate_dispatch (h : Sourced cache origin d₀ H s d) (hj : j ∈ s.running g)
    {c : Completion} {late : Bool} (hne : c.fingerprint ≠ g) {ended : List (Nat × RenderResult)}
    (hs : (s.dispatch c late : StateM Disk _).run d = ((s', n, ended), d')) :
    SameFate cache s d s' d' j := by
  obtain ⟨r, hfollows⟩ := h.follows hj
  obtain ⟨-, hfollows'⟩ := hfollows.dispatch_other (fun hc => hne hc.2.1) hs
  exact .of_agree hfollows hfollows'
    ⟨rfl, rfl, .inl rfl, fun _ => rfl, rfl, .refl cache g _⟩

end Fates

section Errors

/-- An error ends the running renders of its fingerprint with its message, and leaves all that is
held. -/
theorem Accounted.dispatch_failure (h : Accounted P s d) {ended : List (Nat × RenderResult)}
    (hs : (s.dispatch ⟨s.coordinator.router.origin, f, .failure message⟩ false :
      StateM Disk _).run d = ((s', n, ended), d')) :
    n = (s.running f).length
      ∧ ended = (s.running f).map (fun i => (i, .error (.renderFailed f message)))
      ∧ s'.coordinator.images = s.coordinator.images ∧ d' = d := by
  by_cases hrun : s.running f = []
  · rw [h.dispatch_unheard (.inr hrun)] at hs
    cases hs
    rw [hrun]
    exact ⟨rfl, rfl, rfl, rfl⟩
  · obtain ⟨hends, -⟩ := h.dispatch_due hrun hs
    rw [endDue_failures f message _ _ fun x hx => h.eq_of_mem_due hx] at hends
    obtain ⟨hended, hk⟩ := Prod.mk.inj hends
    obtain ⟨himages, hd⟩ := Prod.mk.inj hk
    refine ⟨(h.finished_dispatch hrun hs).1, ?_, himages, hd⟩
    rw [hended, ← h.map_fst_due f (.failure message), List.map_map]
    rfl

theorem finishAll_congr {due due' : String → PendingRender → Bool} :
    ∀ (xs : List ((String × Option PendingRender) × Nat)) (c : Coordinator),
      (∀ f p i, ((f, some p), i) ∈ xs → due f p = due' f p) →
        (finishAll c due xs : StateM Disk _) = finishAll c due' xs
  | [], _, _ => rfl
  | ((f, none), i) :: xs, c, h => by
    have ih := finishAll_congr xs c fun g p j hp => h g p j (List.mem_cons_of_mem _ hp)
    simp only [finishAll, ih]
  | ((f, some p), i) :: xs, c, h => by
    have ih := fun c => finishAll_congr xs c fun g p j hp => h g p j (List.mem_cons_of_mem _ hp)
    simp only [finishAll, ih, h f p i List.mem_cons_self]

/-- Where no render of the fingerprint was answered before, none is late for a completion. -/
theorem dispatch_late {c : Completion} (hno : ∀ i o, ¬ s.Answered c.fingerprint i o) (d : Disk) :
    (s.dispatch c : StateM Disk _).run d = (s.dispatch c false : StateM Disk _).run d := by
  have hwakes : ∀ g p i, ((g, some p), i) ∈ s.renders.zipIdx →
      s.wakes c.fingerprint true g p = s.wakes c.fingerprint false g p := by
    intro g p i hp
    by_cases hg : g = c.fingerprint
    · rcases ho : s.coordinator.router.outcome? p.listener with _ | o
      · simp [wakes, ho]
      · exact absurd ⟨p, hg ▸ List.mk_mem_zipIdx_iff_getElem?.1 hp, ho⟩ (hno i o)
    · simp [wakes, hg]
  simp only [dispatch, finishAll_congr _ _ hwakes]

end Errors

/-- Of every run.  A start that is refused, a render that is given up and an error leave the images
in memory and the disk as they were.  A refused start leaves all counts of pending renders as they
were, to give a running render up lowers the count of its fingerprint by one, and an error ends the
running renders of its fingerprint with its message, and no others.  All other running renders have
the same fate, whatever steps come.  A completion that is not trusted, or that no running render
waits for, changes nothing at all.  A host that has also those renders run on which were answered
before does the same as long as there are none of the fingerprint. -/
theorem failures_leave_no_trace (cache : CacheService) (origin : String) (d₀ : Disk)
    (events : List Event) :
    let r := ((new cache origin).run events).run d₀
    let s := r.1.1
    let d := r.2
    (∀ spec root n e, let t := (s.handle (.step (.start spec root))).run d
        t.1.2 = some (.started n (.done (.error e))) →
          t.1.1.coordinator.images = s.coordinator.images ∧ t.2 = d
            ∧ (∀ g, t.1.1.coordinator.router.pending g = s.coordinator.router.pending g)
            ∧ ∀ g, ∀ j ∈ s.running g, SameFate cache s d t.1.1 t.2 j)
      ∧ (∀ i, let t := (s.handle (.step (.abort i))).run d
          t.1.1.coordinator.images = s.coordinator.images ∧ t.2 = d
            ∧ (∀ g, t.1.1.coordinator.router.pending g + (if i ∈ s.running g then 1 else 0)
              = s.coordinator.router.pending g)
            ∧ ∀ g, ∀ j ∈ s.running g, j ≠ i → SameFate cache s d t.1.1 t.2 j)
      ∧ (∀ f message, let t := (s.handle (.deliver ⟨origin, f, .failure message⟩)).run d
          t.1.1.coordinator.images = s.coordinator.images ∧ t.2 = d
            ∧ t.1.2 = some (.dispatched (s.running f).length
              ((s.running f).map fun i => (i, .error (.renderFailed f message))))
            ∧ ∀ g, g ≠ f → ∀ j ∈ s.running g, SameFate cache s d t.1.1 t.2 j)
      ∧ (∀ c, (c.origin ≠ origin ∨ s.running c.fingerprint = []) →
          ∀ e, Event.completion? e = some c →
            (s.handle e).run d = ((s, some (.dispatched 0 [])), d))
      ∧ ∀ c, (∀ i o, ¬ s.Answered c.fingerprint i o) →
          (s.handle (.step (.dispatch c))).run d = (s.handle (.deliver c)).run d := by
  intro r s d
  have h : Sourced cache origin d₀ (events.zip r.1.2) s d :=
    run_keep (fun he h => h.handle he) events rfl (sourced_new cache origin d₀)
  have hacc := h.recorded.accounted
  refine ⟨fun spec root n e => ?_, fun i => ?_, fun f message => ?_, fun c hc e he => ?_,
    fun c hno => ?_⟩
  · rcases hs : (s.start spec root : StateM Disk _).run d with ⟨⟨s', st⟩, d'⟩
    rw [Happens.handle_eq (.start spec root hs)]
    intro t ha
    obtain ⟨-, rfl⟩ := Answer.started.inj (Option.some.inj ha)
    obtain ⟨-, -, himages, hd, -⟩ := start_spec hs
    refine ⟨himages, hd, fun g => ?_, fun g j hj => h.same_fate_start hj hs⟩
    have hrun : s'.running g = s.running g := by
      rw [hacc.running_start hs, if_neg (by simp [render?]), List.append_nil]
    rw [(hacc.start hs).pending_eq, hacc.pending_eq, hrun]
  · rw [Happens.handle_eq (.abort i)]
    refine ⟨images_abort s i, rfl, fun g => ?_, fun g j hj hij => h.same_fate_abort hj hij⟩
    rw [(hacc.abort i).pending_eq, hacc.pending_eq]
    exact hacc.length_running_abort i g
  · rcases hs : (s.dispatch ⟨origin, f, .failure message⟩ false : StateM Disk _).run d
      with ⟨⟨s', n, ended⟩, d'⟩
    rw [Happens.handle_eq (.deliver _ hs)]
    have hs' := hs
    rw [← h.recorded.trusted] at hs'
    obtain ⟨rfl, rfl, himages, hd⟩ := hacc.dispatch_failure hs'
    exact ⟨himages, hd, rfl, fun g hne j hj => h.same_fate_dispatch hj (Ne.symm hne) hs⟩
  · exact handle_of_dispatch_eq he fun late =>
      hacc.dispatch_unheard (by rwa [h.recorded.trusted])
  · rcases hs : (s.dispatch c : StateM Disk _).run d with ⟨⟨s', n, ended⟩, d'⟩
    rw [Happens.handle_eq (.dispatch c hs),
      Happens.handle_eq (.deliver c (dispatch_late hno d ▸ hs))]

/-- A render that waits while the channel is closed, with each failure that there is. -/
theorem failures_leave_no_trace_closed :
    let spec := Spec.ofContent [] .default
    let f := spec.fingerprint
    let cache : CacheService := ⟨⟨false, .memory, none⟩, "", ⟨"/tmp"⟩⟩
    let r := ((new cache "a").run [.step (.start spec ⟨"/"⟩), .step .close]).run ⟨[], []⟩
    let s := r.1.1
    let after := fun e => (s.handle e).run r.2
    let refused := after (.step (.start spec ⟨"/"⟩))
    let abort := after (.step (.abort 1))
    let other := after (.deliver ⟨"a", "/", .failure "no"⟩)
    let error := after (.deliver ⟨"a", f, .failure "no"⟩)
    s.running f = [0]
      ∧ refused.1.2
        = some (.started 1 (.done (.error (.rendererUnavailable "request channel closed"))))
      ∧ SameFate cache s r.2 refused.1.1 refused.2 0
      ∧ SameFate cache s r.2 abort.1.1 abort.2 0
      ∧ SameFate cache s r.2 other.1.1 other.2 0
      ∧ error.2 = r.2
      ∧ error.1.2 = some (.dispatched 1 [(0, .error (.renderFailed f "no"))])
      ∧ after (.deliver ⟨"b", f, .failure "no"⟩) = ((s, some (.dispatched 0 [])), r.2)
      ∧ after (.step (.dispatch ⟨"a", f, .failure "no"⟩)) = error := by
  intro spec f cache r s after refused abort other error
  have hs : s = ⟨⟨cache, .empty, ((Router.trusting "a").register f).1⟩, false,
      [(f, some ⟨f, none, ⟨0, f⟩⟩)]⟩ := rfl
  have hrun : s.running f = [0] := by
    rw [hs]
    simp [running, waits, Router.outcome?, Router.register, Router.trusting]
  have hwaits : 0 ∈ s.running f := by rw [hrun]; exact List.mem_singleton_self 0
  have hslash : f ≠ "/" := fun hf => by
    have hno : '/' ∉ f.toList := spec.slash_not_mem_fingerprint
    rw [hf] at hno
    exact hno (by decide)
  have hno : ∀ i o, ¬ s.Answered f i o := by
    rintro i o ⟨p, -, ho⟩
    rw [hs] at ho
    cases ho
  have hrefused : refused.1.2
      = some (.started 1 (.done (.error (.rendererUnavailable "request channel closed")))) := rfl
  obtain ⟨hstart, habort, herror, hunheard, hlate⟩ := failures_leave_no_trace cache "a" ⟨[], []⟩
    [.step (.start spec ⟨"/"⟩), .step .close]
  obtain ⟨-, hdisk, hends, -⟩ := herror f "no"
  have hother := herror "/" "no"
  refine ⟨hrun, hrefused, (hstart spec ⟨"/"⟩ _ _ hrefused).2.2.2 f 0 hwaits,
    (habort 1).2.2.2 f 0 hwaits (by decide), hother.2.2.2 f hslash 0 hwaits, hdisk, ?_,
    hunheard ⟨"b", f, .failure "no"⟩ (.inl (by decide)) _ rfl, hlate _ hno⟩
  exact hends.trans (by rw [hrun]; rfl)

end Session

end GraphBlock
