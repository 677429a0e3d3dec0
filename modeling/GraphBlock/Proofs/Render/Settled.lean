import GraphBlock.Proofs.Render.Provenance
import GraphBlock.Proofs.Render.Roster

/-!
# Images in memory stay

With the cache in memory, a fingerprint whose success resolved a render is settled: no render of
it runs, and its image is in memory (`Settled`).  A hit keeps it so, because nothing runs for a
fingerprint that nothing missed, and because the renders that still end have delivered the same
image (`Move.lookup`).  The renders that run when the success comes end in the same event, and the
first of them to end puts the image there (`Move.stored`).
-/

namespace GraphBlock

namespace Stage

variable {s t : Stage} {P : String → Outcome → Prop} {f : String} {b : Bytes}

/-- An image is not replaced by another as long as all that is delivered for it is this one. -/
theorem Move.lookup (hm : Move s t) (hv : s.Vouched P) (hb : ∀ b', P f (.success b') → b' = b)
    (h : s.coordinator.images.lookup f = some b) : t.coordinator.images.lookup f = some b := by
  cases hm with
  | enlist | refuse | giveUp => exact h
  | finish as bs ho hk =>
    rename_i c p d d' o images
    cases hk with
    | failed | uncached | unwritten | written => exact h
    | inMemory images d hs =>
      have hP := hv p (List.mem_append_right _ List.mem_cons_self) _ ho
      rw [MemoryCache.lookup_insert]
      split_ifs with hf
      · subst hf
        exact congrArg some (hb _ hP)
      · exact h

theorem Moves.lookup (hm : s.Moves t) (hr : s.Routed) (hv : s.Vouched P)
    (hb : ∀ b', P f (.success b') → b' = b)
    (h : s.coordinator.images.lookup f = some b) : t.coordinator.images.lookup f = some b := by
  have hkeep : t.Routed ∧ t.Vouched P ∧ t.coordinator.images.lookup f = some b :=
    hm.keep (P := fun s => s.Routed ∧ s.Vouched P ∧ s.coordinator.images.lookup f = some b)
      (fun hmove h => ⟨hmove.routed h.1, Moves.vouched (.single hmove) h.1 h.2.1,
        hmove.lookup h.2.1 hb h.2.2⟩) ⟨hr, hv, h⟩
  exact hkeep.2.2

/-- A render that keeps its image in memory and has its success is in flight until the image is
there. -/
theorem Move.stored {p : PendingRender} (hm : Move s t) (hr : s.Routed)
    (hs : p.store = some .memory)
    (h : p ∈ s.renders ∧ s.coordinator.router.outcome? p.listener = some (.success b)) :
    t.coordinator.images.lookup p.fingerprint = some b
      ∨ p ∈ t.renders ∧ t.coordinator.router.outcome? p.listener = some (.success b) := by
  obtain ⟨hp, hout⟩ := h
  have hstay : p ∈ t.renders → p ∈ t.renders
      ∧ t.coordinator.router.outcome? p.listener = some (.success b) := fun ht =>
    ⟨ht, (Moves.outcome?_eq (.single hm) hr hp ht).trans hout⟩
  cases hm with
  | enlist c ps d spec root hnone => exact .inr (hstay (List.mem_append_left _ hp))
  | refuse c ps d f => exact .inr (hstay hp)
  | giveUp as bs d hnone =>
    rcases List.mem_append.1 hp with hp | hp
    · exact .inr (hstay (List.mem_append_left _ hp))
    · rcases List.mem_cons.1 hp with rfl | hp
      · rw [hnone] at hout
        simp at hout
      · exact .inr (hstay (List.mem_append_right _ hp))
  | finish as bs ho hk =>
    rcases List.mem_append.1 hp with hp | hp
    · exact .inr (hstay (List.mem_append_left _ hp))
    · rcases List.mem_cons.1 hp with rfl | hp
      · obtain rfl := Option.some.inj (ho.symm.trans hout)
        cases hk with
        | inMemory images d hs' => exact .inl (by rw [MemoryCache.lookup_insert, if_pos rfl])
        | uncached k hs' | unwritten k hs' | written images d hs' hq => simp [hs] at hs'
      · exact .inr (hstay (List.mem_append_right _ hp))

theorem Moves.stored {p : PendingRender} (hm : s.Moves t) (hr : s.Routed) (hv : s.Vouched P)
    (hb : ∀ b', P p.fingerprint (.success b') → b' = b) (hs : p.store = some .memory)
    (hp : p ∈ s.renders)
    (hout : s.coordinator.router.outcome? p.listener = some (.success b)) (ht : p ∉ t.renders) :
    t.coordinator.images.lookup p.fingerprint = some b := by
  have hkeep : t.Routed ∧ t.Vouched P ∧ (t.coordinator.images.lookup p.fingerprint = some b
      ∨ p ∈ t.renders ∧ t.coordinator.router.outcome? p.listener = some (.success b)) := by
    refine hm.keep (P := fun s => s.Routed ∧ s.Vouched P
      ∧ (s.coordinator.images.lookup p.fingerprint = some b
        ∨ p ∈ s.renders ∧ s.coordinator.router.outcome? p.listener = some (.success b)))
      (fun hmove h => ⟨hmove.routed h.1, Moves.vouched (.single hmove) h.1 h.2.1, ?_⟩)
      ⟨hr, hv, .inr ⟨hp, hout⟩⟩
    rcases h.2.2 with hl | hstay
    · exact .inl (hmove.lookup h.2.1 hb hl)
    · exact hmove.stored h.1 hs hstay
  exact hkeep.2.2.resolve_right fun h => ht h.1

end Stage

namespace Session

open Disk Stage

variable {P : String → Outcome → Prop} {origin f : String} {o : Outcome} {H : History}
  {s s' : Session} {d d' d₀ : Disk} {cache : CacheService} {e : Event} {a : Option Answer} {i : Nat}
  {b : Bytes}

/-- A render that runs did so before, or began now after a miss. -/
theorem Accounted.of_running (h : Accounted P s d) (he : Happens s d e s' a d')
    (hi : i ∈ s'.running f) :
    i ∈ s.running f
      ∨ ∃ root, CacheStore.found? (s.coordinator.store? root) s.coordinator.images d f = none := by
  obtain ⟨p, hp, hnone⟩ := mem_running.1 hi
  rcases he.of_inFlight h.routed hp with hold | ⟨-, hmiss⟩
  · have hout := h.outcome?_eq he (List.mem_of_getElem? hold) (List.mem_of_getElem? hp)
    rw [hnone] at hout
    exact .inl (mem_running.2 ⟨p, hold, (Option.or_eq_none_iff.1 hout.symm).1⟩)
  · exact .inr hmiss

/-- Images are kept in memory, all success that resolved a render is there, and nothing waits for
it any more. -/
structure Settled (cache : CacheService) (origin : String) (d₀ : Disk) (H : History) (s : Session)
    (d : Disk) : Prop where
  enabled : cache.settings.enabled = true
  location : cache.settings.location = .memory
  sourced : Sourced cache origin d₀ H s d
  settled : ∀ f b, Resolved origin H f (.success b) →
    s.running f = [] ∧ s.coordinator.images.lookup f = some b

theorem settled_new (hon : cache.settings.enabled = true)
    (hmem : cache.settings.location = .memory) (origin : String) (d : Disk) :
    Settled cache origin d [] (new cache origin) d where
  enabled := hon
  location := hmem
  sourced := sourced_new cache origin d
  settled := fun f b h => by simp [Resolved, Replied] at h

/-- One event delivers one outcome for a fingerprint at most. -/
theorem Resolved.unique {o' : Outcome} (h : Resolved origin [(e, a)] f o)
    (h' : Resolved origin [(e, a)] f o') : o = o' := by
  simp only [Resolved, Replied, List.mem_singleton, Prod.mk.injEq] at h h'
  rcases h with ⟨e₁, n, ended, ⟨rfl, -⟩, hc, -⟩
    | ⟨specs, root, reply, results, submitted, ⟨rfl, -⟩, -, ho⟩
  · rcases h' with ⟨e₂, n', ended', ⟨rfl, -⟩, hc', -⟩
      | ⟨specs, root, reply, results, submitted, ⟨rfl, -⟩, -⟩
    · exact congrArg Completion.outcome (Option.some.inj (hc.symm.trans hc'))
    · cases hc
  · rcases h' with ⟨e₂, n', ended', ⟨rfl, -⟩, hc', -⟩
      | ⟨specs', root', reply', results', submitted', ⟨he, -⟩, -, ho'⟩
    · cases hc'
    · cases he
      exact Option.some.inj (ho.symm.trans ho')

namespace Settled

theorem store?_eq (h : Settled cache origin d₀ H s d) {c : Coordinator} (hc : c.cache = cache)
    (root : Path) : c.store? root = some .memory := by
  rw [Coordinator.store?, hc, if_pos h.enabled, CacheService.storeFor, h.location]

theorem found?_eq (h : Settled cache origin d₀ H s d) (root : Path) (f : String) :
    CacheStore.found? (s.coordinator.store? root) s.coordinator.images d f
      = s.coordinator.images.lookup f := by
  rw [h.store?_eq (c := s.coordinator) h.sourced.traced.cache_eq]
  rfl

theorem running_of_resolved (h : Settled cache origin d₀ H s d)
    (he : Happens s d e s' a d') (hb : Resolved origin H f (.success b)) : s'.running f = [] := by
  obtain ⟨hrun, hl⟩ := h.settled f b hb
  refine List.eq_nil_iff_forall_not_mem.2 fun i hi => ?_
  rcases h.sourced.recorded.accounted.of_running he hi with hold | ⟨root, hmiss⟩
  · rw [hrun] at hold
    simp at hold
  · rw [h.found?_eq, hl] at hmiss
    simp at hmiss

theorem running_ne_nil (h : Settled cache origin d₀ H s d) {late : Bool} {n : Nat}
    {ended : List (Nat × RenderResult)}
    (hs : (s.dispatch ⟨origin, f, o⟩ late : StateM Disk _).run d = ((s', n, ended), d'))
    (hn : 0 < n) : s.running f ≠ [] := by
  have hacc := h.sourced.recorded.accounted
  obtain ⟨hcount, -⟩ := dispatch_spec hs hacc.routed
  rw [Router.dispatch, if_pos h.sourced.recorded.trusted.symm] at hcount
  have hlen : n = (s.running f).length := hcount.trans (hacc.pending_eq f)
  rw [hlen] at hn
  exact List.ne_nil_of_length_pos hn

/-- Nothing is delivered for a fingerprint that is settled. -/
theorem not_resolved (h : Settled cache origin d₀ H s d) (he : Happens s d e s' a d')
    (hnew : Resolved origin [(e, a)] f o) : ¬ Resolved origin H f (.success b) := by
  intro hb
  obtain ⟨hrun, hl⟩ := h.settled f b hb
  simp only [Resolved, Replied, List.mem_singleton, Prod.mk.injEq] at hnew
  rcases hnew with ⟨e', n, ended, ⟨rfl, rfl⟩, hc, hn⟩
    | ⟨specs, root, reply, results, submitted, ⟨rfl, rfl⟩, hf, -⟩
  · cases he with
    | dispatch c hs | deliver c hs =>
      obtain rfl := Option.some.inj hc
      exact h.running_ne_nil hs hn hrun
    | poll g hs => cases hc
  · cases he with
    | renderAll specs root reply hs =>
      obtain ⟨c, batch, hbatch⟩ := renderAll_spec hs h.sourced.recorded.accounted.routed
      have hmiss := (hbatch.exists_of_mem_submitted hf).1
      rw [h.found?_eq, hl] at hmiss
      simp at hmiss

theorem resolved_unique (h : Settled cache origin d₀ H s d) (he : Happens s d e s' a d')
    {b' : Bytes} (hb : Resolved origin (H ++ [(e, a)]) f (.success b))
    (hb' : Resolved origin (H ++ [(e, a)]) f (.success b')) : b' = b := by
  rcases resolved_append.1 hb with hold | hnew <;> rcases resolved_append.1 hb' with hold' | hnew'
  · exact Option.some.inj ((h.settled f b' hold').2.symm.trans (h.settled f b hold).2)
  · exact absurd hold (h.not_resolved he hnew')
  · exact absurd hold' (h.not_resolved he hnew)
  · exact Outcome.success.inj (hnew'.unique hnew)

theorem lookup_of_resolved (h : Settled cache origin d₀ H s d)
    (he : Happens s d e s' a d') (hb : Resolved origin H f (.success b)) :
    s'.coordinator.images.lookup f = some b := by
  have hl := (h.settled f b hb).2
  have hr := h.sourced.recorded.accounted.routed
  have hone : ∀ b', Resolved origin (H ++ [(e, a)]) f (.success b') → b' = b := fun b' hb' =>
    h.resolved_unique he (hb.append _) hb'
  cases he with
  | start spec root hs => exact (start_spec hs).2.2.1 ▸ hl
  | dispatch c hs | deliver c hs =>
    obtain ⟨-, hm, -⟩ := dispatch_spec hs hr
    exact hm.lookup ⟨hr.serves.dispatch c, hr.key⟩ (h.sourced.vouched_dispatch rfl hs) hone hl
  | poll g hs =>
    exact (poll_spec hs hr).1.lookup hr (h.sourced.recorded.accounted.vouched.imp
      fun f o ho => .inr (Replied.append ho _)) hone hl
  | abort i =>
    rcases abort_spec s i with hs | ⟨g, p, as, bs, -, -, -, -, hc⟩
    · rwa [hs]
    · rw [hc]
      exact hl
  | renderAll specs root reply hs =>
    obtain ⟨c, batch, hbatch⟩ := renderAll_spec hs hr
    exact hbatch.ended.lookup (hbatch.listened hr) (h.sourced.vouched_renderAll hbatch) hone
      (hbatch.images ▸ hl)
  | close | put path entry | remove path => exact hl

/-- The success of a completion is in memory when the event is over. -/
theorem settled_dispatch (h : Settled cache origin d₀ H s d)
    (hc : e.completion? = some ⟨origin, f, .success b⟩) {late : Bool} {n : Nat}
    {ended : List (Nat × RenderResult)}
    (hs : (s.dispatch ⟨origin, f, .success b⟩ late : StateM Disk _).run d = ((s', n, ended), d'))
    (he : Happens s d e s' (some (.dispatched n ended)) d') (hn : 0 < n) :
    s'.running f = [] ∧ s'.coordinator.images.lookup f = some b := by
  have hacc := h.sourced.recorded.accounted
  have hne := h.running_ne_nil hs hn
  have hs' := hs
  rw [← h.sourced.recorded.trusted] at hs'
  refine ⟨by rw [hacc.running_dispatch hne hs', if_pos rfl], ?_⟩
  -- Any render that runs will do: all of them end in this event.
  obtain ⟨i, hi⟩ := List.exists_mem_of_ne_nil _ hne
  obtain ⟨p, hp, hnone⟩ := mem_running.1 hi
  have hp := List.mem_of_getElem? hp
  have hkey := hacc.key f p hp
  obtain ⟨-, hm, -⟩ := dispatch_spec hs hacc.routed
  have hout : (s.coordinator.router.dispatch ⟨origin, f, .success b⟩).1.outcome? p.listener
      = some (.success b) := by
    rw [hacc.outcome?_dispatch (inFlight_of_mem hp), hnone, Option.none_or,
      if_pos ⟨h.sourced.recorded.trusted.symm, hkey.symm⟩]
  have hnew : Resolved origin [(e, some (.dispatched n ended))] f (.success b) :=
    .inl ⟨e, n, ended, List.mem_singleton.2 rfl, hc, hn⟩
  rw [← hkey]
  refine hm.stored ⟨hacc.routed.serves.dispatch _, hacc.routed.key⟩
    (h.sourced.vouched_dispatch hc hs) (fun b' hb' => ?_) ?_ (inFlight_of_mem hp) hout ?_
  · exact h.resolved_unique he (resolved_append.2 (.inr hnew)) (hkey ▸ hb')
  · obtain ⟨-, root, hstore⟩ := h.sourced.traced.stores p (inFlight_of_mem hp)
    exact hstore.trans (h.store?_eq h.sourced.traced.cache_eq root)
  · intro hp'
    -- It would wait still, since nothing else was delivered for it.
    obtain ⟨g, hg⟩ := mem_inFlight hp'
    obtain ⟨-, hfin⟩ := hacc.finished_dispatch hne hs'
    obtain ⟨⟨j, hj⟩, hres⟩ := hfin.mem_of_mem hg
    have hmem := List.mem_of_getElem? (List.mk_mem_zipIdx_iff_getElem?.1 hj)
    obtain rfl : g = f := (hacc.key g p hmem).symm.trans hkey
    rw [hacc.resolved_dispatch _ _ _ hmem] at hres
    cases late <;> simp [waits, hnone] at hres

/-- The success that a batch gets is in memory when the event is over. -/
theorem settled_renderAll (h : Settled cache origin d₀ H s d)
    {specs : List Spec} {root : Path} {reply : String → Option Outcome}
    {results : List (Option RenderResult)} {submitted : List String}
    (hs : (s.renderAll specs root reply : StateM Disk _).run d = ((s', results, submitted), d'))
    (hf : f ∈ submitted) (ho : reply f = some (.success b)) :
    s'.running f = [] ∧ s'.coordinator.images.lookup f = some b := by
  have hacc := h.sourced.recorded.accounted
  obtain ⟨c, batch, hb⟩ := renderAll_spec hs hacc.routed
  -- A render from before the batch may have the same outcome and stay in flight with it, so we
  -- follow one of the batch itself.
  obtain ⟨-, p, hp, hkey⟩ := hb.exists_of_mem_submitted hf
  obtain ⟨hno, hnone⟩ := hb.outcome?_of_mem hacc.routed hp
  have hmid := List.mem_append_right s.inFlight hp
  have hflight : s'.inFlight = s.inFlight := by rw [inFlight, hb.renders, inFlight]
  have hnew : Resolved origin [(.step (.renderAll specs root reply),
      some (.rendered results submitted))] f (.success b) :=
    .inr ⟨specs, root, reply, results, submitted, List.mem_singleton.2 rfl, hf, ho⟩
  refine ⟨List.eq_nil_iff_forall_not_mem.2 fun i hi => ?_, ?_⟩
  · obtain ⟨q, hq, hqnone⟩ := mem_running.1 hi
    have hq := List.mem_of_getElem? hq
    have hq' : q ∈ s.inFlight := hflight ▸ inFlight_of_mem hq
    have hout := (hb.ended.outcome?_eq (hb.listened hacc.routed) (List.mem_append_left _ hq')
      (inFlight_of_mem hq)).symm.trans hqnone
    have hor := (hb.outcome?_listen hacc.routed (List.mem_append_left _ hq')).symm.trans hout
    rw [hacc.key f q (hb.renders ▸ hq), if_pos hf, ho] at hor
    simp at hor
  · rw [← hkey]
    refine hb.ended.stored (hb.listened hacc.routed) (h.sourced.vouched_renderAll hb)
      (fun b' hb' => ?_) ?_ hmid ?_ (fun hp' => hno (hflight ▸ hp'))
    · exact h.resolved_unique (.renderAll specs root reply hs) (resolved_append.2 (.inr hnew))
        (hkey ▸ hb')
    · have htraced := hb.began.traced hacc.routed
        (hacc.vouched.imp fun f o ho => Or.inr ho) h.sourced.traced
      obtain ⟨-, root', hstore⟩ := htraced.stores p hmid
      exact hstore.trans (h.store?_eq htraced.cache_eq root')
    · rw [hb.outcome?_listen hacc.routed hmid, hnone, hkey, if_pos hf, ho]
      rfl

theorem handle (h : Settled cache origin d₀ H s d) (he : Happens s d e s' a d') :
    Settled cache origin d₀ (H ++ [(e, a)]) s' d' := by
  refine ⟨h.enabled, h.location, h.sourced.handle he, fun f b hb => ?_⟩
  rcases resolved_append.1 hb with hold | hnew
  · exact ⟨h.running_of_resolved he hold, h.lookup_of_resolved he hold⟩
  · simp only [Resolved, Replied, List.mem_singleton, Prod.mk.injEq] at hnew
    rcases hnew with ⟨e', n, ended, ⟨rfl, rfl⟩, hc, hn⟩
      | ⟨specs, root, reply, results, submitted, ⟨rfl, rfl⟩, hf, ho⟩
    · have he' := he
      cases he' with
      | dispatch c hs | deliver c hs =>
        obtain rfl := Option.some.inj hc
        exact h.settled_dispatch rfl hs he hn
      | poll g hs => cases hc
    · cases he with
      | renderAll specs root reply hs => exact h.settled_renderAll hs hf ho

theorem start_hit (h : Settled cache origin d₀ H s d)
    (hl : s.coordinator.images.lookup f = some b) (submit : PlotRequest → Except RenderError Unit)
    {spec : Spec} (hf : spec.fingerprint = f) (root : Path) :
    (s.coordinator.start submit spec root : StateM Disk _).run d
      = ((s.coordinator, .done (.ok ⟨b, .cache, none⟩)), d) := by
  have hfound := (h.found?_eq root spec.fingerprint).trans (hf ▸ hl)
  rcases hs : (s.coordinator.start submit spec root : StateM Disk _).run d with ⟨⟨c, st⟩, d'⟩
  obtain ⟨rfl, ⟨image, hi, rfl, rfl⟩ | ⟨hmiss, -⟩⟩ := Coordinator.run_start hs
  · rw [Option.some.inj (hi.symm.trans hfound)]
  · rw [hfound] at hmiss
    simp at hmiss

theorem renderAll_hit (h : Settled cache origin d₀ H s d)
    (hl : s.coordinator.images.lookup f = some b) {specs : List Spec} {root : Path}
    {reply : String → Option Outcome} {results : List (Option RenderResult)}
    {submitted : List String}
    (hs : (s.renderAll specs root reply : StateM Disk _).run d = ((s', results, submitted), d')) :
    f ∉ submitted ∧ ∀ (i : Nat) (spec : Spec), specs[i]? = some spec → spec.fingerprint = f →
      results[i]? = some (some (.ok ⟨b, .cache, none⟩)) := by
  obtain ⟨c, batch, hb⟩ := renderAll_spec hs h.sourced.recorded.accounted.routed
  have hfound := (h.found?_eq root f).trans hl
  refine ⟨fun hf => ?_, fun i spec hi hf => ?_⟩
  · rw [(hb.exists_of_mem_submitted hf).1] at hfound
    simp at hfound
  · obtain ⟨st, hst, hbegin⟩ := exists_getElem?_of_forall₂ hb.begins hi
    obtain ⟨a, ha, hans⟩ := exists_getElem?_of_forall₂ hb.answers hst
    subst hf
    rcases st with result | ⟨p, request⟩
    · rcases hbegin with ⟨image, hi, rfl⟩ | ⟨hmiss, -⟩
      · rw [← Option.some.inj (hi.symm.trans hfound), ha, show a = _ from hans]
      · rw [hfound] at hmiss
        simp at hmiss
    · rw [hbegin.1] at hfound
      simp at hfound

end Settled

/-- With the cache in memory, once a success resolved a render: in every later state no render of
its fingerprint runs or is pending, its image is in memory, every start of a spec of the
fingerprint ends with that image from the cache whatever the renderer would say, and a batch
answers such specs with it and submits no request for them. -/
theorem success_in_memory_stays (cache : CacheService) (hon : cache.settings.enabled = true)
    (hmem : cache.settings.location = .memory) (origin : String) (d₀ : Disk)
    (before after : List Event) (f : String) (b : Bytes) :
    let r := ((new cache origin).run before).run d₀
    let r' := (r.1.1.run after).run r.2
    let s := r'.1.1
    Resolved origin (before.zip r.1.2) f (.success b) →
      s.running f = [] ∧ s.coordinator.router.pending f = 0
        ∧ s.coordinator.images.lookup f = some b
        ∧ (∀ submit (spec : Spec) root, spec.fingerprint = f →
            (s.coordinator.start submit spec root : StateM Disk _).run r'.2
              = ((s.coordinator, .done (.ok ⟨b, .cache, none⟩)), r'.2))
        ∧ (∀ (spec : Spec) root, spec.fingerprint = f →
            ((s.handle (.step (.start spec root))).run r'.2).1.2
              = some (.started s.renders.length (.done (.ok ⟨b, .cache, none⟩))))
        ∧ ∀ specs root reply results submitted,
            ((s.handle (.step (.renderAll specs root reply))).run r'.2).1.2
              = some (.rendered results submitted) →
            f ∉ submitted ∧ ∀ (i : Nat) (spec : Spec), specs[i]? = some spec →
              spec.fingerprint = f → results[i]? = some (some (.ok ⟨b, .cache, none⟩)) := by
  intro r r' s hb
  have hbefore : Settled cache origin d₀ (before.zip r.1.2) r.1.1 r.2 :=
    run_keep (fun he h => h.handle he) before rfl (settled_new hon hmem origin d₀)
  have h : Settled cache origin d₀ (before.zip r.1.2 ++ after.zip r'.1.2) s r'.2 :=
    run_keep (fun he h => h.handle he) after rfl hbefore
  obtain ⟨hrun, hl⟩ := h.settled f b (hb.append _)
  refine ⟨hrun, ?_, hl, fun submit spec root hf => h.start_hit hl submit hf root,
    fun spec root hf => ?_, fun specs root reply results submitted ha => ?_⟩
  · rw [h.sourced.recorded.accounted.pending_eq, hrun]
    rfl
  · have hs := h.start_hit hl s.submit hf root
    have hstep : (s.handle (.step (.start spec root))).run r'.2
        = ((_, some (.started s.renders.length (.done (.ok ⟨b, .cache, none⟩)))), r'.2) :=
      run_bind_eq.2 ⟨_, _, run_bind_eq.2 ⟨_, _, run_bind_eq.2 ⟨_, _, hs, rfl⟩, rfl⟩, rfl⟩
    rw [hstep]
  · rcases ht : (s.handle (.step (.renderAll specs root reply))).run r'.2 with ⟨⟨s', a⟩, d'⟩
    rw [ht] at ha
    obtain rfl : a = _ := ha
    cases happens_of_handle ht with
    | renderAll specs root reply hs => exact h.renderAll_hit hl hs

/-- A batch of one, and a start when the channel is closed. -/
theorem success_in_memory_stays_one :
    let spec := Spec.ofContent [] .default
    let batch := Event.step (.renderAll [spec] ⟨"/"⟩ fun _ => some (.success [137]))
    let r := ((new ⟨⟨true, .memory, none⟩, "", ⟨"/tmp"⟩⟩ "a").run [batch]).run ⟨[], []⟩
    let r' := (r.1.1.run [.step .close]).run r.2
    ((r'.1.1.handle (.step (.start spec ⟨"/"⟩))).run r'.2).1.2
      = some (.started 0 (.done (.ok ⟨[137], .cache, none⟩))) := by
  intro spec batch r r'
  have hb : Resolved "a" ([batch].zip r.1.2) spec.fingerprint (.success [137]) :=
    .inr ⟨[spec], ⟨"/"⟩, _, _, [spec.fingerprint], List.mem_singleton.2 rfl,
      List.mem_singleton_self _, rfl⟩
  exact (success_in_memory_stays ⟨⟨true, .memory, none⟩, "", ⟨"/tmp"⟩⟩ rfl rfl "a" ⟨[], []⟩ [batch]
    [.step .close] spec.fingerprint [137] hb).2.2.2.2.1 spec ⟨"/"⟩ rfl

end Session

end GraphBlock
