import GraphBlock.Proofs.Render.Moves

/-!
# What a session does, step by step

Each step of a session as moves with the deliveries between them (`start_spec`, `dispatch_spec`,
`abort_spec`, `renderAll_spec`).  Moves deliver nothing: what is there for a render was there
before, and it stays as long as the render is in flight (`Moves.fresh`, `Moves.outcome?_eq`).  A
batch gets its replies between its beginning and its end (`Batch`), and each of them resolves a
render of the batch (`Batch.resolves`).  No event drops a render from the list or changes its
fingerprint (`Happens.names`), and what every event keeps holds after every run (`run_keep`).
-/

namespace GraphBlock

namespace Stage

variable {s t : Stage} {P Q : String → Outcome → Prop}

/-- Every outcome that is there for a render in flight has this property. -/
def Vouched (P : String → Outcome → Prop) (s : Stage) : Prop :=
  ∀ p ∈ s.renders, ∀ o, s.coordinator.router.outcome? p.listener = some o → P p.fingerprint o

theorem Vouched.imp (h : s.Vouched P) (hPQ : ∀ f o, P f o → Q f o) : s.Vouched Q :=
  fun p hp o ho => hPQ _ _ (h p hp o ho)

theorem Vouched.release {c : Coordinator} {as bs : List PendingRender} {p : PendingRender}
    {d : Disk} (h : Vouched P ⟨c, as ++ p :: bs, d⟩) (images : MemoryCache) (d' : Disk) :
    Vouched P ⟨{ c with router := c.router.release p.listener, images := images }, as ++ bs,
      d'⟩ := by
  exact fun q hq o ho => h q (mem_middle hq) o (Router.outcome?_of_release ho)

/-- No move delivers anything. -/
theorem Moves.outcome?_of (hm : s.Moves t) {l : Listener} {o : Outcome}
    (h : t.coordinator.router.outcome? l = some o) :
    s.coordinator.router.outcome? l = some o := by
  induction hm with
  | refl => exact h
  | tail _ hlast ih =>
    refine ih ?_
    cases hlast with
    | enlist c ps d spec root hnone => exact h
    | refuse c ps d f => exact Router.outcome?_of_release h
    | finish as bs ho hk => exact Router.outcome?_of_release h
    | giveUp as bs d hnone => exact Router.outcome?_of_release h

/-- A render in flight was so before, or nothing was delivered for it. -/
theorem Moves.fresh (hm : s.Moves t) (hr : s.Routed) {p : PendingRender} (hp : p ∈ t.renders) :
    p ∈ s.renders ∨ t.coordinator.router.outcome? p.listener = none := by
  have hkeep : t.Routed ∧ ∀ p ∈ t.renders, p ∈ s.renders
      ∨ t.coordinator.router.outcome? p.listener = none := by
    refine hm.keep (P := fun t => t.Routed ∧ ∀ p ∈ t.renders, p ∈ s.renders
      ∨ t.coordinator.router.outcome? p.listener = none) (fun {u v} hmove h => ?_)
      ⟨hr, fun p hp => .inl hp⟩
    refine ⟨hmove.routed h.1, fun p hp => ?_⟩
    have hsub : p ∈ u.renders → p ∈ s.renders
        ∨ v.coordinator.router.outcome? p.listener = none := fun hpu => by
      refine (h.2 p hpu).imp id fun hnone => ?_
      rcases hv : v.coordinator.router.outcome? p.listener with _ | o
      · rfl
      · rw [Moves.outcome?_of (.single hmove) hv] at hnone
        simp at hnone
    cases hmove with
    | enlist c ps d spec root hnone =>
      rcases List.mem_append.1 hp with hp | hp
      · exact hsub hp
      · obtain rfl := List.mem_singleton.1 hp
        exact .inr (h.1.serves.outcome?_register spec.fingerprint)
    | refuse c ps d f => exact hsub hp
    | finish as bs ho hk | giveUp as bs d hnone => exact hsub (mem_middle hp)
  exact hkeep.2 p hp

theorem Moves.routed (hm : s.Moves t) (hr : s.Routed) : t.Routed :=
  hm.keep Move.routed hr

theorem Moves.vouched (hm : s.Moves t) (hr : s.Routed) (h : s.Vouched P) : t.Vouched P := by
  intro p hp o ho
  rcases hm.fresh hr hp with hp | hnone
  · exact h p hp o (hm.outcome?_of ho)
  · rw [hnone] at ho
    simp at ho

/-- What was delivered to a render stays with it as long as it is in flight. -/
theorem Moves.outcome?_eq (hm : s.Moves t) (hr : s.Routed) {p : PendingRender}
    (hs : p ∈ s.renders) (ht : p ∈ t.renders) :
    t.coordinator.router.outcome? p.listener = s.coordinator.router.outcome? p.listener := by
  -- The render may end on the way.  The bound on its number says that no later one is taken for it.
  have hkeep : t.Routed ∧ p.listener.id < t.coordinator.router.nextId ∧ (p ∈ t.renders →
      t.coordinator.router.outcome? p.listener = s.coordinator.router.outcome? p.listener) := by
    refine hm.keep (P := fun t => t.Routed ∧ p.listener.id < t.coordinator.router.nextId
      ∧ (p ∈ t.renders → t.coordinator.router.outcome? p.listener
        = s.coordinator.router.outcome? p.listener)) (fun {u v} hmove h => ?_)
      ⟨hr, hr.serves.id_lt (List.mem_map_of_mem hs), fun _ => rfl⟩
    refine ⟨hmove.routed h.1, ?_, fun hp => ?_⟩
    · cases hmove with
      | enlist | refuse => exact Nat.lt_succ_of_lt h.2.1
      | finish | giveUp => exact h.2.1
    · cases hmove with
      | enlist c ps d spec root hnone =>
        rcases List.mem_append.1 hp with hp | hp
        · exact h.2.2 hp
        · obtain rfl := List.mem_singleton.1 hp
          exact absurd h.2.1 (Nat.lt_irrefl _)
      | refuse c ps d f =>
        have hreg := h.1.register f none
        exact (hreg.outcome?_release (by rwa [List.append_nil])).trans (h.2.2 hp)
      | finish as bs ho hk | giveUp as bs d hnone =>
        exact (h.1.outcome?_release hp).trans (h.2.2 (mem_middle hp))
  exact hkeep.2.2 ht

theorem Moves.cache (hm : s.Moves t) : t.coordinator.cache = s.coordinator.cache :=
  Moves.keep (P := fun t => t.coordinator.cache = s.coordinator.cache)
    (fun hm h => by cases hm <;> exact h) hm rfl

theorem Moves.origin (hm : s.Moves t) :
    t.coordinator.router.origin = s.coordinator.router.origin :=
  Moves.keep (P := fun t => t.coordinator.router.origin = s.coordinator.router.origin)
    (fun hm h => by cases hm <;> exact h) hm rfl

end Stage

theorem Router.origin_listen : ∀ (cs : List Completion) (r : Router),
    (r.listen cs).origin = r.origin
  | [], _ => rfl
  | c :: cs, r => by
    show ((r.dispatch c).1.listen cs).origin = r.origin
    rw [origin_listen cs, origin_dispatch]

/-- What nobody waits for is delivered to nobody. -/
theorem Router.outcome?_dispatch_of_zero {r : Router} {c : Completion}
    (h : (r.dispatch c).2 = 0) (l : Listener) :
    (r.dispatch c).1.outcome? l = r.outcome? l := by
  rw [Router.outcome?_dispatch, if_neg, Option.or_none]
  rintro ⟨ho, hmem⟩
  simp only [Router.dispatch, if_pos ho, List.length_eq_zero_iff] at h
  rw [h] at hmem
  simp at hmem

namespace Session

open Disk Stage

variable {s s' : Session} {d d' : Disk} {spec : Spec} {root : Path}

def inFlight (s : Session) : List PendingRender :=
  s.renders.filterMap Prod.snd

def stage (s : Session) (d : Disk) : Stage :=
  ⟨s.coordinator, s.inFlight, d⟩

theorem start_spec {st : Started}
    (h : (s.start spec root : StateM Disk _).run d = ((s', st), d')) :
    Moves (s.stage d) (s'.stage d') ∧ s'.renders = s.renders ++ [(spec.fingerprint, render? st)]
      ∧ s'.coordinator.images = s.coordinator.images ∧ d' = d
      ∧ Begins s.coordinator d root spec st := by
  obtain ⟨⟨c, st'⟩, d₁, hs, h⟩ := run_bind_eq.1 h
  cases h
  obtain ⟨hm, rfl, hi, -, hb⟩ := start_moves hs s.inFlight
  have hflight : ∀ w : Option PendingRender,
      (s.renders ++ [(spec.fingerprint, w)]).filterMap Prod.snd = s.inFlight ++ w.toList := by
    intro w
    rw [List.filterMap_append, inFlight]
    cases w <;> rfl
  refine ⟨?_, ?_, hi, rfl, hb⟩
  · rw [← hflight] at hm
    rcases st with r | ⟨p, request⟩ <;> exact hm
  · rcases st with r | ⟨p, request⟩ <;> rfl

theorem filterMap_zipIdx (s : Session) :
    s.renders.zipIdx.filterMap (fun x => x.1.2) = s.inFlight := by
  have hmap := List.filterMap_map (f := Prod.fst) (g := Prod.snd) (l := s.renders.zipIdx)
  rw [List.zipIdx_map_fst] at hmap
  exact hmap.symm

theorem dispatch_spec {completion : Completion} {late : Bool} {n : Nat}
    {ended : List (Nat × RenderResult)}
    (h : (s.dispatch completion late : StateM Disk _).run d = ((s', n, ended), d'))
    (hr : (s.stage d).Routed) :
    n = (s.coordinator.router.dispatch completion).2
      ∧ let c := { s.coordinator with router := (s.coordinator.router.dispatch completion).1 }
        Moves ⟨c, s.inFlight, d⟩ (s'.stage d')
          ∧ (n = 0 ∧ s'.renders = s.renders ∧ ended = []
            ∨ 0 < n ∧ Finished (s.wakes completion.fingerprint late) [] s.renders.zipIdx c d
                s'.coordinator s'.renders ended d') := by
  simp only [Session.dispatch] at h
  split_ifs at h with hn
  · cases h
    exact ⟨hn.symm, .refl, .inl ⟨rfl, rfl, rfl⟩⟩
  · obtain ⟨⟨c, renders, es⟩, d₁, hf, h⟩ := run_bind_eq.1 h
    cases h
    have hfin := finishAll_moves _ _ hf [] (by
      rw [List.nil_append, filterMap_zipIdx]
      exact ⟨hr.serves.dispatch completion, hr.key⟩)
    have hm := hfin.moves
    rw [List.nil_append, List.nil_append, filterMap_zipIdx] at hm
    exact ⟨rfl, hm, .inr ⟨Nat.pos_of_ne_zero hn, hfin⟩⟩

theorem poll_spec {f : String} {ended : List (Nat × RenderResult)}
    (h : (s.poll f : StateM Disk _).run d = ((s', ended), d')) (hr : (s.stage d).Routed) :
    Moves (s.stage d) (s'.stage d')
      ∧ Finished (s.wakes f true) [] s.renders.zipIdx s.coordinator d s'.coordinator s'.renders
        ended d' := by
  obtain ⟨⟨c, renders, es⟩, d₁, hf, h⟩ := run_bind_eq.1 h
  cases h
  have hfin := finishAll_moves _ _ hf [] (by rwa [List.nil_append, filterMap_zipIdx])
  have hm := hfin.moves
  rw [List.nil_append, List.nil_append, filterMap_zipIdx] at hm
  exact ⟨hm, hfin⟩

theorem abort_spec (s : Session) (i : Nat) : (s.abort i).1 = s
    ∨ ∃ f p as bs, s.renders[i]? = some (f, some p) ∧ s.inFlight = as ++ p :: bs
      ∧ (s.abort i).1.inFlight = as ++ bs ∧ (s.abort i).1.renders = s.renders.set i (f, none)
      ∧ (s.abort i).1.coordinator = s.coordinator.abandon p := by
  rcases hi : s.renders[i]? with _ | ⟨f, _ | p⟩
  · exact .inl (by simp only [abort, hi])
  · exact .inl (by simp only [abort, hi])
  · obtain ⟨hlt, hget⟩ := List.getElem?_eq_some_iff.1 hi
    obtain ⟨xs, ys, hxs, -, hset⟩ : ∃ xs ys, s.renders = xs ++ s.renders[i] :: ys
        ∧ xs.length = i ∧ s.renders.set i (f, none) = xs ++ (f, none) :: ys :=
      List.exists_of_set hlt
    rw [hget] at hxs
    refine .inr ⟨f, p, xs.filterMap Prod.snd, ys.filterMap Prod.snd, rfl, ?_, ?_, ?_, ?_⟩
    · rw [inFlight, hxs, List.filterMap_append]
      rfl
    · simp only [abort, hi, inFlight, hset, List.filterMap_append]
      rfl
    · simp only [abort, hi]
    · simp only [abort, hi]

/-- The replies to the requests of a batch, in the order of submission. -/
def replies (origin : String) (reply : String → Option Outcome) (submitted : List String) :
    List Completion :=
  submitted.filterMap fun f => (reply f).map fun outcome => ⟨origin, f, outcome⟩

theorem firstMatch_replies (origin : String) (reply : String → Option Outcome) (f : String) :
    ∀ fs : List String, Exchange.firstMatch origin f (replies origin reply fs)
      = if f ∈ fs then reply f else none
  | [] => rfl
  | g :: fs => by
    have ih := firstMatch_replies origin reply f fs
    rcases hg : reply g with _ | o
    · rw [replies, List.filterMap_cons_none (by rw [hg]; rfl), ← replies, ih]
      by_cases hfg : f = g
      · subst hfg
        simp [hg]
      · simp [hfg]
    · rw [replies, List.filterMap_cons_some (by rw [hg]; rfl), ← replies, ← List.singleton_append,
        Exchange.firstMatch_append, Exchange.firstMatch_singleton, ih]
      by_cases hfg : f = g
      · subst hfg
        simp [hg]
      · simp [hfg, Ne.symm hfg]

/-- A batch was rendered: its renders began, the replies were delivered, and its renders ended. -/
structure Batch (s : Session) (d : Disk) (specs : List Spec) (root : Path)
    (reply : String → Option Outcome) (s' : Session) (d' : Disk)
    (results : List (Option RenderResult)) (submitted : List String) (c : Coordinator)
    (batch : List Started) : Prop where
  began : Moves (s.stage d) ⟨c, s.inFlight ++ batch.filterMap render?, d⟩
  begins : List.Forall₂ (Begins s.coordinator d root) specs batch
  images : c.images = s.coordinator.images
  requests : submitted = (batch.filterMap render?).map PendingRender.fingerprint
  ended : Moves ⟨{ c with router := (c.router.listen
      (replies s.coordinator.router.origin reply submitted)) },
    s.inFlight ++ batch.filterMap render?, d⟩ (s'.stage d')
  answers : List.Forall₂ (Answers (c.router.listen
    (replies s.coordinator.router.origin reply submitted))) batch results
  renders : s'.renders = s.renders

theorem submitted_eq {c : Coordinator} : ∀ {specs : List Spec} {batch : List Started},
    List.Forall₂ (Begins c d root) specs batch →
      Session.submitted batch = (batch.filterMap render?).map PendingRender.fingerprint
  | [], [], .nil => rfl
  | spec :: specs, st :: batch, .cons hst hbs => by
    have ih := submitted_eq hbs
    rcases st with r | ⟨p, request⟩
    · exact ih
    · obtain ⟨-, rfl, hp⟩ := hst
      show spec.request.fingerprint :: Session.submitted batch = p.fingerprint :: _
      rw [hp, ih]
      rfl

/-- A batch with the runs of its two loops. -/
theorem renderAll_runs {specs : List Spec} {reply : String → Option Outcome}
    {results : List (Option RenderResult)} {submitted : List String}
    (h : (s.renderAll specs root reply : StateM Disk _).run d = ((s', results, submitted), d'))
    (hr : (s.stage d).Routed) :
    ∃ c batch, Batch s d specs root reply s' d' results submitted c batch
      ∧ (s.startAll s.coordinator root (specs.map .queued) : StateM Disk _).run d
        = ((c, batch, submitted), d)
      ∧ (endAll { c with router := (c.router.listen
          (replies s.coordinator.router.origin reply submitted)) } batch : StateM Disk _).run d
        = ((s'.coordinator, results), d') := by
  obtain ⟨b, d₀, hb, h⟩ := run_bind_eq.1 h
  cases hb
  obtain ⟨⟨c, batch, asked⟩, d₁, hs, h⟩ := run_bind_eq.1 h
  obtain ⟨⟨c', rs⟩, d₂, he, h⟩ := run_bind_eq.1 h
  cases h
  obtain ⟨hm, rfl, hi, -, hb, rfl⟩ := startAll_moves specs hs s.inFlight
  have hr' : Routed ⟨c, s.inFlight ++ batch.filterMap render?, d₁⟩ := hm.routed hr
  obtain ⟨hend, ha⟩ := endAll_moves batch he s.inFlight ⟨hr'.serves.listen _, hr'.key⟩
  have horigin : c.router.origin = s.coordinator.router.origin := hm.origin
  simp only [horigin] at hend ha he
  exact ⟨c, batch, ⟨hm, hb, hi, submitted_eq hb, hend, ha, rfl⟩, hs, he⟩

theorem renderAll_spec {specs : List Spec} {reply : String → Option Outcome}
    {results : List (Option RenderResult)} {submitted : List String}
    (h : (s.renderAll specs root reply : StateM Disk _).run d = ((s', results, submitted), d'))
    (hr : (s.stage d).Routed) :
    ∃ c batch, Batch s d specs root reply s' d' results submitted c batch := by
  obtain ⟨c, batch, hb, -⟩ := renderAll_runs h hr
  exact ⟨c, batch, hb⟩

namespace Batch

variable {specs : List Spec} {reply : String → Option Outcome}
  {results : List (Option RenderResult)} {submitted : List String} {c : Coordinator}
  {batch : List Started} {p : PendingRender}

/-- The replies reach those in flight, of the batch or not, that have no outcome. -/
theorem outcome?_listen (h : Batch s d specs root reply s' d' results submitted c batch)
    (hr : (s.stage d).Routed) (hp : p ∈ s.inFlight ++ batch.filterMap render?) :
    (c.router.listen (replies s.coordinator.router.origin reply submitted)).outcome? p.listener
      = (c.router.outcome? p.listener).or
        (if p.fingerprint ∈ submitted then reply p.fingerprint else none) := by
  have hr' := h.began.routed hr
  have horigin : c.router.origin = s.coordinator.router.origin := h.began.origin
  have hlisten := hr'.serves.outcome?_listen (List.mem_map_of_mem hp)
    (replies s.coordinator.router.origin reply submitted)
  rw [hlisten, hr'.key p hp, horigin, firstMatch_replies]

theorem listened (h : Batch s d specs root reply s' d' results submitted c batch)
    (hr : (s.stage d).Routed) :
    Routed ⟨{ c with router := (c.router.listen
      (replies s.coordinator.router.origin reply submitted)) },
      s.inFlight ++ batch.filterMap render?, d⟩ :=
  ⟨(h.began.routed hr).serves.listen _, (h.began.routed hr).key⟩

theorem vouched {P : String → Outcome → Prop}
    (h : Batch s d specs root reply s' d' results submitted c batch) (hr : (s.stage d).Routed)
    (hv : (s.stage d).Vouched P) (hP : ∀ f ∈ submitted, ∀ o, reply f = some o → P f o) :
    Vouched P ⟨{ c with router := (c.router.listen
      (replies s.coordinator.router.origin reply submitted)) },
      s.inFlight ++ batch.filterMap render?, d⟩ := by
  intro p hp o ho
  rw [h.outcome?_listen hr hp] at ho
  rcases Option.or_eq_some_iff.1 ho with hold | ⟨-, hnew⟩
  · exact h.began.vouched hr hv p hp o hold
  · split_ifs at hnew with hsub
    exact hP _ hsub o hnew

/-- Nothing is delivered for a render of the batch before the replies. -/
theorem outcome?_of_mem (h : Batch s d specs root reply s' d' results submitted c batch)
    (hr : (s.stage d).Routed) (hp : p ∈ batch.filterMap render?) :
    p ∉ s.inFlight ∧ c.router.outcome? p.listener = none := by
  have hr' := h.began.routed hr
  have hno : p ∉ s.inFlight := fun hold => by
    have hnodup := hr'.serves.1
    rw [List.map_map, List.map_append, List.nodup_append] at hnodup
    exact hnodup.2.2 _ (List.mem_map_of_mem hold) _ (List.mem_map_of_mem hp) rfl
  exact ⟨hno, (h.began.fresh hr (List.mem_append_right _ hp)).resolve_left hno⟩

theorem exists_of_mem_submitted (h : Batch s d specs root reply s' d' results submitted c batch)
    {f : String} (hf : f ∈ submitted) :
    CacheStore.found? (s.coordinator.store? root) s.coordinator.images d f = none
      ∧ ∃ p ∈ batch.filterMap render?, p.fingerprint = f := by
  rw [h.requests] at hf
  obtain ⟨p, hp, rfl⟩ := List.mem_map.1 hf
  refine ⟨?_, p, hp, rfl⟩
  obtain ⟨st, hst, hrender⟩ := List.mem_filterMap.1 hp
  obtain ⟨spec, -, hbegin⟩ := exists_of_mem_forall₂ h.begins hst
  rcases st with result | ⟨q, request⟩
  · simp [render?] at hrender
  · obtain rfl := Option.some.inj hrender
    exact hbegin.2.2 ▸ hbegin.1

/-- A reply to a request of the batch resolves the render that submitted it. -/
theorem resolves (h : Batch s d specs root reply s' d' results submitted c batch)
    (hr : (s.stage d).Routed) {f : String} {o : Outcome} (hf : f ∈ submitted)
    (ho : reply f = some o) :
    ∃ (i : Nat) (spec : Spec) (result : RenderResult), specs[i]? = some spec
      ∧ spec.fingerprint = f ∧ results[i]? = some (some result) ∧ o.Settles f result := by
  have hsub := hf
  rw [h.requests] at hsub
  obtain ⟨p, hp, rfl⟩ := List.mem_map.1 hsub
  have hout := h.outcome?_listen hr (List.mem_append_right _ hp)
  rw [(h.outcome?_of_mem hr hp).2, if_pos hf, Option.none_or, ho] at hout
  obtain ⟨st, hst, hrender⟩ := List.mem_filterMap.1 hp
  rcases st with result | ⟨q, request⟩
  · simp [render?] at hrender
  · obtain rfl := Option.some.inj hrender
    obtain ⟨i, hi⟩ := List.mem_iff_getElem?.1 hst
    obtain ⟨spec, hspec, hbegin⟩ := exists_getElem?_of_forall₂ h.begins.flip hi
    obtain ⟨a, ha, hans⟩ := exists_getElem?_of_forall₂ h.answers hi
    rcases hans with ⟨hnone, -⟩ | ⟨o', result, ho', rfl, hset⟩
    · rw [hout] at hnone
      simp at hnone
    · obtain rfl := Option.some.inj (hout.symm.trans ho')
      exact ⟨i, spec, result, hspec, hbegin.2.2.symm, ha, hset⟩

end Batch

namespace Finished

variable {due : String → PendingRender → Bool} {ps : List PendingRender}
  {xs : List ((String × Option PendingRender) × Nat)} {c c' : Coordinator}
  {renders : List (String × Option PendingRender)} {ended : List (Nat × RenderResult)}

theorem mem_of_mem {g : String} {p : PendingRender}
    (h : Finished due ps xs c d c' renders ended d') (hp : (g, some p) ∈ renders) :
    (∃ i, ((g, some p), i) ∈ xs) ∧ resolved c.router due (g, some p) = false := by
  rw [h.renders, List.mem_map] at hp
  obtain ⟨⟨⟨g', w⟩, i⟩, hx, he⟩ := hp
  obtain ⟨rfl, hw⟩ := Prod.mk.inj he
  split at hw
  · simp at hw
  · rename_i hno
    subst hw
    exact ⟨⟨i, hx⟩, by simpa using hno⟩

theorem renders_eq (h : Finished due ps s.renders.zipIdx c d c' s'.renders ended d') :
    s'.renders = s.renders.map (remaining c.router due) := by
  rw [h.renders]
  conv_rhs => rw [← List.zipIdx_map_fst 0 s.renders, List.map_map]
  rfl

/-- Renders that end keep their numbers and fingerprints. -/
theorem names (h : Finished due ps s.renders.zipIdx c d c' s'.renders ended d') :
    s'.renders.map Prod.fst = s.renders.map Prod.fst := by
  rw [h.renders_eq, List.map_map]
  rfl

theorem of_inFlight {i : Nat} {f : String} {p : PendingRender}
    (h : Finished due ps s.renders.zipIdx c d c' s'.renders ended d')
    (hi : s'.renders[i]? = some (f, some p)) : s.renders[i]? = some (f, some p) := by
  rw [h.renders_eq, List.getElem?_map, Option.map_eq_some_iff] at hi
  obtain ⟨⟨g, w⟩, hj, hx⟩ := hi
  obtain ⟨rfl, hw⟩ := Prod.mk.inj hx
  split at hw
  · simp at hw
  · subst hw
    exact hj

end Finished

/-- The completion that an event hands over. -/
def Event.completion? : Event → Option Completion
  | .step (.dispatch completion) | .deliver completion => some completion
  | _ => none

/-- The events of a session, one by one, with what they leave and what they answer. -/
inductive Happens (s : Session) (d : Disk) : Event → Session → Option Answer → Disk → Prop where
  | start {s' : Session} {d' : Disk} {st : Started} (spec : Spec) (root : Path)
      (h : (s.start spec root : StateM Disk _).run d = ((s', st), d')) :
      Happens s d (.step (.start spec root)) s' (some (.started s.renders.length st)) d'
  | dispatch {s' : Session} {d' : Disk} {n : Nat} {ended : List (Nat × RenderResult)}
      (completion : Completion)
      (h : (s.dispatch completion : StateM Disk _).run d = ((s', n, ended), d')) :
      Happens s d (.step (.dispatch completion)) s' (some (.dispatched n ended)) d'
  | deliver {s' : Session} {d' : Disk} {n : Nat} {ended : List (Nat × RenderResult)}
      (completion : Completion)
      (h : (s.dispatch completion false : StateM Disk _).run d = ((s', n, ended), d')) :
      Happens s d (.deliver completion) s' (some (.dispatched n ended)) d'
  | poll {s' : Session} {d' : Disk} {ended : List (Nat × RenderResult)} (f : String)
      (h : (s.poll f : StateM Disk _).run d = ((s', ended), d')) :
      Happens s d (.poll f) s' (some (.dispatched 0 ended)) d'
  | abort (i : Nat) :
      Happens s d (.step (.abort i)) (s.abort i).1 (some (.aborted (s.abort i).2)) d
  | close : Happens s d (.step .close) s.close (some .closed) d
  | renderAll {s' : Session} {d' : Disk} {results : List (Option RenderResult)}
      {submitted : List String} (specs : List Spec) (root : Path)
      (reply : String → Option Outcome)
      (h : (s.renderAll specs root reply : StateM Disk _).run d = ((s', results, submitted), d')) :
      Happens s d (.step (.renderAll specs root reply)) s' (some (.rendered results submitted)) d'
  | put (path : Path) (entry : Entry) : Happens s d (.put path entry) s none (d.put path entry)
  | remove (path : Path) : Happens s d (.remove path) s none (d.remove (d.placeOf path))

theorem happens_of_handle {e : Event} {a : Option Answer}
    (h : (s.handle e).run d = ((s', a), d')) : Happens s d e s' a d' := by
  cases e with
  | step x =>
    obtain ⟨⟨s₁, a₁⟩, d₁, hx, h⟩ := run_bind_eq.1 h
    cases h
    cases x with
    | start spec root =>
      obtain ⟨⟨s₂, st⟩, d₂, hs, hx⟩ := run_bind_eq.1 hx
      cases hx
      exact .start spec root hs
    | dispatch completion =>
      obtain ⟨⟨s₂, n, ended⟩, d₂, hs, hx⟩ := run_bind_eq.1 hx
      cases hx
      exact .dispatch completion hs
    | abort i =>
      cases hx
      exact .abort i
    | close =>
      cases hx
      exact .close
    | renderAll specs root reply =>
      obtain ⟨⟨s₂, results, submitted⟩, d₂, hs, hx⟩ := run_bind_eq.1 hx
      cases hx
      exact .renderAll specs root reply hs
  | deliver completion =>
    obtain ⟨⟨s₁, n, ended⟩, d₁, hs, h⟩ := run_bind_eq.1 h
    cases h
    exact .deliver completion hs
  | poll f =>
    obtain ⟨⟨s₁, ended⟩, d₁, hs, h⟩ := run_bind_eq.1 h
    cases h
    exact .poll f hs
  | put path entry =>
    cases h
    exact .put path entry
  | remove path =>
    cases h
    exact .remove path

theorem Happens.handle_eq {e : Event} {a : Option Answer} (h : Happens s d e s' a d') :
    (s.handle e).run d = ((s', a), d') := by
  cases h with
  | start spec root hs =>
    exact run_bind_eq.2 ⟨_, _, run_bind_eq.2 ⟨_, _, hs, rfl⟩, rfl⟩
  | dispatch c hs => exact run_bind_eq.2 ⟨_, _, run_bind_eq.2 ⟨_, _, hs, rfl⟩, rfl⟩
  | deliver c hs => exact run_bind_eq.2 ⟨_, _, hs, rfl⟩
  | poll f hs => exact run_bind_eq.2 ⟨_, _, hs, rfl⟩
  | renderAll specs root reply hs =>
    exact run_bind_eq.2 ⟨_, _, run_bind_eq.2 ⟨_, _, hs, rfl⟩, rfl⟩
  | abort i | close | put path entry | remove path => rfl

/-- What hands over a completion makes of it what a dispatch does. -/
theorem handle_of_dispatch_eq {e : Event} {c : Completion} {n : Nat}
    {ended : List (Nat × RenderResult)} (he : e.completion? = some c)
    (h : ∀ late, (s.dispatch c late : StateM Disk _).run d = ((s', n, ended), d')) :
    (s.handle e).run d = ((s', some (.dispatched n ended)), d') := by
  cases e with
  | step x =>
    cases x with
    | dispatch c' =>
      cases he
      exact Happens.handle_eq (.dispatch c (h true))
    | start | abort | close | renderAll => cases he
  | deliver c' =>
    cases he
    exact Happens.handle_eq (.deliver c (h false))
  | poll | put | remove => cases he

/-- Every dispatch is an event that hands over its completion. -/
theorem exists_happens_of_dispatch {c : Completion} {late : Bool} {n : Nat}
    {ended : List (Nat × RenderResult)}
    (h : (s.dispatch c late : StateM Disk _).run d = ((s', n, ended), d')) :
    ∃ e : Event, e.completion? = some c ∧ Happens s d e s' (some (.dispatched n ended)) d' := by
  cases late
  · exact ⟨_, rfl, .deliver c h⟩
  · exact ⟨_, rfl, .dispatch c h⟩

theorem Happens.run_cons {e : Event} {a : Option Answer} (h : Happens s d e s' a d')
    {s'' : Session} {d'' : Disk} {es : List Event} {as : List (Option Answer)}
    (hrun : (s'.run es).run d' = ((s'', as), d'')) :
    (s.run (e :: es)).run d = ((s'', a :: as), d'') :=
  run_bind_eq.2 ⟨_, _, h.handle_eq, run_bind_eq.2 ⟨_, _, hrun, rfl⟩⟩

theorem Happens.setting {e : Event} {a : Option Answer} (h : Happens s d e s' a d')
    (hr : (s.stage d).Routed) :
    s'.coordinator.cache = s.coordinator.cache
      ∧ s'.coordinator.router.origin = s.coordinator.router.origin := by
  cases h with
  | start spec root h =>
    have hm := (start_spec h).1
    exact ⟨hm.cache, hm.origin⟩
  | dispatch c h | deliver c h =>
    obtain ⟨-, hm, -⟩ := dispatch_spec h hr
    exact ⟨hm.cache, hm.origin.trans (Router.origin_dispatch _ c)⟩
  | poll f h =>
    obtain ⟨hm, -⟩ := poll_spec h hr
    exact ⟨hm.cache, hm.origin⟩
  | abort i =>
    obtain he | ⟨f, p, as, bs, -, -, -, -, hc⟩ := abort_spec s i
    · rw [he]
      exact ⟨rfl, rfl⟩
    · rw [hc]
      exact ⟨rfl, rfl⟩
  | renderAll specs root reply h =>
    obtain ⟨c, batch, hb⟩ := renderAll_spec h hr
    exact ⟨hb.ended.cache.trans hb.began.cache,
      hb.ended.origin.trans ((Router.origin_listen _ _).trans hb.began.origin)⟩
  | close | put path entry | remove path => exact ⟨rfl, rfl⟩

/-- Renders keep their numbers and fingerprints, and a render stands under the fingerprint of the
request that it submitted. -/
theorem Happens.names {e : Event} {a : Option Answer} (h : Happens s d e s' a d')
    (hr : (s.stage d).Routed) :
    (∃ fs, s'.renders.map Prod.fst = s.renders.map Prod.fst ++ fs)
      ∧ ∀ i p request, a = some (.started i (.waiting p request)) →
          (s'.renders.map Prod.fst)[i]? = some request.fingerprint := by
  have hkeep : s'.renders.map Prod.fst = s.renders.map Prod.fst →
      (∀ i st, a ≠ some (.started i st)) →
      (∃ fs, s'.renders.map Prod.fst = s.renders.map Prod.fst ++ fs)
      ∧ ∀ i p request, a = some (.started i (.waiting p request)) →
          (s'.renders.map Prod.fst)[i]? = some request.fingerprint :=
    fun he ha => ⟨⟨[], by rw [he, List.append_nil]⟩, fun i p request h => absurd h (ha i _)⟩
  cases h with
  | start spec root h =>
    obtain ⟨-, hrenders, -, -, hb⟩ := start_spec h
    rw [hrenders, List.map_append]
    refine ⟨⟨_, rfl⟩, ?_⟩
    rintro i p request ha
    simp only [Option.some.injEq, Answer.started.injEq] at ha
    obtain ⟨rfl, rfl⟩ := ha
    obtain ⟨-, rfl, -⟩ := hb
    rw [← List.length_map Prod.fst, List.map_singleton, List.getElem?_concat_length]
    rfl
  | dispatch c h | deliver c h =>
    refine hkeep ?_ (by simp)
    obtain ⟨-, -, ⟨-, hrenders, -⟩ | ⟨-, hfin⟩⟩ := dispatch_spec h hr
    · rw [hrenders]
    · exact hfin.names
  | poll f h => exact hkeep (poll_spec h hr).2.names (by simp)
  | abort i =>
    refine hkeep ?_ (by simp)
    obtain he | ⟨f, p, as, bs, hi, -, -, hrenders, -⟩ := abort_spec s i
    · rw [he]
    · rw [hrenders]
      refine List.ext_getElem? fun j => ?_
      rw [List.getElem?_map, List.getElem?_map, List.getElem?_set]
      split_ifs with hij hlt
      · rw [← hij, hi]
        rfl
      · exact absurd (List.getElem?_eq_some_iff.1 hi).1 hlt
      · rfl
  | renderAll specs root reply h =>
    refine hkeep ?_ (by simp)
    obtain ⟨c, batch, hb⟩ := renderAll_spec h hr
    rw [hb.renders]
  | close => exact hkeep rfl (by simp)
  | put path entry | remove path => exact hkeep rfl (by simp)

/-- A render in flight was so before, or began now after a miss. -/
theorem Happens.of_inFlight {e : Event} {a : Option Answer} {i : Nat} {f : String}
    {p : PendingRender} (h : Happens s d e s' a d') (hr : (s.stage d).Routed)
    (hi : s'.renders[i]? = some (f, some p)) :
    s.renders[i]? = some (f, some p)
      ∨ (∃ request, a = some (.started i (.waiting p request)))
        ∧ ∃ root,
          CacheStore.found? (s.coordinator.store? root) s.coordinator.images d f = none := by
  cases h with
  | start spec root h =>
    obtain ⟨-, hrenders, -, -, hb⟩ := start_spec h
    rename_i st
    rcases Nat.lt_or_ge i s.renders.length with hlt | hge
    · rw [hrenders, List.getElem?_append_left hlt] at hi
      exact .inl hi
    · rw [hrenders, List.getElem?_append_right hge, List.getElem?_singleton] at hi
      split_ifs at hi with hk
      obtain rfl : i = s.renders.length := by omega
      rcases st with r | ⟨q, request⟩ <;> cases hi
      exact .inr ⟨⟨request, rfl⟩, root, hb.1⟩
  | dispatch c h | deliver c h =>
    obtain ⟨-, -, ⟨-, hrenders, -⟩ | ⟨-, hfin⟩⟩ := dispatch_spec h hr
    · exact .inl (hrenders ▸ hi)
    · exact .inl (hfin.of_inFlight hi)
  | poll g h => exact .inl ((poll_spec h hr).2.of_inFlight hi)
  | abort j =>
    obtain he | ⟨g, q, as, bs, -, -, -, hrenders, -⟩ := abort_spec s j
    · exact .inl (he ▸ hi)
    · rw [hrenders, List.getElem?_set] at hi
      split_ifs at hi
      · simp at hi
      · exact .inl hi
  | renderAll specs root reply h =>
    obtain ⟨c, batch, hb⟩ := renderAll_spec h hr
    exact .inl (hb.renders ▸ hi)
  | close | put path entry | remove path => exact .inl hi

/-- What happened, event by event. -/
abbrev History := List (Event × Option Answer)

/-- What each event keeps, a run keeps. -/
theorem run_keep {P : History → Session → Disk → Prop}
    (hkeep : ∀ {H : History} {s s' : Session} {d d' : Disk} {e : Event} {a : Option Answer},
      Happens s d e s' a d' → P H s d → P (H ++ [(e, a)]) s' d') :
    ∀ (es : List Event) {H : History} {s s' : Session} {d d' : Disk} {as : List (Option Answer)},
      (s.run es).run d = ((s', as), d') → P H s d → P (H ++ es.zip as) s' d'
  | [], H, s, s', d, d', as, h, hP => by
    cases h
    rw [List.zip_nil_left, List.append_nil]
    exact hP
  | e :: es, H, s, s', d, d', as, h, hP => by
    obtain ⟨⟨s₁, a⟩, d₁, hhead, h⟩ := run_bind_eq.1 h
    obtain ⟨⟨s₂, rest⟩, d₂, htail, h⟩ := run_bind_eq.1 h
    cases h
    have ih := run_keep hkeep es htail (hkeep (happens_of_handle hhead) hP)
    rw [List.append_assoc] at ih
    exact ih

end Session

end GraphBlock
