import GraphBlock.Proofs.Render.Holdings
import GraphBlock.Proofs.Render.Steps
import GraphBlock.Render.Stub

/-!
# Requests to a stand-in renderer

A stand-in answers a request before the next block is rendered, so between two blocks nobody waits,
whatever it answers and however images are kept (`StubSession.Rests`, `keeps_rests`).  What one
render does to the log and to what is held is then a function of the two (`Stub.served`,
`Stub.run_render`), and what every render keeps holds after a row of blocks (`Keeps.step`,
`Keeps.run`).  With the cache in memory, a stand-in that succeeds and is trusted is asked once for
each fingerprint, and its image is held for all that came before (`Kept`); in all other cases
nothing is held and every spec is asked for anew (`Unkept`).
-/

namespace GraphBlock

open Disk

namespace Stub

variable {s s' : Stub} {c c' : Coordinator} {d d' : Disk} {spec : Spec} {root : Path}
  {r : Option RenderResult} {trusted f : String} {b : Bytes} {request : PlotRequest}

/-- What a render gets to hear of the stand-in, from a router that trusts this origin. -/
def heard? (s : Stub) (trusted f : String) : Option Outcome :=
  Exchange.firstMatch trusted f (s.reply? f).toList

theorem heard?_eq_success_iff :
    s.heard? trusted f = some (.success b) ↔ s.mode = .succeed b ∧ s.origin = trusted := by
  rw [heard?, reply?]
  cases s.mode <;> simp [Exchange.firstMatch, and_comm]

theorem submit_eq_ok_iff : s.submit request = .ok () ↔ s.mode ≠ .unavailable := by
  rw [submit]
  cases s.mode <;> simp

/-- The stand-in and what is held after a spec was rendered, and the result of the render; none if
it was given up. -/
def served (s : Stub) (trusted : String) (store : Option CacheStore) (spec : Spec) (k : Holdings) :
    Stub × Holdings × Option RenderResult :=
  match CacheStore.found? store k.1 k.2 spec.fingerprint with
  | some b => (s, k, some (.ok ⟨b, .cache, none⟩))
  | none =>
    match s.submit spec.request with
    | .error e => (s, k, some (.error e))
    | .ok () =>
      match s.heard? trusted spec.fingerprint with
      | none => (s.record spec.request, k, none)
      | some o => (s.record spec.request, o.filled spec.fingerprint store k,
          some (o.result spec.fingerprint store k.2))

theorem served_fst (s : Stub) (trusted : String) (store : Option CacheStore) (spec : Spec)
    (k : Holdings) : (s.served trusted store spec k).1 = s
      ∨ (s.served trusted store spec k).1 = s.record spec.request := by
  rw [served]
  split
  · exact .inl rfl
  · split
    · exact .inl rfl
    · split <;> exact .inr rfl

/-- A miss leaves what is held as it was, if no success is heard of it. -/
theorem served_of_no_success {store : Option CacheStore} {k : Holdings}
    (hmiss : CacheStore.found? store k.1 k.2 spec.fingerprint = none)
    (hno : ∀ b, s.heard? trusted spec.fingerprint ≠ some (.success b)) :
    (s.served trusted store spec k).1 = (if s.mode = .unavailable then s else s.record spec.request)
      ∧ (s.served trusted store spec k).2.1 = k := by
  rw [served, hmiss]
  by_cases hmode : s.mode = .unavailable
  · have hsubmit : s.submit spec.request
        = .error (.rendererUnavailable "fake renderer offline") := by
      rw [submit, hmode]
    rw [hsubmit, if_pos hmode]
    exact ⟨rfl, rfl⟩
  · rw [submit_eq_ok_iff.2 hmode, if_neg hmode]
    rcases hheard : s.heard? trusted spec.fingerprint with _ | b | message
    · exact ⟨rfl, rfl⟩
    · exact absurd hheard (hno b)
    · exact ⟨rfl, rfl⟩

/-- To dispatch the reply, if there is one, is to listen to it alone. -/
theorem listen_reply? (s : Stub) (c : Coordinator) (f : String) :
    (match s.reply? f with
      | some reply => { c with router := (c.router.dispatch reply).1 }
      | none => c) = { c with router := c.router.listen (s.reply? f).toList } := by
  cases s.reply? f <;> rfl

/-- A render on a router that nobody waits on leaves nobody waiting. -/
theorem run_render (hr : c.router.Serves [])
    (h : (s.render c spec root : StateM Disk _).run d = ((s', c', r), d')) :
    (s', (c'.images, d'), r) = s.served c.router.origin (c.store? root) spec (c.images, d)
      ∧ c'.cache = c.cache ∧ c'.router.origin = c.router.origin ∧ c'.router.Serves [] := by
  obtain ⟨⟨c₁, st⟩, d₁, hstart, h⟩ := run_bind_eq.1 h
  obtain ⟨rfl, hst⟩ := Coordinator.run_start hstart
  have hreg := hr.register spec.fingerprint
  rw [served]
  rcases hst with ⟨b, hf, rfl, rfl⟩ | ⟨hf, ⟨hsub, rfl, rfl⟩ | ⟨e, hsub, rfl, rfl⟩⟩
  · cases h
    rw [hf]
    exact ⟨rfl, rfl, rfl, hr⟩
  · -- The reply comes after the registration and before the render looks for it.
    have hserves := hreg.listen (s.reply? spec.fingerprint).toList
    have hout : ((c.router.register spec.fingerprint).1.listen
          (s.reply? spec.fingerprint).toList).outcome? (c.router.register spec.fingerprint).2
        = s.heard? c.router.origin spec.fingerprint := by
      rw [hreg.outcome?_listen (List.mem_append_right _ (List.mem_singleton_self _)),
        hr.outcome?_register]
      rfl
    have horigin : ((c.router.register spec.fingerprint).1.listen
        (s.reply? spec.fingerprint).toList).origin = c.router.origin := Router.origin_listen _ _
    obtain ⟨⟨c₂, res⟩, d₂, hfin, h⟩ := run_bind_eq.1 h
    replace hfin := (congrArg (fun x : Coordinator => (x.finish _ : StateM Disk _).run _)
      (listen_reply? s _ spec.fingerprint)).symm.trans hfin
    rw [hf, hsub]
    rcases hheard : s.heard? c.router.origin spec.fingerprint with _ | o <;> rw [hheard] at hout
    · simp only [Coordinator.finish, hout] at hfin
      cases hfin
      cases h
      exact ⟨rfl, rfl, horigin, hserves.release⟩
    · rw [Coordinator.run_finish_some hout] at hfin
      cases hfin
      cases h
      exact ⟨rfl, rfl, horigin, hserves.release⟩
  · cases h
    rw [hf, hsub]
    exact ⟨rfl, rfl, rfl, hreg.release⟩

end Stub

namespace StubSession

open Stub

variable {cache : CacheService} {trusted origin : String} {mode : StubMode}
  {seen : List Spec} {s s' : StubSession} {d d' : Disk} {spec : Spec} {root : Path} {stub : Stub}
  {c : Coordinator} {r : Option RenderResult} {image : Bytes} {fs : List String} {f : String}

section Run

/-- The specs of the blocks that compile. -/
def compiled (sources : List (String × Path)) : List Spec :=
  sources.filterMap fun x => (Spec.parse x.1).toOption

theorem compiled_cons (x : String × Path) (sources : List (String × Path)) :
    compiled (x :: sources) = compiled [x] ++ compiled sources :=
  List.filterMap_append (l := [x])

/-- Every render keeps something about the specs that were rendered so far, the session and the
disk, and after those specs its result is such as `A` says. -/
def Keeps (I : List Spec → StubSession → Disk → Prop)
    (A : List Spec → Spec → Option RenderResult → Prop) : Prop :=
  ∀ ⦃seen : List Spec⦄ ⦃s : StubSession⦄ ⦃spec : Spec⦄ ⦃root : Path⦄ ⦃stub : Stub⦄
    ⦃c : Coordinator⦄ ⦃r : Option RenderResult⦄ ⦃d d' : Disk⦄, I seen s d →
    (s.stub.render s.coordinator spec root : StateM Disk _).run d = ((stub, c, r), d') →
      I (seen ++ [spec]) ⟨stub, c⟩ d' ∧ A seen spec r

variable {I : List Spec → StubSession → Disk → Prop}
  {A : List Spec → Spec → Option RenderResult → Prop}

/-- A block is rendered if it compiles, and else nothing happens. -/
theorem Keeps.step (hk : Keeps I A) {source : String}
    {a : Except ParseError (Spec × Option RenderResult)} (h : I seen s d)
    (hs : (s.step source root : StateM Disk _).run d = ((s', a), d')) :
    I (seen ++ compiled [(source, root)]) s' d'
      ∧ ∀ spec, Spec.parse source = .ok spec → ∃ r, a = .ok (spec, r) ∧ A seen spec r := by
  rcases hp : Spec.parse source with e | spec <;> simp only [StubSession.step, hp] at hs
  · cases hs
    have hnone : compiled [(source, root)] = [] := by simp [compiled, hp, Except.toOption]
    rw [hnone, List.append_nil]
    exact ⟨h, nofun⟩
  · obtain ⟨⟨stub, c, r⟩, d₁, hr, hs⟩ := run_bind_eq.1 hs
    cases hs
    obtain ⟨hI, hA⟩ := hk h hr
    have hone : compiled [(source, root)] = [spec] := by simp [compiled, hp, Except.toOption]
    rw [hone]
    refine ⟨hI, fun spec' hp' => ?_⟩
    cases hp'
    exact ⟨r, rfl, hA⟩

theorem Keeps.run (hk : Keeps I A) : ∀ (sources : List (String × Path)) (seen : List Spec)
    {s s' : StubSession} {d d' : Disk}
    {answers : List (Except ParseError (Spec × Option RenderResult))}, I seen s d →
    (s.run sources : StateM Disk _).run d = ((s', answers), d') →
      I (seen ++ compiled sources) s' d'
        ∧ ∀ i x spec, sources[i]? = some x → Spec.parse x.1 = .ok spec →
          ∃ r, answers[i]? = some (.ok (spec, r)) ∧ A (seen ++ compiled (sources.take i)) spec r
  | [], seen, s, s', d, d', answers, h, hs => by
    cases hs
    rw [compiled, List.filterMap_nil, List.append_nil]
    exact ⟨h, by simp⟩
  | (source, root) :: rest, seen, s, s', d, d', answers, h, hs => by
    obtain ⟨⟨s₁, a⟩, d₁, h₁, hs⟩ := run_bind_eq.1 hs
    obtain ⟨⟨s₂, as⟩, d₂, h₂, hs⟩ := run_bind_eq.1 hs
    cases hs
    obtain ⟨hI, hfirst⟩ := hk.step h h₁
    obtain ⟨hI, hrest⟩ := hk.run rest _ hI h₂
    refine ⟨?_, fun i x spec hx hp => ?_⟩
    · rwa [compiled_cons, ← List.append_assoc]
    · rcases i with _ | i
      · obtain rfl := Option.some.inj hx
        obtain ⟨r, rfl, hA⟩ := hfirst spec hp
        refine ⟨r, rfl, ?_⟩
        rwa [List.take_zero, compiled, List.filterMap_nil, List.append_nil]
      · rw [List.take_succ_cons, compiled_cons, ← List.append_assoc]
        exact hrest i x spec hx hp

/-- Between two blocks nobody waits, and the stand-in has counted what it logged. -/
structure Rests (cache : CacheService) (trusted : String) (mode : StubMode) (origin : String)
    (s : StubSession) : Prop where
  cache_eq : s.coordinator.cache = cache
  trusts : s.coordinator.router.origin = trusted
  serves : s.coordinator.router.Serves []
  mode_eq : s.stub.mode = mode
  origin_eq : s.stub.origin = origin
  counted : s.stub.submissions = s.stub.log.length

theorem rests_new (cache : CacheService) (trusted : String) (mode : StubMode) (origin : String) :
    Rests cache trusted mode origin (new cache trusted (.new mode origin)) :=
  ⟨rfl, rfl, Router.serves_trusting trusted, rfl, rfl, rfl⟩

theorem Rests.render (h : Rests cache trusted mode origin s)
    (hs : (s.stub.render s.coordinator spec root : StateM Disk _).run d = ((stub, c, r), d')) :
    Rests cache trusted mode origin ⟨stub, c⟩
      ∧ (stub, (c.images, d'), r)
        = s.stub.served trusted (cache.store? root) spec (s.coordinator.images, d) := by
  obtain ⟨hserved, hcache, htrusts, hserves⟩ := run_render h.serves hs
  rw [h.trusts, Coordinator.store?_eq, h.cache_eq] at hserved
  refine ⟨?_, hserved⟩
  have hfst := s.stub.served_fst trusted (cache.store? root) spec (s.coordinator.images, d)
  rw [← hserved] at hfst
  rcases hfst with rfl | rfl
  · exact ⟨hcache.trans h.cache_eq, htrusts.trans h.trusts, hserves, h.mode_eq, h.origin_eq,
      h.counted⟩
  · refine ⟨hcache.trans h.cache_eq, htrusts.trans h.trusts, hserves, h.mode_eq, h.origin_eq, ?_⟩
    rw [submissions_record, log_record, List.length_append, List.length_singleton, h.counted]

theorem keeps_rests : Keeps (fun _ s _ => Rests cache trusted mode origin s) fun _ _ _ => True := by
  intro seen s spec root stub c r d d' h hs
  exact ⟨(h.render hs).1, trivial⟩

theorem Rests.pending (h : Rests cache trusted mode origin s) (f : String) :
    s.coordinator.router.pending f = 0 := by
  rw [h.serves.pending_eq]
  rfl

end Run

section Memory

/-- The stand-in was asked once for each of these fingerprints, and its image is in memory under
each of them. -/
structure Kept (image : Bytes) (fs : List String) (s : StubSession) : Prop where
  log : s.stub.log.map PlotRequest.fingerprint = fs.eraseDups
  lookup : ∀ f, s.coordinator.images.lookup f = if f ∈ fs then some image else none
  size : s.coordinator.images.size = s.stub.log.length

/-- A fingerprint that came before changes nothing. -/
theorem Kept.again (h : Kept image fs s) (hf : f ∈ fs) (hc : c.images = s.coordinator.images) :
    Kept image (fs ++ [f]) ⟨s.stub, c⟩ := by
  have hmem : ∀ g, g ∈ fs ++ [f] ↔ g ∈ fs := fun g => by
    rw [List.mem_append, List.mem_singleton, or_iff_left_of_imp fun he => he ▸ hf]
  refine ⟨?_, fun g => ?_, hc ▸ h.size⟩
  · rw [eraseDups_concat, if_pos hf, h.log]
  · rw [hc, h.lookup, if_congr (hmem g) rfl rfl]

/-- A new fingerprint is asked for, and its image is put into memory. -/
theorem Kept.record (h : Kept image fs s) (hf : spec.fingerprint ∉ fs)
    (hc : c.images = s.coordinator.images.insert spec.fingerprint image) :
    Kept image (fs ++ [spec.fingerprint]) ⟨s.stub.record spec.request, c⟩ := by
  have hnew : s.coordinator.images.contains spec.fingerprint = false := by
    rw [MemoryCache.contains, h.lookup, if_neg hf]
    rfl
  refine ⟨?_, fun g => ?_, ?_⟩
  · rw [eraseDups_concat, if_neg hf, ← h.log, log_record, List.map_append]
    rfl
  · rw [hc, MemoryCache.lookup_insert, h.lookup]
    simp only [List.mem_append, List.mem_singleton]
    split_ifs <;> tauto
  · rw [hc, MemoryCache.size_insert, hnew, if_neg Bool.false_ne_true, h.size, log_record,
      List.length_append, List.length_singleton]

theorem Kept.render (h : Kept image fs s)
    (hrests : Rests cache trusted (.succeed image) trusted s)
    (hstore : cache.store? root = some .memory)
    (hs : (s.stub.render s.coordinator spec root : StateM Disk _).run d = ((stub, c, r), d')) :
    Kept image (fs ++ [spec.fingerprint]) ⟨stub, c⟩
      ∧ r = some (.ok ⟨image, if spec.fingerprint ∈ fs then .cache else .renderer, none⟩) := by
  obtain ⟨-, hserved⟩ := hrests.render hs
  simp only [served, hstore, CacheStore.found?, h.lookup] at hserved
  by_cases hf : spec.fingerprint ∈ fs
  · simp only [if_pos hf, Prod.mk.injEq] at hserved
    obtain ⟨rfl, ⟨himages, -⟩, rfl⟩ := hserved
    exact ⟨h.again hf himages, by rw [if_pos hf]⟩
  · have hsubmit : s.stub.submit spec.request = .ok () :=
      submit_eq_ok_iff.2 (by simp [hrests.mode_eq])
    have hheard : s.stub.heard? trusted spec.fingerprint = some (.success image) :=
      heard?_eq_success_iff.2 ⟨hrests.mode_eq, hrests.origin_eq⟩
    simp only [if_neg hf, hsubmit, hheard, Outcome.filled, CacheStore.kept, Outcome.result,
      CacheStore.warning?, Prod.mk.injEq] at hserved
    obtain ⟨rfl, ⟨himages, -⟩, rfl⟩ := hserved
    exact ⟨h.record hf himages, by rw [if_neg hf]⟩

/-- All specs but those that the stand-in refuses were asked for, and nothing is in memory. -/
structure Unkept (mode : StubMode) (seen : List Spec) (s : StubSession) : Prop where
  log : s.stub.log = if mode = .unavailable then [] else seen.map Spec.request
  images : s.coordinator.images = .empty

theorem Unkept.render (h : Unkept mode seen s) (hrests : Rests cache trusted mode origin s)
    (hno : ∀ image, mode = .succeed image → origin ≠ trusted)
    (hstore : cache.store? root = some .memory)
    (hs : (s.stub.render s.coordinator spec root : StateM Disk _).run d = ((stub, c, r), d')) :
    Unkept mode (seen ++ [spec]) ⟨stub, c⟩ := by
  obtain ⟨-, hserved⟩ := hrests.render hs
  have hmiss : CacheStore.found? (cache.store? root) s.coordinator.images d spec.fingerprint
      = none := by
    rw [hstore, h.images]
    rfl
  have hunheard : ∀ b, s.stub.heard? trusted spec.fingerprint ≠ some (.success b) := fun b hb => by
    obtain ⟨hsucceed, horigin⟩ := heard?_eq_success_iff.1 hb
    exact hno b (hrests.mode_eq.symm.trans hsucceed) (hrests.origin_eq.symm.trans horigin)
  obtain ⟨hstub, hheld⟩ := served_of_no_success (k := (s.coordinator.images, d)) hmiss hunheard
  rw [← hserved] at hstub hheld
  refine ⟨?_, (congrArg Prod.fst hheld).trans h.images⟩
  rw [show stub = _ from hstub, hrests.mode_eq]
  split_ifs with hmode
  · exact h.log.trans (if_pos hmode)
  · rw [log_record, h.log, if_neg hmode, List.map_append]
    rfl

theorem keeps_kept (hon : cache.settings.enabled = true)
    (hmem : cache.settings.location = .memory) :
    Keeps (fun seen s _ => Rests cache trusted (.succeed image) trusted s
        ∧ Kept image (seen.map Spec.fingerprint) s)
      fun seen spec r => r = some (.ok ⟨image,
        if spec.fingerprint ∈ seen.map Spec.fingerprint then .cache else .renderer, none⟩) := by
  rintro seen s spec root stub c r d d' ⟨hrests, h⟩ hs
  obtain ⟨hkept, hr⟩ := h.render hrests (CacheService.store?_of_memory hon hmem root) hs
  have hmap : (seen ++ [spec]).map Spec.fingerprint
      = seen.map Spec.fingerprint ++ [spec.fingerprint] := List.map_append
  exact ⟨⟨(hrests.render hs).1, hmap ▸ hkept⟩, hr⟩

theorem keeps_unkept (hon : cache.settings.enabled = true)
    (hmem : cache.settings.location = .memory)
    (hno : ∀ image, mode = .succeed image → origin ≠ trusted) :
    Keeps (fun seen s _ => Rests cache trusted mode origin s ∧ Unkept mode seen s)
      fun _ _ _ => True := by
  rintro seen s spec root stub c r d d' ⟨hrests, h⟩ hs
  have hunkept := h.render hrests hno (CacheService.store?_of_memory hon hmem root) hs
  exact ⟨⟨(hrests.render hs).1, hunkept⟩, trivial⟩

/-- The session after blocks that were rendered one after the other on a new stand-in, and the
answers to them. -/
def rendered (cache : CacheService) (trusted : String) (mode : StubMode) (origin : String)
    (sources : List (String × Path)) (d : Disk) :
    StubSession × List (Except ParseError (Spec × Option RenderResult)) :=
  (((new cache trusted (.new mode origin)).run sources : StateM Disk _).run d).1

/-- The fingerprints of the blocks that compile. -/
def fingerprints (sources : List (String × Path)) : List String :=
  (compiled sources).map Spec.fingerprint

theorem kept_new (cache : CacheService) (trusted : String) (image : Bytes) :
    Kept image [] (new cache trusted (.new (.succeed image) trusted)) :=
  ⟨rfl, fun _ => rfl, rfl⟩

theorem unkept_new (cache : CacheService) (trusted : String) (mode : StubMode) (origin : String) :
    Unkept mode [] (new cache trusted (.new mode origin)) :=
  ⟨by split <;> rfl, rfl⟩

/-- With the cache in memory, a stand-in that succeeds and is trusted gets one request for each
fingerprint, and every later block of that fingerprint gets its image from the cache.  One that
fails, stays silent or is not trusted gets a request for every block that compiles, and one that
refuses requests gets none; of neither anything is kept.  The counter is always the length of the
log, and nobody waits when a render is over. -/
theorem one_submission_per_fingerprint (cache : CacheService)
    (hon : cache.settings.enabled = true) (hmem : cache.settings.location = .memory)
    (trusted : String) (sources : List (String × Path)) (d : Disk) :
    (∀ image, let out := rendered cache trusted (.succeed image) trusted sources d
      out.1.stub.log.map PlotRequest.fingerprint = (fingerprints sources).eraseDups
        ∧ (∀ (i : Nat) x spec, sources[i]? = some x → Spec.parse x.1 = .ok spec →
          out.2[i]? = some (.ok (spec, some (.ok ⟨image,
            if spec.fingerprint ∈ fingerprints (sources.take i) then .cache else .renderer,
            none⟩))))
        ∧ (∀ f, out.1.coordinator.images.lookup f
          = if f ∈ fingerprints sources then some image else none)
        ∧ out.1.coordinator.images.size = (fingerprints sources).eraseDups.length)
      ∧ (∀ mode origin, mode ≠ .unavailable → (∀ image, mode = .succeed image → origin ≠ trusted) →
        let out := rendered cache trusted mode origin sources d
        out.1.stub.log = (compiled sources).map Spec.request
          ∧ out.1.coordinator.images = .empty)
      ∧ (∀ origin, let out := rendered cache trusted .unavailable origin sources d
        out.1.stub.log = [] ∧ out.1.coordinator.images = .empty)
      ∧ ∀ mode origin, let out := rendered cache trusted mode origin sources d
        out.1.stub.submissions = out.1.stub.log.length
          ∧ ∀ f, out.1.coordinator.router.pending f = 0 := by
  have hrests := fun mode origin => rests_new cache trusted mode origin
  refine ⟨fun image => ?_, fun mode origin hmode hno => ?_, fun origin => ?_, fun mode origin => ?_⟩
  · obtain ⟨⟨-, hkept⟩, hanswers⟩ := (keeps_kept hon hmem).run sources [] (d := d)
      ⟨hrests _ _, kept_new cache trusted image⟩ rfl
    refine ⟨hkept.log, fun i x spec hx hp => ?_, hkept.lookup, ?_⟩
    · obtain ⟨r, ha, rfl⟩ := hanswers i x spec hx hp
      exact ha
    · have hlength := congrArg List.length hkept.log
      rw [List.length_map, ← hkept.size] at hlength
      exact hlength
  · obtain ⟨⟨-, hunkept⟩, -⟩ := (keeps_unkept hon hmem hno).run sources [] (d := d)
      ⟨hrests _ _, unkept_new cache trusted mode origin⟩ rfl
    exact ⟨hunkept.log.trans (if_neg hmode), hunkept.images⟩
  · have hno : ∀ image, StubMode.unavailable = .succeed image → origin ≠ trusted := nofun
    obtain ⟨⟨-, hunkept⟩, -⟩ := (keeps_unkept hon hmem hno).run sources [] (d := d)
      ⟨hrests _ _, unkept_new cache trusted .unavailable origin⟩ rfl
    exact ⟨hunkept.log.trans (if_pos rfl), hunkept.images⟩
  · have hrests := (keeps_rests.run sources [] (d := d) (hrests mode origin) rfl).1
    exact ⟨hrests.counted, hrests.pending⟩

/-- Two ways to write one graph, and a block that does not compile. -/
theorem one_submission_per_fingerprint_red :
    let cache : CacheService := ⟨⟨true, .memory, none⟩, "", ⟨"/tmp"⟩⟩
    let red := Spec.ofContent [⟨"y=x", none, some (.named .red), []⟩] .default
    let sources := [("y=x|red", ⟨"/a"⟩), ("|", ⟨"/a"⟩), ("\n y=x | RED", ⟨"/b"⟩)]
    let image := [137]
    cache.settings.enabled = true ∧ cache.settings.location = .memory
      ∧ (let out := rendered cache "a" (.succeed image) "a" sources ⟨[], []⟩
        out.1.stub.log.map PlotRequest.fingerprint = [red.fingerprint]
          ∧ out.2[0]? = some (.ok (red, some (.ok ⟨image, .renderer, none⟩)))
          ∧ out.2[2]? = some (.ok (red, some (.ok ⟨image, .cache, none⟩)))
          ∧ out.1.coordinator.images.lookup red.fingerprint = some image
          ∧ out.1.coordinator.images.size = 1)
      ∧ (rendered cache "a" (.fail "no") "a" sources ⟨[], []⟩).1.stub.log
        = [red.request, red.request]
      ∧ (rendered cache "a" (.succeed image) "b" sources ⟨[], []⟩).1.stub.log
        = [red.request, red.request]
      ∧ (rendered cache "a" .unavailable "a" sources ⟨[], []⟩).1.stub.log = []
      ∧ (rendered cache "a" .silent "a" sources ⟨[], []⟩).1.coordinator.router.pending
        red.fingerprint = 0 := by
  intro cache red sources image
  have hcompiled : compiled sources = [red, red] := rfl
  have hfirst : Spec.parse "y=x|red" = .ok red := rfl
  have hthird : Spec.parse "\n y=x | RED" = .ok red := rfl
  obtain ⟨hkept, hunkept, hrefused, hpending⟩ :=
    one_submission_per_fingerprint cache rfl rfl "a" sources ⟨[], []⟩
  obtain ⟨hlog, hanswers, hlookup, hsize⟩ := hkept image
  have hfs : fingerprints sources = [red.fingerprint, red.fingerprint] :=
    congrArg (List.map Spec.fingerprint) hcompiled
  have honce : (fingerprints sources).eraseDups = [red.fingerprint] := by
    simp [hfs, List.eraseDups_cons]
  refine ⟨rfl, rfl, ⟨hlog.trans honce, ?_, ?_, ?_, ?_⟩, ?_, ?_, (hrefused "a").1,
    (hpending .silent "a").2 _⟩
  · exact hanswers 0 _ red rfl hfirst
  · have hbefore : fingerprints (sources.take 2) = [red.fingerprint] := rfl
    rw [hanswers 2 _ red rfl hthird, hbefore, if_pos List.mem_cons_self]
  · rw [hlookup, hfs, if_pos List.mem_cons_self]
  · rw [hsize, honce, List.length_singleton]
  · rw [(hunkept (.fail "no") "a" nofun nofun).1, hcompiled]
    rfl
  · rw [(hunkept (.succeed image) "b" nofun fun _ _ => by decide).1, hcompiled]
    rfl

end Memory

end StubSession

end GraphBlock
