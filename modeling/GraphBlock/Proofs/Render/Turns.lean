import GraphBlock.Proofs.Render.Endings
import GraphBlock.Proofs.Render.Fillings

/-!
# A batch, turn by turn

A batch that is rendered in whichever turns is at last a row of turns that ends all its renders
(`renderAll_turns`): what the turns leave undone are more turns.  Each turn keeps that every spec
stands where its own image and reply can have brought it, and that what is held is what the replies
so far have left (`Underway.takeTurn`).  So this is also what a whole batch leaves
(`renderAll_served`).
-/

namespace GraphBlock

open Disk

namespace Session

open Stage

/-- The render that waits for its outcome. -/
def Task.waiting? : Task → Option PendingRender
  | .begun started => render? started
  | .queued _ | .missed _ => none

section Rows

variable {s : Session} {root : Path} {reply : String → Option Outcome} {b b' : Ongoing}
  {c c' : Coordinator} {d d' : Disk}

theorem takeTurns_append : ∀ {ts us : List Turn} {b b' : Ongoing} {d d' : Disk},
    (s.takeTurns root reply b ts : StateM Disk _).run d = (b', d') →
      (s.takeTurns root reply b (ts ++ us) : StateM Disk _).run d
        = (s.takeTurns root reply b' us : StateM Disk _).run d'
  | [], _, _, _, _, _, h => by
    cases h
    rfl
  | t :: ts, us, b, b', d, d', h => by
    obtain ⟨b₁, d₁, ht, h⟩ := run_bind_eq.1 h
    refine run_bind_eq.2 ⟨b₁, d₁, ht, ?_⟩
    exact takeTurns_append h

/-- The render at a place moves on by itself. -/
theorem takeTurn_render (reply : String → Option Outcome) (as rest : List Task)
    (asked : List String) {task task' : Task} {more : List String}
    (h : (s.advance c root task : StateM Disk _).run d = ((c', task', more), d')) :
    (s.takeTurn root reply ⟨c, as ++ task :: rest, asked⟩ (.render as.length) : StateM Disk _).run d
      = (⟨c', as ++ task' :: rest, asked ++ more⟩, d') := by
  have hget : (as ++ task :: rest)[as.length]? = some task := by simp
  have hset : (as ++ task :: rest).set as.length task' = as ++ task' :: rest := by simp
  simp only [takeTurn, hget]
  exact run_bind_eq.2 ⟨_, _, h, by rw [hset]; rfl⟩

theorem takeTurns_single {t : Turn}
    (h : (s.takeTurn root reply b t : StateM Disk _).run d = (b', d')) :
    (s.takeTurns root reply b [t] : StateM Disk _).run d = (b', d') :=
  run_bind_eq.2 ⟨_, _, h, rfl⟩

/-- To bring a render to where it ends or waits takes it two turns at most. -/
theorem begin_turns (reply : String → Option Outcome) (as rest : List Task) (asked : List String)
    {task : Task} {st : Started} {more : List String}
    (h : (s.begin c root task : StateM Disk _).run d = ((c', st, more), d')) :
    ∃ turns, (s.takeTurns root reply ⟨c, as ++ task :: rest, asked⟩ turns : StateM Disk _).run d
      = (⟨c', as ++ .begun st :: rest, asked ++ more⟩, d') := by
  rcases task with spec | spec | st₀
  · obtain ⟨⟨c₁, st₁⟩, d₁, hstart, h⟩ := run_bind_eq.1 h
    cases h
    obtain ⟨found, d₂, hl, hstart⟩ := run_bind_eq.1 hstart
    rcases found with _ | image
    · have hmiss : (s.advance c root (.queued spec) : StateM Disk _).run d
          = ((c, .missed spec, []), d₂) := run_bind_eq.2 ⟨none, d₂, hl, rfl⟩
      have hask : (s.advance c root (.missed spec) : StateM Disk _).run d₂
          = ((c', .begun st, submitted [st]), d') := by
        obtain ⟨hreq, rfl⟩ := Prod.mk.inj hstart
        simp only [advance, hreq]
        rfl
      have hturn := takeTurn_render reply as rest asked hmiss
      rw [List.append_nil] at hturn
      exact ⟨[.render as.length, .render as.length],
        run_bind_eq.2 ⟨_, _, hturn, takeTurns_single (takeTurn_render _ _ _ _ hask)⟩⟩
    · have hhit : (s.advance c root (.queued spec) : StateM Disk _).run d
          = ((c', .begun st, submitted [st]), d') := by
        cases hstart
        exact run_bind_eq.2 ⟨some image, d', hl, rfl⟩
      exact ⟨[.render as.length], takeTurns_single (takeTurn_render _ _ _ _ hhit)⟩
  · cases h
    exact ⟨[.render as.length], takeTurns_single (takeTurn_render _ _ _ _ rfl)⟩
  · cases h
    refine ⟨[], ?_⟩
    rw [List.append_nil]
    rfl

theorem startAll_turns (reply : String → Option Outcome) : ∀ (tasks as : List Task)
    (asked : List String) {c c' : Coordinator} {d d' : Disk} {batch : List Started}
    {more : List String},
    (s.startAll c root tasks : StateM Disk _).run d = ((c', batch, more), d') →
    ∃ turns, (s.takeTurns root reply ⟨c, as ++ tasks, asked⟩ turns : StateM Disk _).run d
      = (⟨c', as ++ batch.map .begun, asked ++ more⟩, d')
  | [], as, asked, c, c', d, d', batch, more, h => by
    cases h
    refine ⟨[], ?_⟩
    rw [List.append_nil asked]
    rfl
  | task :: tasks, as, asked, c, c', d, d', batch, more, h => by
    obtain ⟨⟨c₁, st, first⟩, d₁, hb, h⟩ := run_bind_eq.1 h
    obtain ⟨⟨c₂, rest, others⟩, d₂, hr, h⟩ := run_bind_eq.1 h
    cases h
    obtain ⟨ts, hts⟩ := begin_turns reply as tasks asked hb
    obtain ⟨us, hus⟩ := startAll_turns reply tasks (as ++ [.begun st]) (asked ++ first) hr
    rw [List.append_assoc, List.append_assoc, List.append_assoc] at hus
    exact ⟨ts ++ us, (takeTurns_append hts).trans hus⟩

theorem takeTurn_reply {f : String} {tasks : List Task} {asked : List String} (hf : f ∈ asked) :
    (s.takeTurn root reply ⟨c, tasks, asked⟩ (.reply f) : StateM Disk _).run d
      = (⟨{ c with router := c.router.listen (replies c.router.origin reply [f]) }, tasks, asked⟩,
        d) := by
  rcases hr : reply f with _ | outcome
  · simp only [takeTurn, hr, replies, List.filterMap_cons, Option.map_none]
    rfl
  · simp only [takeTurn, hr, if_pos hf, replies, List.filterMap_cons, Option.map_some]
    rfl

/-- The replies to requests of a batch are turns of the host. -/
theorem listen_turns (s : Session) (root : Path) (reply : String → Option Outcome) (d : Disk)
    {asked : List String} (tasks : List Task) : ∀ (fs : List String) (c : Coordinator),
    (∀ f ∈ fs, f ∈ asked) →
    (s.takeTurns root reply ⟨c, tasks, asked⟩ (fs.map .reply) : StateM Disk _).run d
      = (⟨{ c with router := c.router.listen (replies c.router.origin reply fs) }, tasks, asked⟩, d)
  | [], c, _ => rfl
  | f :: fs, c, hfs => by
    have ih := listen_turns s root reply d tasks fs
      { c with router := c.router.listen (replies c.router.origin reply [f]) }
      fun g hg => hfs g (List.mem_cons_of_mem f hg)
    refine run_bind_eq.2 ⟨_, d, takeTurn_reply (hfs f List.mem_cons_self), ih.trans ?_⟩
    have hsplit : c.router.listen (replies c.router.origin reply (f :: fs))
        = (c.router.listen (replies c.router.origin reply [f])).listen
          (replies c.router.origin reply fs) := by
      rw [replies, ← List.singleton_append, List.filterMap_append]
      exact List.foldl_append
    simp only [Router.origin_listen, hsplit]

/-- If all of a batch have their outcomes, the ends of its renders are turns. -/
theorem endAll_turns (s : Session) (root : Path) (reply : String → Option Outcome)
    (asked : List String) : ∀ (batch : List Started) (as : List Task) {c c' : Coordinator}
    {d d' : Disk} {results : List (Option RenderResult)},
    (endAll c batch : StateM Disk _).run d = ((c', results), d') →
    Routed ⟨c, batch.filterMap render?, d⟩ →
    (∀ p ∈ batch.filterMap render?, c.router.outcome? p.listener ≠ none) →
    ∃ (rs : List RenderResult) (turns : List Turn), results = rs.map some
      ∧ (s.takeTurns root reply ⟨c, as ++ batch.map .begun, asked⟩ turns : StateM Disk _).run d
        = (⟨c', as ++ rs.map fun r => .begun (.done r), asked⟩, d')
  | [], as, c, c', d, d', results, h, _, _ => by
    cases h
    exact ⟨[], [], rfl, rfl⟩
  | .done r :: batch, as, c, c', d, d', results, h, hr, hout => by
    obtain ⟨⟨c₁, rs⟩, d₁, h₁, h⟩ := run_bind_eq.1 h
    cases h
    obtain ⟨rs, turns, rfl, hturns⟩ := endAll_turns s root reply asked batch
      (as ++ [.begun (.done r)]) h₁ hr hout
    rw [List.append_assoc, List.append_assoc] at hturns
    exact ⟨r :: rs, turns, rfl, hturns⟩
  | .waiting p request :: batch, as, c, c', d, d', results, h, hr, hout => by
    obtain ⟨⟨c₁, res⟩, d₁, hfin, h⟩ := run_bind_eq.1 h
    rcases ho : c.router.outcome? p.listener with _ | o
    · exact absurd ho (hout p List.mem_cons_self)
    · have hend := hfin
      rw [Coordinator.run_finish_some ho] at hend
      cases hend
      obtain ⟨⟨c₂, rs⟩, d₂, h₁, h⟩ := run_bind_eq.1 h
      cases h
      have hr' : Routed ⟨c, [] ++ p :: batch.filterMap render?, d⟩ := hr
      obtain ⟨rs, turns, rfl, hturns⟩ := endAll_turns s root reply asked batch
        (as ++ [.begun (.done (o.result p.fingerprint p.store d))]) h₁ (hr'.release _ _)
        fun q hq => hr'.outcome?_release hq ▸ hout q (List.mem_cons_of_mem p hq)
      have hturn : (s.takeTurn root reply ⟨c, as ++ .begun (.waiting p request) :: batch.map .begun,
          asked⟩ (.render as.length) : StateM Disk _).run d = _ :=
        takeTurn_render _ _ _ _ (run_bind_eq.2 ⟨_, _, hfin, rfl⟩)
      rw [List.append_assoc, List.append_assoc] at hturns
      rw [List.append_nil] at hturn
      exact ⟨_ :: rs, .render as.length :: turns, rfl, run_bind_eq.2 ⟨_, _, hturn, hturns⟩⟩

end Rows

theorem filterMap_waiting (as : List Task) (task : Task) (rest : List Task) :
    (as ++ task :: rest).filterMap Task.waiting? = as.filterMap Task.waiting?
      ++ (task.waiting?.toList ++ rest.filterMap Task.waiting?) := by
  rw [List.filterMap_append, List.filterMap_cons]
  cases task.waiting? <;> rfl

/-- No two specs would be kept in the same file. -/
def Apart (cache : CacheService) (specs : List Spec) : Prop :=
  cache.settings.enabled = true → cache.settings.location = .filesystem →
    (specs.map Spec.fingerprint).Nodup

/-- What equal specs share is in memory. -/
theorem Apart.store?_eq {cache : CacheService} {specs : List Spec} (h : Apart cache specs)
    {f : String} (hdup : List.Duplicate f (specs.map Spec.fingerprint)) {root : Path}
    {k : Holdings} {b : Bytes} (hb : CacheStore.found? (cache.store? root) k.1 k.2 f = some b) :
    cache.store? root = some .memory := by
  by_cases hon : cache.settings.enabled = true
  · cases hloc : cache.settings.location with
    | memory => exact CacheService.store?_of_memory hon hloc root
    | filesystem => exact absurd (h hon hloc) hdup.not_nodup
  · rw [CacheService.store?, if_neg hon] at hb
    simp [CacheStore.found?] at hb

/-- What a spec of this fingerprint can be answered in a batch of these fingerprints: the image that
was found before the batch, or its reply, or the image that an equal spec kept in memory
meanwhile. -/
inductive Served (store : Option CacheStore) (reply : String → Outcome) (k₀ : Holdings)
    (fs : List String) (f : String) : RenderResult → Prop where
  | found {b : Bytes} (h : CacheStore.found? store k₀.1 k₀.2 f = some b) :
      Served store reply k₀ fs f (.ok ⟨b, .cache, none⟩)
  | replied (h : CacheStore.found? store k₀.1 k₀.2 f = none) :
      Served store reply k₀ fs f ((reply f).result f store k₀.2)
  | shared {b : Bytes} (h : CacheStore.found? store k₀.1 k₀.2 f = none) (hr : reply f = .success b)
      (hdup : List.Duplicate f fs) (hstore : store = some .memory) :
      Served store reply k₀ fs f (.ok ⟨b, .cache, none⟩)

/-- Where a spec of this fingerprint stands in a batch that has submitted the requests `asked` and
kept the replies to `ended`. -/
inductive Standing (store : Option CacheStore) (reply : String → Outcome) (k₀ : Holdings)
    (fs : List String) (r : Router) (asked ended : List String) (spec : Spec) : Task → Prop where
  | queued : Standing store reply k₀ fs r asked ended spec (.queued spec)
  | missed (h : CacheStore.found? store k₀.1 k₀.2 spec.fingerprint = none) :
      Standing store reply k₀ fs r asked ended spec (.missed spec)
  | waiting {p : PendingRender} (h : CacheStore.found? store k₀.1 k₀.2 spec.fingerprint = none)
      (hkey : p.fingerprint = spec.fingerprint) (hstore : p.store = store)
      (hasked : p.fingerprint ∈ asked)
      (hout : ∀ o, r.outcome? p.listener = some o → o = reply p.fingerprint) :
      Standing store reply k₀ fs r asked ended spec (.begun (.waiting p spec.request))
  | done {result : RenderResult} (h : Served store reply k₀ fs spec.fingerprint result)
      (hended : CacheStore.found? store k₀.1 k₀.2 spec.fingerprint = none →
        spec.fingerprint ∈ ended) :
      Standing store reply k₀ fs r asked ended spec (.begun (.done result))

theorem Standing.mono {store : Option CacheStore} {reply : String → Outcome} {k₀ : Holdings}
    {fs : List String} {r r' : Router} {asked asked' ended ended' : List String} {spec : Spec}
    {task : Task} (h : Standing store reply k₀ fs r asked ended spec task)
    (hr : ∀ p, task.waiting? = some p → ∀ o, r'.outcome? p.listener = some o →
      r.outcome? p.listener = some o ∨ o = reply p.fingerprint)
    (ha : asked ⊆ asked') (he : ended ⊆ ended') :
    Standing store reply k₀ fs r' asked' ended' spec task := by
  cases h with
  | queued => exact .queued
  | missed h => exact .missed h
  | waiting h hkey hstore hasked hout =>
    exact .waiting h hkey hstore (ha hasked) fun o ho => (hr _ rfl o ho).elim (hout o) id
  | done h hended => exact .done h fun hnone => he (hended hnone)

/-- A batch under way, which began with `k₀` held. -/
structure Underway (cache : CacheService) (root : Path) (reply : String → Outcome) (k₀ : Holdings)
    (specs : List Spec) (ended : List String) (b : Ongoing) (d : Disk) : Prop where
  apart : Apart cache specs
  cache_eq : b.coordinator.cache = cache
  routed : Routed ⟨b.coordinator, b.tasks.filterMap Task.waiting?, d⟩
  holdings : (b.coordinator.images, d) = fillAll (cache.store? root) reply ended k₀
  kept : ∀ f ∈ ended, CacheStore.found? (cache.store? root) k₀.1 k₀.2 f = none
    ∧ ∃ (i : Nat) (spec : Spec) (result : RenderResult), specs[i]? = some spec
      ∧ spec.fingerprint = f ∧ b.tasks[i]? = some (.begun (.done result))
  standing : List.Forall₂ (Standing (cache.store? root) reply k₀ (specs.map Spec.fingerprint)
    b.coordinator.router b.submitted ended) specs b.tasks

namespace Underway

variable {cache : CacheService} {root : Path} {reply : String → Outcome} {k₀ : Holdings}
  {specs : List Spec} {ended : List String} {b b' : Ongoing} {d d' : Disk} {s : Session}

theorem slash_not_mem (h : Underway cache root reply k₀ specs ended b d) {f : String}
    (hf : f ∈ ended) : '/' ∉ f.toList := by
  obtain ⟨-, i, spec, -, -, rfl, -⟩ := h.kept f hf
  exact spec.slash_not_mem_fingerprint

/-- What was not replied yet is found or missed as at first. -/
theorem found?_eq (h : Underway cache root reply k₀ specs ended b d) {f : String}
    (hf : '/' ∉ f.toList) (hno : f ∉ ended) :
    CacheStore.found? (cache.store? root) b.coordinator.images d f
      = CacheStore.found? (cache.store? root) k₀.1 k₀.2 f := by
  have halike := alike_fillAll cache root reply (k := k₀) hf (fun g hg => h.slash_not_mem hg) hno
  rw [← h.holdings] at halike
  exact halike.found?_eq hf root

variable {c c' : Coordinator} {as rest : List Task} {asked asked' asks ended' : List String}
  {task task' : Task} {spec : Spec}

theorem routed_middle
    (h : Underway cache root reply k₀ specs ended ⟨c, as ++ task :: rest, asked⟩ d) :
    Routed ⟨c, as.filterMap Task.waiting?
      ++ (task.waiting?.toList ++ rest.filterMap Task.waiting?), d⟩ := by
  rw [← filterMap_waiting]
  exact h.routed

/-- One render of a batch moved on, and maybe its reply was kept. -/
theorem replace (h : Underway cache root reply k₀ specs ended ⟨c, as ++ task :: rest, asked⟩ d)
    (hspec : specs[as.length]? = some spec) (hcache : c'.cache = c.cache)
    (hrouted : Routed ⟨c', (as ++ task' :: rest).filterMap Task.waiting?, d'⟩)
    (hout : ∀ p ∈ (as ++ rest).filterMap Task.waiting?,
      c'.router.outcome? p.listener = c.router.outcome? p.listener)
    (hholdings : (c'.images, d') = fillAll (cache.store? root) reply ended' k₀)
    (hold : ended ⊆ ended') (hnew : ∀ f ∈ ended', f ∈ ended
      ∨ CacheStore.found? (cache.store? root) k₀.1 k₀.2 f = none ∧ spec.fingerprint = f
        ∧ ∃ result, task' = .begun (.done result))
    (hasked : asked ⊆ asked') (hdone : ∀ result, task ≠ .begun (.done result))
    (hstands : Standing (cache.store? root) reply k₀ (specs.map Spec.fingerprint) c'.router
      asked' ended' spec task') :
    Underway cache root reply k₀ specs ended' ⟨c', as ++ task' :: rest, asked'⟩ d' := by
  refine ⟨h.apart, hcache.trans h.cache_eq, hrouted, hholdings, fun f hf => ?_, ?_⟩
  · rcases hnew f hf with hf | ⟨hnone, hfp, result, rfl⟩
    · obtain ⟨hnone, i, spec', result, hi, hfp, ht⟩ := h.kept f hf
      refine ⟨hnone, i, spec', result, hi, hfp, ?_⟩
      have hne : as.length ≠ i := by
        rintro rfl
        rw [show (as ++ task :: rest)[as.length]? = some task by simp] at ht
        exact hdone result (Option.some.inj ht)
      have hset : (as ++ task :: rest).set as.length task' = as ++ task' :: rest := by simp
      rw [← hset, List.getElem?_set_ne hne]
      exact ht
    · exact ⟨hnone, as.length, spec, result, hspec, hfp, by simp⟩
  · obtain ⟨xs, spec', ys, rfl, hlen, hxs, -, hys⟩ := exists_of_forall₂_middle h.standing
    obtain rfl : spec' = spec := by simpa [← hlen] using hspec
    have hothers : ∀ spec, ∀ t ∈ as ++ rest, Standing (cache.store? root) reply k₀
        ((xs ++ spec' :: ys).map Spec.fingerprint) c.router asked ended spec t →
        Standing (cache.store? root) reply k₀ ((xs ++ spec' :: ys).map Spec.fingerprint) c'.router
          asked' ended' spec t := fun spec t ht hst =>
      hst.mono (fun p hp o ho => .inl (hout p (List.mem_filterMap.2 ⟨t, ht, hp⟩) ▸ ho)) hasked hold
    refine List.rel_append (forall₂_imp_of_mem hxs fun spec t ht => ?_)
      (.cons hstands (forall₂_imp_of_mem hys fun spec t ht => ?_))
    · exact hothers spec t (List.mem_append_left _ ht)
    · exact hothers spec t (List.mem_append_right _ ht)

/-- A spec that looks for its image finds what was there before the batch, or else what an equal
spec kept. -/
theorem served_of_found (h : Underway cache root reply k₀ specs ended
      ⟨c, as ++ .queued spec :: rest, asked⟩ d) (hspec : specs[as.length]? = some spec) {b : Bytes}
    (hb : CacheStore.found? (cache.store? root) c.images d spec.fingerprint = some b) :
    Served (cache.store? root) reply k₀ (specs.map Spec.fingerprint) spec.fingerprint
        (.ok ⟨b, .cache, none⟩)
      ∧ (CacheStore.found? (cache.store? root) k₀.1 k₀.2 spec.fingerprint = none →
        spec.fingerprint ∈ ended) := by
  by_cases hmem : spec.fingerprint ∈ ended
  · obtain ⟨hnone, i, spec', result, hi, hfp, ht⟩ := h.kept _ hmem
    have hne : as.length ≠ i := by
      rintro rfl
      simp at ht
    have hlater : CacheStore.found? (cache.store? root)
        (fillAll (cache.store? root) reply ended k₀).1
        (fillAll (cache.store? root) reply ended k₀).2 spec.fingerprint = some b := by
      rw [← h.holdings]
      exact hb
    have hreply : reply spec.fingerprint = .success b := by
      rcases found?_fillAll spec.slash_not_mem_fingerprint (fun g hg => h.slash_not_mem hg) hlater
        with hold | ⟨-, hr⟩
      · rw [hnone] at hold
        simp at hold
      · exact hr
    have hdup : List.Duplicate spec.fingerprint (specs.map Spec.fingerprint) :=
      duplicate_of_getElem? hne (by rw [List.getElem?_map, hspec]; rfl)
        (by rw [List.getElem?_map, hi, ← hfp]; rfl)
    exact ⟨.shared hnone hreply hdup (h.apart.store?_eq hdup hlater), fun _ => hmem⟩
  · have hfirst := (h.found?_eq spec.slash_not_mem_fingerprint hmem).symm.trans hb
    exact ⟨.found hfirst, fun hnone => by simp [hnone] at hfirst⟩

theorem missed_of_not_found (h : Underway cache root reply k₀ specs ended b d)
    (hnone : CacheStore.found? (cache.store? root) b.coordinator.images d spec.fingerprint = none) :
    CacheStore.found? (cache.store? root) k₀.1 k₀.2 spec.fingerprint = none := by
  by_cases hmem : spec.fingerprint ∈ ended
  · exact (h.kept _ hmem).1
  · exact (h.found?_eq spec.slash_not_mem_fingerprint hmem).symm.trans hnone

/-- A turn in which no render comes to wait and none ends changes its standing only. -/
theorem looked (h : Underway cache root reply k₀ specs ended
      ⟨c, as ++ .queued spec :: rest, asked⟩ d) (hspec : specs[as.length]? = some spec)
    (hvacant : task'.waiting? = none)
    (hstands : Standing (cache.store? root) reply k₀ (specs.map Spec.fingerprint) c.router asked
      ended spec task') :
    Underway cache root reply k₀ specs ended ⟨c, as ++ task' :: rest, asked⟩ d := by
  have hr := h.routed_middle
  exact h.replace hspec rfl (by rwa [filterMap_waiting, hvacant]) (fun _ _ => rfl) h.holdings
    (List.Subset.refl _) (fun _ => .inl) (List.Subset.refl _) (by simp) hstands

theorem requested (h : Underway cache root reply k₀ specs ended
      ⟨c, as ++ .missed spec :: rest, asked⟩ d) (hspec : specs[as.length]? = some spec)
    (hnone : CacheStore.found? (cache.store? root) k₀.1 k₀.2 spec.fingerprint = none) :
    Underway cache root reply k₀ specs ended
      ⟨{ c with router := (c.router.register spec.fingerprint).1 },
        as ++ .begun (.waiting ⟨spec.fingerprint, c.store? root,
          (c.router.register spec.fingerprint).2⟩ spec.request) :: rest,
        asked ++ [spec.fingerprint]⟩ d := by
  have hr := h.routed_middle
  have hfresh := hr.serves.outcome?_register spec.fingerprint
  refine h.replace hspec rfl ?_ (fun _ _ => rfl) h.holdings (List.Subset.refl _) (fun _ => .inl)
    (List.subset_append_left _ _) (by simp) (.waiting hnone rfl ?_ (by simp) fun o ho => ?_)
  · rw [filterMap_waiting]
    refine (hr.register spec.fingerprint (c.store? root)).perm ?_
    exact (List.Perm.of_eq (List.append_assoc ..)).trans (List.perm_append_comm.append_left _)
  · rw [Coordinator.store?_eq, h.cache_eq]
  · rw [hfresh] at ho
    simp at ho

theorem ended_with {p : PendingRender} (h : Underway cache root reply k₀ specs ended
      ⟨c, as ++ .begun (.waiting p spec.request) :: rest, asked⟩ d)
    (hspec : specs[as.length]? = some spec)
    (hnone : CacheStore.found? (cache.store? root) k₀.1 k₀.2 spec.fingerprint = none)
    (hkey : p.fingerprint = spec.fingerprint) (hstore : p.store = cache.store? root)
    {o : Outcome} (hreply : o = reply p.fingerprint) :
    Underway cache root reply k₀ specs (ended ++ [p.fingerprint])
      ⟨{ c with
          router := c.router.release p.listener
          images := (o.filled p.fingerprint p.store (c.images, d)).1 },
        as ++ .begun (.done (o.result p.fingerprint p.store d)) :: rest, asked⟩
      (o.filled p.fingerprint p.store (c.images, d)).2 := by
  have hr : Routed ⟨c, as.filterMap Task.waiting? ++ p :: rest.filterMap Task.waiting?, d⟩ :=
    h.routed_middle
  have hheld : (o.filled p.fingerprint p.store (c.images, d))
      = fillAll (cache.store? root) reply (ended ++ [p.fingerprint]) k₀ := by
    rw [fillAll_concat, ← h.holdings, hstore, hreply]
  have hresult : o.result p.fingerprint p.store d
      = (reply spec.fingerprint).result spec.fingerprint (cache.store? root) k₀.2 := by
    have hd : d = (fillAll (cache.store? root) reply ended k₀).2 := congrArg Prod.snd h.holdings
    rw [hreply, hkey, hstore, hd]
    exact result_fillAll _ _ spec.slash_not_mem_fingerprint fun g hg => h.slash_not_mem hg
  refine h.replace hspec rfl ?_ (fun q hq => ?_) hheld (List.subset_append_left _ _)
    (fun f hf => ?_) (List.Subset.refl _) (by simp) (.done (hresult ▸ .replied hnone) fun _ => ?_)
  · rw [filterMap_waiting]
    exact hr.release _ _
  · rw [List.filterMap_append] at hq
    exact hr.outcome?_release hq
  · refine (List.mem_append.1 hf).imp id fun hf => ?_
    obtain rfl := List.mem_singleton.1 hf
    exact ⟨hkey ▸ hnone, hkey.symm, _, rfl⟩
  · rw [← hkey]
    exact List.mem_append_right _ List.mem_cons_self

/-- What a render does next keeps each spec where it can stand. -/
theorem advance (h : Underway cache root reply k₀ specs ended ⟨c, as ++ task :: rest, asked⟩ d)
    (hopen : s.channelOpen = true)
    (hs : (s.advance c root task : StateM Disk _).run d = ((c', task', asks), d')) :
    ∃ ended', Underway cache root reply k₀ specs ended' ⟨c', as ++ task' :: rest, asked ++ asks⟩
      d' := by
  obtain ⟨spec, hspec, hst⟩ := exists_getElem?_of_forall₂ h.standing.flip
    (show (as ++ task :: rest)[as.length]? = some task by simp)
  cases hst with
  | queued =>
    obtain ⟨found, d₁, hl, hs⟩ := run_bind_eq.1 hs
    rw [Coordinator.run_lookup?, Coordinator.store?_eq, h.cache_eq] at hl
    obtain ⟨hfound, rfl⟩ := Prod.mk.inj hl
    refine ⟨ended, ?_⟩
    rcases found with _ | image <;> cases hs <;> rw [List.append_nil]
    · exact h.looked hspec rfl (.missed (h.missed_of_not_found hfound))
    · obtain ⟨hserved, hended⟩ := h.served_of_found hspec hfound
      exact h.looked hspec rfl (.done hserved hended)
  | missed hnone =>
    have hreq : c.request s.submit spec root
        = ({ c with router := (c.router.register spec.fingerprint).1 },
          .waiting ⟨spec.fingerprint, c.store? root, (c.router.register spec.fingerprint).2⟩
            spec.request) := by
      simp only [Coordinator.request, submit, hopen, if_true]
    simp only [Session.advance, hreq] at hs
    cases hs
    exact ⟨ended, h.requested hspec hnone⟩
  | waiting hnone hkey hstore hasked hout =>
    rename_i p
    obtain ⟨⟨c₁, res⟩, d₁, hfin, hs⟩ := run_bind_eq.1 hs
    rcases ho : c.router.outcome? p.listener with _ | o
    · simp only [Coordinator.finish, ho] at hfin
      cases hfin
      cases hs
      exact ⟨ended, by rwa [List.append_nil]⟩
    · rw [Coordinator.run_finish_some ho] at hfin
      cases hfin
      cases hs
      rw [List.append_nil]
      exact ⟨_, h.ended_with hspec hnone hkey hstore (hout o ho)⟩
  | done hserved hended =>
    cases hs
    exact ⟨ended, by rwa [List.append_nil]⟩

/-- Replies of the host reach renders that wait for them. -/
theorem listen (h : Underway cache root reply k₀ specs ended b d) (fs : List String) :
    Underway cache root reply k₀ specs ended
      { b with coordinator := { b.coordinator with
        router := b.coordinator.router.listen
          (replies b.coordinator.router.origin (fun f => some (reply f)) fs) } } d := by
  refine ⟨h.apart, h.cache_eq, ⟨h.routed.serves.listen _, h.routed.key⟩, h.holdings, h.kept,
    forall₂_imp_of_mem h.standing fun spec task ht hst => ?_⟩
  refine hst.mono (fun p hp o ho => ?_) (List.Subset.refl _) (List.Subset.refl _)
  have hmem : p ∈ b.tasks.filterMap Task.waiting? := List.mem_filterMap.2 ⟨task, ht, hp⟩
  rw [h.routed.serves.outcome?_listen (List.mem_map_of_mem hmem), firstMatch_replies] at ho
  rcases Option.or_eq_some_iff.1 ho with hold | ⟨-, hnew⟩
  · exact .inl hold
  · split_ifs at hnew
    rw [h.routed.key p hmem] at hnew
    exact .inr (Option.some.inj hnew).symm

/-- If all requests so far get a reply, all renders that wait have their outcomes. -/
theorem outcome?_listen (h : Underway cache root reply k₀ specs ended b d) {p : PendingRender}
    (hp : p ∈ b.tasks.filterMap Task.waiting?) :
    (b.coordinator.router.listen (replies b.coordinator.router.origin (fun f => some (reply f))
      b.submitted)).outcome? p.listener ≠ none := by
  obtain ⟨task, ht, hw⟩ := List.mem_filterMap.1 hp
  obtain ⟨spec, -, hst⟩ := exists_of_mem_forall₂ h.standing ht
  have hasked : p.fingerprint ∈ b.submitted := by
    cases hst with
    | waiting hnone hkey hstore hasked hout =>
      obtain rfl := Option.some.inj hw
      exact hasked
    | queued | missed | done => simp [Task.waiting?, render?] at hw
  rw [h.routed.serves.outcome?_listen (List.mem_map_of_mem hp), h.routed.key p hp,
    firstMatch_replies, if_pos hasked]
  simp

theorem takeTurn (h : Underway cache root reply k₀ specs ended b d) (hopen : s.channelOpen = true)
    {t : Turn} (hs : (s.takeTurn root (fun f => some (reply f)) b t : StateM Disk _).run d
      = (b', d')) :
    ∃ ended', Underway cache root reply k₀ specs ended' b' d' := by
  obtain ⟨c, tasks, asked⟩ := b
  cases t with
  | render i =>
    rcases hi : tasks[i]? with _ | task
    · simp only [Session.takeTurn, hi] at hs
      cases hs
      exact ⟨ended, h⟩
    · obtain ⟨hlt, hget⟩ := List.getElem?_eq_some_iff.1 hi
      obtain ⟨as, rest, htasks, rfl, -⟩ : ∃ as rest, tasks = as ++ tasks[i] :: rest
          ∧ as.length = i ∧ tasks.set i task = as ++ task :: rest := List.exists_of_set hlt
      rw [hget] at htasks
      subst htasks
      rcases hadv : (s.advance c root task : StateM Disk _).run d with ⟨⟨c', task', asks⟩, d₁⟩
      rw [takeTurn_render _ _ _ _ hadv] at hs
      cases hs
      exact h.advance hopen hadv
  | reply f =>
    by_cases hf : f ∈ asked
    · rw [takeTurn_reply hf] at hs
      cases hs
      exact ⟨ended, h.listen [f]⟩
    · simp only [Session.takeTurn, if_neg hf] at hs
      cases hs
      exact ⟨ended, h⟩

theorem takeTurns (hopen : s.channelOpen = true) : ∀ {ts : List Turn} {b b' : Ongoing} {d d' : Disk}
    {ended : List String}, Underway cache root reply k₀ specs ended b d →
    (s.takeTurns root (fun f => some (reply f)) b ts : StateM Disk _).run d = (b', d') →
      ∃ ended', Underway cache root reply k₀ specs ended' b' d'
  | [], _, _, _, _, ended, h, hs => by
    cases hs
    exact ⟨ended, h⟩
  | t :: ts, b, b', d, d', ended, h, hs => by
    obtain ⟨b₁, d₁, ht, hs⟩ := run_bind_eq.1 hs
    obtain ⟨ended₁, h₁⟩ := h.takeTurn hopen ht
    exact takeTurns hopen h₁ hs

/-- Before the first turn. -/
theorem start {cache : CacheService} {specs : List Spec} (hapart : Apart cache specs) (root : Path)
    (reply : String → Outcome) (d : Disk) {c : Coordinator} (hcache : c.cache = cache)
    (hserves : c.router.Serves []) :
    Underway cache root reply (c.images, d) specs [] ⟨c, specs.map .queued, []⟩ d := by
  have hnil : (specs.map Task.queued).filterMap Task.waiting? = [] := by
    simp [List.filterMap_map, Task.waiting?, Function.comp_def]
  refine ⟨hapart, hcache, ⟨by rw [hnil]; exact hserves, by simp [hnil]⟩, rfl, by simp, ?_⟩
  rw [List.forall₂_map_right_iff, List.forall₂_same]
  exact fun spec _ => .queued

end Underway

/-- A batch whose requests all get a reply, in whichever turns it is rendered, is a row of turns
that ends all its renders. -/
theorem renderAll_turns {s s' : Session} {root : Path} {reply : String → Outcome} {d d' : Disk}
    (hserves : s.coordinator.router.Serves []) (hopen : s.channelOpen = true) {specs : List Spec}
    (hapart : Apart s.coordinator.cache specs) {turns : List Turn}
    {results : List (Option RenderResult)} {asked : List String}
    (h : (s.renderAll specs root (fun f => some (reply f)) turns : StateM Disk _).run d
      = ((s', results, asked), d')) :
    ∃ (rs : List RenderResult) (row : List Turn), results = rs.map some
      ∧ (s.takeTurns root (fun f => some (reply f)) ⟨s.coordinator, specs.map .queued, []⟩ row :
          StateM Disk _).run d
        = (⟨s'.coordinator, rs.map fun r => .begun (.done r), asked⟩, d') := by
  obtain ⟨b, d₁, hturns, h⟩ := run_bind_eq.1 h
  obtain ⟨⟨c, batch, rest⟩, d₂, hstart, h⟩ := run_bind_eq.1 h
  obtain ⟨⟨c', rs⟩, d₃, hend, h⟩ := run_bind_eq.1 h
  cases h
  obtain ⟨opening, hopening⟩ := startAll_turns (fun f => some (reply f)) b.tasks [] b.submitted
    hstart
  rw [List.nil_append, List.nil_append] at hopening
  have hfirst := Underway.start hapart root reply d rfl hserves
  obtain ⟨ended₁, h₁⟩ := Underway.takeTurns hopen hfirst hturns
  obtain ⟨ended₂, h₂⟩ := Underway.takeTurns hopen h₁ hopening
  have hreplies := listen_turns s root (fun f => some (reply f)) d₂ (batch.map .begun)
    (b.submitted ++ rest) c fun f hf => hf
  have hwaiting : (batch.map Task.begun).filterMap Task.waiting? = batch.filterMap render? := by
    rw [List.filterMap_map]
    rfl
  have hrouted := (h₂.listen (b.submitted ++ rest)).routed
  simp only [hwaiting] at hrouted
  obtain ⟨rs, closing, rfl, hclosing⟩ := endAll_turns s root (fun f => some (reply f))
    (b.submitted ++ rest) batch [] hend hrouted fun p hp => h₂.outcome?_listen (hwaiting ▸ hp)
  rw [List.nil_append, List.nil_append] at hclosing
  refine ⟨rs, turns ++ (opening ++ ((b.submitted ++ rest).map .reply ++ closing)), rfl, ?_⟩
  rw [takeTurns_append hturns, takeTurns_append hopening, takeTurns_append hreplies]
  exact hclosing

/-- The fingerprints of the specs whose images were not found. -/
def missing (store : Option CacheStore) (k : Holdings) (specs : List Spec) : List String :=
  (specs.map Spec.fingerprint).filter fun f => (CacheStore.found? store k.1 k.2 f).isNone

theorem Underway.mem_ended_iff {cache : CacheService} {root : Path} {reply : String → Outcome}
    {k₀ : Holdings} {specs : List Spec} {ended : List String} {b : Ongoing} {d : Disk}
    {rs : List RenderResult} (h : Underway cache root reply k₀ specs ended b d)
    (htasks : b.tasks = rs.map fun r => .begun (.done r)) (f : String) :
    f ∈ ended ↔ f ∈ missing (cache.store? root) k₀ specs := by
  simp only [missing, List.mem_filter, List.mem_map, Option.isNone_iff_eq_none]
  constructor
  · intro hf
    obtain ⟨hnone, i, spec, -, hi, rfl, -⟩ := h.kept f hf
    exact ⟨⟨spec, List.mem_of_getElem? hi, rfl⟩, hnone⟩
  · rintro ⟨⟨spec, hspec, rfl⟩, hnone⟩
    obtain ⟨task, ht, hst⟩ := exists_of_forall₂_mem h.standing hspec
    rw [htasks, List.mem_map] at ht
    obtain ⟨r, -, rfl⟩ := ht
    cases hst with
    | done hserved hended => exact hended hnone

/-- What a batch answers and leaves in whichever turns it is rendered. -/
theorem renderAll_served {s s' : Session} {root : Path} {reply : String → Outcome} {d d' : Disk}
    (hserves : s.coordinator.router.Serves []) (hopen : s.channelOpen = true) {specs : List Spec}
    (hapart : Apart s.coordinator.cache specs) {turns : List Turn}
    {results : List (Option RenderResult)} {asked : List String}
    (h : (s.renderAll specs root (fun f => some (reply f)) turns : StateM Disk _).run d
      = ((s', results, asked), d')) :
    let store := s.coordinator.store? root
    let k₀ : Holdings := (s.coordinator.images, d)
    ∃ rs : List RenderResult, results = rs.map some
      ∧ List.Forall₂ (fun spec => Served store reply k₀ (specs.map Spec.fingerprint)
        spec.fingerprint) specs rs
      ∧ SameHoldings (s'.coordinator.images, d')
        (fillAll store reply (missing store k₀ specs) k₀) := by
  obtain ⟨rs, row, rfl, hrow⟩ := renderAll_turns hserves hopen hapart h
  obtain ⟨ended, hlast⟩ := (Underway.start hapart root reply d rfl hserves).takeTurns hopen hrow
  refine ⟨rs, rfl, ?_, ?_⟩
  · have hst := hlast.standing
    rw [List.forall₂_map_right_iff] at hst
    refine hst.imp fun spec r hdone => ?_
    cases hdone with
    | done hserved hended => exact hserved
  · rw [hlast.holdings]
    exact fillAll_of_mem_iff _ root reply (fun f hf => hlast.slash_not_mem hf)
      (hlast.mem_ended_iff rfl) _

end Session

end GraphBlock
