import GraphBlock.Proofs.Render.Running

/-!
# Where images come from

Every image that a render returns and every image that is kept is the image of an earlier
completion: one from the trusted origin, for the render's fingerprint, that resolved a render
(`Resolved`).  Only a directory can hold images of another source, namely what the host has put
into the file itself (`Hosted`).  Moves keep this (`Move.traced`), because what they keep is an
outcome that was delivered and because the name of an entry's file tells its fingerprint.
-/

namespace GraphBlock

theorem Coordinator.store?_directory {c : Coordinator} {root : Path} {dir : DirectoryCache}
    (h : c.store? root = some (.directory dir)) :
    c.cache.storeFor root = .directory dir ∧ c.cache.settings.location = .filesystem
      ∧ ∃ path, dir = ⟨path, c.cache.filePrefix⟩ := by
  simp only [store?] at h
  split_ifs at h
  have h := Option.some.inj h
  refine ⟨h, ?_⟩
  rw [CacheService.storeFor] at h
  split at h
  · simp at h
  · obtain rfl := CacheStore.directory.inj h
    exact ⟨‹_›, _, rfl⟩

/-- The file bears the name of an entry whose image has this property. -/
def CacheService.Files (cache : CacheService) (P : String → Outcome → Prop) (q : Place)
    (b : Bytes) : Prop :=
  cache.settings.location = .filesystem
    ∧ ∃ f, '/' ∉ f.toList ∧ cache.Names q f ∧ P f (.success b)

theorem Outcome.Settles.ok {o : Outcome} {f : String} {r : Rendered} (h : o.Settles f (.ok r)) :
    o = .success r.image ∧ r.source = .renderer := by
  cases o with
  | success image =>
    obtain ⟨w, h⟩ := h
    obtain rfl := Except.ok.inj h
    exact ⟨rfl, rfl⟩
  | failure message => simp [Settles] at h

namespace Stage

/-- All images that are kept have this property, or else the host has put them where they are. -/
structure Traced (cache : CacheService) (place : Place) (P : String → Outcome → Prop)
    (F : Place → Bytes → Prop) (s : Stage) : Prop where
  cache_eq : s.coordinator.cache = cache
  images : ∀ f b, s.coordinator.images.lookup f = some b → P f (.success b)
  stores : ∀ p ∈ s.renders, '/' ∉ p.fingerprint.toList
    ∧ ∃ root, p.store = s.coordinator.store? root
  files : ∀ q b, s.disk.entryAt? q = some (.file b) → F q b ∨ cache.Files P q b
  workingDirectory : s.disk.workingDirectory = place

variable {s t : Stage} {cache : CacheService} {place : Place} {P Q : String → Outcome → Prop}
  {F G : Place → Bytes → Prop}

theorem Traced.imp (h : s.Traced cache place P F) (hPQ : ∀ f o, P f o → Q f o)
    (hFG : ∀ q b, F q b → G q b) : s.Traced cache place Q G where
  cache_eq := h.cache_eq
  images f b hb := hPQ _ _ (h.images f b hb)
  stores := h.stores
  files q b hb := (h.files q b hb).imp (hFG q b)
    fun ⟨hl, f, hf, hn, hP⟩ => ⟨hl, f, hf, hn, hPQ _ _ hP⟩
  workingDirectory := h.workingDirectory

theorem Move.traced (hm : Move s t) (hv : s.Vouched P) (h : s.Traced cache place P F) :
    t.Traced cache place P F := by
  cases hm with
  | enlist c ps d spec root hnone =>
    refine ⟨h.cache_eq, h.images, fun p hp => ?_, h.files, h.workingDirectory⟩
    rcases List.mem_append.1 hp with hp | hp
    · exact h.stores p hp
    · obtain rfl := List.mem_singleton.1 hp
      exact ⟨spec.slash_not_mem_fingerprint, root, rfl⟩
  | refuse c ps d f => exact ⟨h.cache_eq, h.images, h.stores, h.files, h.workingDirectory⟩
  | giveUp as bs d hnone =>
    exact ⟨h.cache_eq, h.images, fun p hp => h.stores p (mem_middle hp), h.files,
      h.workingDirectory⟩
  | finish as bs ho hk =>
    rename_i c p d d' o images
    have hp : p ∈ as ++ p :: bs := List.mem_append_right _ List.mem_cons_self
    have hP : P p.fingerprint o := hv p hp o ho
    obtain ⟨hslash, root, hstore⟩ := h.stores p hp
    have hstores := fun (q : PendingRender) (hq : q ∈ as ++ bs) => h.stores q (mem_middle hq)
    cases hk with
    | failed | uncached | unwritten =>
      exact ⟨h.cache_eq, h.images, hstores, h.files, h.workingDirectory⟩
    | inMemory images d hs =>
      refine ⟨h.cache_eq, fun f b hb => ?_, hstores, h.files, h.workingDirectory⟩
      rw [MemoryCache.lookup_insert] at hb
      split_ifs at hb with hf
      · rw [hf, ← Option.some.inj hb]
        exact hP
      · exact h.images f b hb
    | written images d hs hq =>
      obtain ⟨-, hloc, path, rfl⟩ := Coordinator.store?_directory (hstore.symm.trans hs)
      refine ⟨h.cache_eq, h.images, hstores, fun q b hb => ?_, h.workingDirectory⟩
      rcases Disk.file_set hb with hb | ⟨rfl, he⟩
      · exact h.files q b hb
      · obtain rfl := Entry.file.inj he
        have hcache : c.cache = cache := h.cache_eq
        rw [hcache] at hloc hq
        exact .inr ⟨hloc, p.fingerprint, hslash, CacheService.names_of_writable hslash hq, hP⟩

theorem Moves.traced (hm : s.Moves t) (hr : s.Routed) (hv : s.Vouched P)
    (h : s.Traced cache place P F) : t.Traced cache place P F := by
  have hkeep : t.Routed ∧ t.Vouched P ∧ t.Traced cache place P F :=
    hm.keep (P := fun s => s.Routed ∧ s.Vouched P ∧ s.Traced cache place P F)
      (fun hmove h => ⟨hmove.routed h.1, Moves.vouched (.single hmove) h.1 h.2.1,
        hmove.traced h.2.1 h.2.2⟩) ⟨hr, hv, h⟩
  exact hkeep.2.2

/-- A hit is an image that is kept, or what the host has put into the file that is looked up. -/
theorem Traced.found (h : s.Traced cache place P F) {spec : Spec} {root : Path} {b : Bytes}
    (hf : CacheStore.found? (s.coordinator.store? root) s.coordinator.images s.disk
      spec.fingerprint = some b) :
    P spec.fingerprint (.success b)
      ∨ ∃ path q, (cache.storeFor root).target spec.fingerprint = .file path
          ∧ s.disk.resolve path = .ok (q, .file b) ∧ F q b := by
  rcases hstore : s.coordinator.store? root with _ | (_ | dir) <;> rw [hstore] at hf
  · simp [CacheStore.found?] at hf
  · exact .inl (h.images _ b hf)
  · obtain ⟨hdir, -, path, rfl⟩ := Coordinator.store?_directory hstore
    rw [h.cache_eq] at hdir hf
    obtain ⟨⟨q, b'⟩, hfile, rfl⟩ := Option.map_eq_some_iff.1 hf
    have hslash := spec.slash_not_mem_fingerprint
    obtain ⟨hnames, hentry⟩ := CacheService.names_of_file? hslash hfile
    -- The entry was written for `f`, and its name tells that `f` is the fingerprint looked up.
    rcases h.files q b' hentry with hF | ⟨-, f, hf', hnames', hP⟩
    · refine .inr ⟨_, q, ?_, DirectoryCache.file?_eq_some.1 hfile, hF⟩
      rw [hdir]
      rfl
    · exact .inl (hnames.unique hnames' hslash hf' ▸ hP)

end Stage

namespace Session

open Disk Stage

variable {origin f : String} {o : Outcome} {H K : History} {s s' : Session} {d d' d₀ : Disk}
  {cache : CacheService} {e : Event} {a : Option Answer}

/-- A completion from the trusted origin, with this fingerprint and outcome, resolved a render. -/
def Resolved (origin : String) (H : History) (f : String) (o : Outcome) : Prop :=
  (∃ e n ended, (e, some (Answer.dispatched n ended)) ∈ H
    ∧ Event.completion? e = some ⟨origin, f, o⟩ ∧ 0 < n) ∨ Replied H f o

theorem resolved_append :
    Resolved origin (H ++ K) f o ↔ Resolved origin H f o ∨ Resolved origin K f o := by
  simp only [Resolved, List.mem_append, or_and_right, exists_or, replied_append]
  exact or_or_or_comm

theorem Resolved.append (h : Resolved origin H f o) (K : History) :
    Resolved origin (H ++ K) f o :=
  resolved_append.2 (.inl h)

/-- The host has put the bytes there, before the session or in it. -/
def Hosted (d₀ : Disk) (H : History) (q : Place) (b : Bytes) : Prop :=
  d₀.entryAt? q = some (.file b)
    ∨ ∃ path a, (Event.put path (.file b), a) ∈ H ∧ d₀.placeOf path = q

theorem Hosted.append {q : Place} {b : Bytes} (h : Hosted d₀ H q b) (K : History) :
    Hosted d₀ (H ++ K) q b :=
  h.imp id fun ⟨path, a, hmem, hq⟩ => ⟨path, a, List.mem_append_left _ hmem, hq⟩

/-- A session in which every image has its source in what happened. -/
structure Sourced (cache : CacheService) (origin : String) (d₀ : Disk) (H : History) (s : Session)
    (d : Disk) : Prop where
  recorded : Recorded origin H s d
  traced : (s.stage d).Traced cache d₀.workingDirectory (Resolved origin H) (Hosted d₀ H)

theorem sourced_new (cache : CacheService) (origin : String) (d : Disk) :
    Sourced cache origin d [] (new cache origin) d where
  recorded := recorded_new cache origin d
  traced := ⟨rfl, fun f b h => by simp [new, stage] at h,
    fun p hp => by simp [new, stage, inFlight] at hp, fun q b h => .inl (.inl h), rfl⟩

theorem Sourced.vouched_dispatch (h : Sourced cache origin d₀ H s d) {c : Completion}
    (he : e.completion? = some c) {late : Bool} {n : Nat} {ended : List (Nat × RenderResult)}
    (hs : (s.dispatch c late : StateM Disk _).run d = ((s', n, ended), d')) :
    Vouched (Resolved origin (H ++ [(e, some (.dispatched n ended))]))
      ⟨{ s.coordinator with router := (s.coordinator.router.dispatch c).1 }, s.inFlight, d⟩ := by
  have hacc := h.recorded.accounted
  obtain ⟨hn, -⟩ := dispatch_spec hs hacc.routed
  refine hacc.vouched_dispatch (fun f o ho => .inr (ho.append _)) fun ho hpos => ?_
  rw [h.recorded.trusted] at ho
  exact .inl ⟨e, n, ended, List.mem_append_right _ (List.mem_singleton.2 rfl), by rw [he, ← ho],
    hn ▸ hpos⟩

theorem Sourced.vouched_renderAll (h : Sourced cache origin d₀ H s d) {specs : List Spec}
    {root : Path} {reply : String → Option Outcome} {results : List (Option RenderResult)}
    {submitted : List String} {c : Coordinator} {batch : List Started}
    (hb : Batch s d specs root reply s' d' results submitted c batch) :
    Vouched (Resolved origin
      (H ++ [(.step (.renderAll specs root reply), some (.rendered results submitted))]))
      ⟨{ c with router := (c.router.listen
        (replies s.coordinator.router.origin reply submitted)) },
        s.inFlight ++ batch.filterMap render?, d⟩ := by
  have hacc := h.recorded.accounted
  refine hb.vouched hacc.routed (hacc.vouched.imp fun f o ho => .inr (ho.append _)) ?_
  intro f hf o ho
  exact .inr ⟨specs, root, reply, results, submitted,
    List.mem_append_right _ (List.mem_singleton.2 rfl), hf, ho⟩

theorem Sourced.handle (h : Sourced cache origin d₀ H s d) (he : Happens s d e s' a d') :
    Sourced cache origin d₀ (H ++ [(e, a)]) s' d' := by
  refine ⟨h.recorded.handle he, ?_⟩
  have hacc := h.recorded.accounted
  have hr := hacc.routed
  have hreplied : ∀ f o, Replied H f o → Resolved origin (H ++ [(e, a)]) f o :=
    fun f o ho => .inr (ho.append _)
  have htraced := h.traced.imp (fun f o ho => Resolved.append ho [(e, a)])
    fun q b hq => Hosted.append hq [(e, a)]
  cases he with
  | start spec root hs => exact (start_spec hs).1.traced hr (hacc.vouched.imp hreplied) htraced
  | dispatch c hs | deliver c hs =>
    obtain ⟨-, hm, -⟩ := dispatch_spec hs hr
    exact hm.traced ⟨hr.serves.dispatch c, hr.key⟩ (h.vouched_dispatch rfl hs)
      ⟨htraced.cache_eq, htraced.images, htraced.stores, htraced.files, htraced.workingDirectory⟩
  | poll f hs => exact (poll_spec hs hr).1.traced hr (hacc.vouched.imp hreplied) htraced
  | abort i =>
    rcases abort_spec s i with hs | ⟨f, p, as, bs, hi, hfl, hfl', hrenders, hc⟩
    · rw [hs]
      exact htraced
    · rw [stage, hfl] at htraced
      rw [stage, hfl', hc]
      exact ⟨htraced.cache_eq, htraced.images, fun q hq => htraced.stores q (mem_middle hq),
        htraced.files, htraced.workingDirectory⟩
  | close => exact htraced
  | renderAll specs root reply hs =>
    obtain ⟨c, batch, hb⟩ := renderAll_spec hs hr
    -- The delivery between the two rows of moves touches the router alone.
    have hbegan := hb.began.traced hr (hacc.vouched.imp hreplied) htraced
    exact hb.ended.traced (hb.listened hr) (h.vouched_renderAll hb)
      ⟨hbegan.cache_eq, hbegan.images, hbegan.stores, hbegan.files, hbegan.workingDirectory⟩
  | put path entry =>
    refine ⟨htraced.cache_eq, htraced.images, htraced.stores, fun q b hb => ?_,
      (Disk.workingDirectory_put d path entry).trans htraced.workingDirectory⟩
    rcases Disk.file_put hb with hb | ⟨hq, rfl⟩
    · exact htraced.files q b hb
    · refine .inl (.inr ⟨path, none, List.mem_append_right _ (List.mem_singleton.2 rfl), ?_⟩)
      rw [← hq]
      exact Disk.placeOf_congr htraced.workingDirectory.symm path
  | remove path =>
    exact ⟨htraced.cache_eq, htraced.images, htraced.stores,
      fun q b hb => htraced.files q b (Disk.file_remove hb), htraced.workingDirectory⟩

/-- The event ends a render of this fingerprint with this image. -/
inductive Returns (s : Session) : Event → Answer → String → Rendered → Prop where
  | start {n : Nat} {spec : Spec} {root : Path} (r : Rendered) :
      Returns s (.step (.start spec root)) (.started n (.done (.ok r))) spec.fingerprint r
  | dispatched {e : Event} {n i : Nat} {ended : List (Nat × RenderResult)} {f : String}
      {w : Option PendingRender} (r : Rendered) (hi : s.renders[i]? = some (f, w))
      (he : (i, .ok r) ∈ ended) : Returns s e (.dispatched n ended) f r
  | renderAll {specs : List Spec} {root : Path} {reply : String → Option Outcome}
      {results : List (Option RenderResult)} {submitted : List String} {i : Nat} {spec : Spec}
      (r : Rendered) (hi : specs[i]? = some spec) (hr : results[i]? = some (some (.ok r))) :
      Returns s (.step (.renderAll specs root reply)) (.rendered results submitted)
        spec.fingerprint r

/-- The root of the requests of an event. -/
def Event.root? : Event → Option Path
  | .step (.start _ root) => some root
  | .step (.renderAll _ root _) => some root
  | _ => none

/-- The image comes from the renderer now, or it was kept, or the host has put it into the file of
the entry. -/
inductive From (cache : CacheService) (origin : String) (d₀ : Disk) (H : History) (d : Disk)
    (e : Event) (a : Answer) (f : String) : Rendered → Prop where
  | renderer {image : Bytes} {warning : Option CacheError}
      (h : Resolved origin (H ++ [(e, some a)]) f (.success image)) :
      From cache origin d₀ H d e a f ⟨image, .renderer, warning⟩
  | cache {image : Bytes} (h : Resolved origin H f (.success image)) :
      From cache origin d₀ H d e a f ⟨image, .cache, none⟩
  | host {image : Bytes} {root path : Path} {q : Place} (hroot : e.root? = some root)
      (htarget : (cache.storeFor root).target f = .file path)
      (hfile : d.resolve path = .ok (q, .file image)) (h : Hosted d₀ H q image) :
      From cache origin d₀ H d e a f ⟨image, .cache, none⟩

theorem Sourced.from_begins (h : Sourced cache origin d₀ H s d) {spec : Spec} {root : Path}
    {r : Rendered} {a : Answer} (hroot : e.root? = some root)
    (hb : Begins s.coordinator d root spec (.done (.ok r))) :
    From cache origin d₀ H d e a spec.fingerprint r := by
  rcases hb with ⟨image, hf, hr⟩ | ⟨-, err, hr⟩
  · obtain rfl := Except.ok.inj hr
    rcases h.traced.found hf with hP | ⟨path, q, htarget, hfile, hF⟩
    · exact .cache hP
    · exact .host hroot htarget hfile hF
  · simp at hr

/-- Who ends got its outcome from the event or before it. -/
theorem Accounted.from_finished {P : String → Outcome → Prop} (h : Accounted P s d)
    {c c' : Coordinator} {due : String → PendingRender → Bool}
    {renders : List (String × Option PendingRender)} {ended : List (Nat × RenderResult)}
    {a : Answer} (hfin : Finished due [] s.renders.zipIdx c d c' renders ended d')
    (hv : Vouched (Resolved origin (H ++ [(e, some a)])) ⟨c, s.inFlight, d⟩) {i : Nat}
    {w : Option PendingRender} {r : Rendered} (hi : s.renders[i]? = some (f, w))
    (hmem : (i, .ok r) ∈ ended) : From cache origin d₀ H d e a f r := by
  obtain ⟨⟨⟨g, w⟩, j⟩, hx, rfl, p, o, rfl, ho, hset⟩ := exists_of_mem_forall₂ hfin.ended hmem
  have hj := List.mk_mem_zipIdx_iff_getElem?.1 (List.mem_filter.1 hx).1
  rw [hi, Option.some.injEq, Prod.mk.injEq] at hj
  obtain ⟨rfl, rfl⟩ := hj
  have hp := List.mem_of_getElem? hi
  have hP := hv p (inFlight_of_mem hp) o ho
  rw [h.key _ p hp] at hP
  obtain ⟨image, source, warning⟩ := r
  obtain ⟨rfl, rfl⟩ := hset.ok
  exact .renderer hP

theorem Sourced.from_returns (h : Sourced cache origin d₀ H s d) {a : Answer} {r : Rendered}
    (he : Happens s d e s' (some a) d') (hret : Returns s e a f r) :
    From cache origin d₀ H d e a f r := by
  have hacc := h.recorded.accounted
  cases hret with
  | start =>
    cases he with
    | start spec root hs => exact h.from_begins rfl (start_spec hs).2.2.2.2
  | dispatched r hi hmem =>
    cases he with
    | dispatch c hs | deliver c hs =>
      obtain ⟨-, -, ⟨-, -, rfl⟩ | ⟨-, hfin⟩⟩ := dispatch_spec hs hacc.routed
      · simp at hmem
      · exact hacc.from_finished hfin (h.vouched_dispatch rfl hs) hi hmem
    | poll g hs =>
      exact hacc.from_finished (poll_spec hs hacc.routed).2
        (hacc.vouched.imp fun f o ho => .inr (Replied.append ho _)) hi hmem
  | renderAll r hi hres =>
    cases he with
    | renderAll specs root reply hs =>
      obtain ⟨c, batch, hb⟩ := renderAll_spec hs hacc.routed
      obtain ⟨st, hst, hbegin⟩ := exists_getElem?_of_forall₂ hb.begins hi
      obtain ⟨a, ha, hans⟩ := exists_getElem?_of_forall₂ hb.answers hst
      obtain rfl := Option.some.inj (ha.symm.trans hres)
      rcases st with result | ⟨p, request⟩
      · obtain rfl := Option.some.inj hans
        exact h.from_begins rfl hbegin
      · obtain ⟨-, hno⟩ | ⟨o, result, ho, hres, hset⟩ := hans
        · simp at hno
        · obtain rfl := Option.some.inj hres
          have hp : p ∈ s.inFlight ++ batch.filterMap render? :=
            List.mem_append_right _ (List.mem_filterMap.2 ⟨_, List.mem_of_getElem? hst, rfl⟩)
          have hP := h.vouched_renderAll hb p hp o ho
          rw [hbegin.2.2] at hP
          obtain ⟨image, source, warning⟩ := r
          obtain ⟨rfl, rfl⟩ := hset.ok
          exact .renderer hP

/-- Of every run and every next event.  An image that the event returns was delivered for its
fingerprint, or the host has put it where the entry is looked up (`From`).  An image in memory was
delivered for its fingerprint, and a file is what the host has put there or holds an image that was
delivered for the entry whose name it bears.  Each reply to a batch that counts as delivered ends
a render of the batch.  A completion from another origin changes nothing. -/
theorem images_come_from_completions (cache : CacheService) (origin : String) (d₀ : Disk)
    (events : List Event) (e : Event) :
    let r := ((new cache origin).run events).run d₀
    let s := r.1.1
    let H := events.zip r.1.2
    let t := (s.handle e).run r.2
    (∀ a f rendered, t.1.2 = some a → Returns s e a f rendered →
        From cache origin d₀ H r.2 e a f rendered)
      ∧ (∀ f b, s.coordinator.images.lookup f = some b → Resolved origin H f (.success b))
      ∧ (∀ q b, r.2.entryAt? q = some (.file b) →
          Hosted d₀ H q b ∨ cache.Files (Resolved origin H) q b)
      ∧ (∀ specs root reply results submitted, e = .step (.renderAll specs root reply) →
          t.1.2 = some (.rendered results submitted) → ∀ f ∈ submitted, ∀ o, reply f = some o →
            ∃ (i : Nat) (spec : Spec) (result : RenderResult), specs[i]? = some spec
              ∧ spec.fingerprint = f ∧ results[i]? = some (some result) ∧ o.Settles f result)
      ∧ ∀ c, e.completion? = some c → c.origin ≠ origin →
          t = ((s, some (.dispatched 0 [])), r.2) := by
  intro r s H t
  have h : Sourced cache origin d₀ H s r.2 := run_keep (fun he h => h.handle he) events rfl
    (sourced_new cache origin d₀)
  have ht : Happens s r.2 e t.1.1 t.1.2 t.2 := happens_of_handle rfl
  refine ⟨fun a f rendered ha hret => ?_, h.traced.images, h.traced.files, ?_, ?_⟩
  · exact h.from_returns (ha ▸ ht) hret
  · rintro specs root reply results submitted rfl ha f hf o ho
    rw [ha] at ht
    cases ht with
    | renderAll specs root reply hs =>
      obtain ⟨c, batch, hb⟩ := renderAll_spec hs h.recorded.accounted.routed
      exact hb.resolves h.recorded.accounted.routed hf ho
  · intro c he hc
    have hrouter : s.coordinator.router.dispatch c = (s.coordinator.router, 0) := by
      rw [Router.dispatch, if_neg (h.recorded.trusted ▸ hc)]
    exact handle_of_dispatch_eq he fun late => by
      simp only [Session.dispatch, hrouter]
      rfl

/-- A batch of one, whose image comes from the reply. -/
theorem images_come_from_completions_one :
    let spec := Spec.ofContent [] .default
    let cache : CacheService := ⟨⟨true, .memory, none⟩, "", ⟨"/tmp"⟩⟩
    let batch := Event.step (.renderAll [spec] ⟨"/"⟩ fun _ => some (.success [137]))
    ∃ results r, (((new cache "a").handle batch).run ⟨[], []⟩).1.2
        = some (.rendered results [spec.fingerprint])
      ∧ results[0]? = some (some (.ok r))
      ∧ From cache "a" ⟨[], []⟩ [] ⟨[], []⟩ batch (.rendered results [spec.fingerprint])
          spec.fingerprint r := by
  intro spec cache batch
  obtain ⟨hfrom, -, -, hresolves, -⟩ := images_come_from_completions cache "a" ⟨[], []⟩ [] batch
  obtain ⟨i, spec', result, hi, -, hres, warning, rfl⟩ := hresolves [spec] ⟨"/"⟩ _ _
    [spec.fingerprint] rfl rfl spec.fingerprint (List.mem_singleton_self _) (.success [137]) rfl
  obtain rfl : i = 0 := Nat.lt_one_iff.1 (List.getElem?_eq_some_iff.1 hi).1
  exact ⟨_, _, rfl, hres, hfrom _ _ _ rfl (.renderAll _ rfl hres)⟩

end Session

end GraphBlock
