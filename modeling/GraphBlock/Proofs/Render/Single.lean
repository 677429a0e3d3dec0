import GraphBlock.Proofs.Render.Alike
import GraphBlock.Proofs.Render.Endings

/-!
# Specs rendered one after the other

A session is idle if no render is in flight and nobody waits (`Idle`).  Between two specs that are
rendered one after the other it is idle again, so each of them gets its image from what is held by
then or else from the reply to its request (`serve_answer`, `serveAll_inTurn`).  Where nothing can
be read at the start, what is held is what was replied (`Truthful`), and so the images and errors
of the whole row are the replies, whatever the cache (`verdicts_independent_of_cache`).
-/

namespace GraphBlock

open Disk

namespace Session

open Stage

variable {s s' : Session} {d d' : Disk} {reply : String → Outcome} {P : String → Outcome → Prop}
  {m : Type → Type} [Monad m] [FileSystem m]

/-- The channel is open, no render is in flight, nobody waits, and nothing is left to hand out. -/
structure Idle (s : Session) : Prop where
  channelOpen : s.channelOpen = true
  vacant : ∀ x ∈ s.renders, x.2 = none
  waiting : s.coordinator.router.waiting = []
  delivered : s.coordinator.router.delivered = []

theorem inFlight_eq_nil (h : ∀ x ∈ s.renders, x.2 = none) : s.inFlight = [] :=
  List.filterMap_eq_nil_iff.2 h

/-- A session that got where it is step by step is idle as soon as no render is in flight. -/
theorem Accounted.idle (h : Accounted P s d) (hopen : s.channelOpen = true)
    (hv : ∀ x ∈ s.renders, x.2 = none) : Idle s := by
  have hs := h.routed.serves
  rw [stage, inFlight_eq_nil hv] at hs
  obtain ⟨hw, hd⟩ := Router.serves_nil_iff.1 hs
  exact ⟨hopen, hv, hw, hd⟩

theorem Idle.accounted (h : Idle s) (d : Disk) : Accounted P s d := by
  have hnil := inFlight_eq_nil h.vacant
  refine ⟨⟨?_, fun p hp => ?_⟩, fun p hp => ?_, fun f p hp => ?_⟩
  · rw [stage, hnil]
    exact Router.serves_nil_iff.2 ⟨h.waiting, h.delivered⟩
  · rw [stage, hnil] at hp
    simp at hp
  · rw [stage, hnil] at hp
    simp at hp
  · simpa using h.vacant _ hp

theorem idle_new (cache : CacheService) (origin : String) : Idle (new cache origin) :=
  ⟨rfl, fun _ h => absurd h List.not_mem_nil, rfl, rfl⟩

/-- Renders a spec and answers its request, if it submits one, at once and from the trusted origin
with the reply to its fingerprint. -/
def serve (s : Session) (spec : Spec) (root : Path) (reply : String → Outcome) :
    m (Session × Option RenderResult) := do
  let (s', started) ← s.start spec root
  match started with
  | .done result => return (s', some result)
  | .waiting _ request =>
    let (s'', _, ended) ← s'.dispatch
      ⟨s'.coordinator.router.origin, request.fingerprint, reply request.fingerprint⟩
    return (s'', ended.lookup s.renders.length)

/-- Renders specs one after the other, each below its root. -/
def serveAll (s : Session) (reply : String → Outcome) :
    List (Spec × Path) → m (Session × List (Option RenderResult))
  | [] => return (s, [])
  | (spec, root) :: rest => do
    let (s, r) ← s.serve spec root reply
    let (s, rs) ← serveAll s reply rest
    return (s, r :: rs)

theorem slots_append_single (hv : ∀ x ∈ s.renders, x.2 = none) (f : String) (p : PendingRender)
    (hs' : s'.renders = s.renders ++ [(f, some p)]) :
    s'.slots f = [(s.renders.length, p.store)] := by
  have hnil : slotsOf f s.renders.zipIdx = [] := by
    refine List.filterMap_eq_nil_iff.2 fun x hx => ?_
    have hnone := hv _ (List.mem_of_getElem? (List.mk_mem_zipIdx_iff_getElem?.1 hx))
    simp only [hnone, Option.map_none, ite_self]
  rw [slots, hs', List.zipIdx_append, slotsOf, List.filterMap_append, ← slotsOf, hnil]
  simp

theorem serve_answer (h : Idle s) {spec : Spec} {root : Path} {r : Option RenderResult}
    (hs : (s.serve spec root reply : StateM Disk _).run d = ((s', r), d')) :
    Idle s' ∧ s'.coordinator.cache = s.coordinator.cache
      ∧ (r, s'.coordinator.images, d') = Prod.map some id
        (answer (s.coordinator.store? root) reply (s.coordinator.images, d)
          (s.coordinator.images, d) spec.fingerprint) := by
  obtain ⟨⟨s₁, st⟩, d₁, hstart, hs⟩ := run_bind_eq.1 hs
  have hacc : Unanswered s₁ d₁ := (h.accounted d).start hstart
  obtain ⟨-, hrenders, hi, rfl, -⟩ := start_spec hstart
  obtain ⟨hopens, hcache, hopen⟩ := start_opens h.channelOpen hstart
  rw [← hi]
  rcases hopens with ⟨b, hf, rfl⟩ | ⟨hf, p, rfl, hkey, hstore⟩
  · cases hs
    refine ⟨hacc.idle hopen fun x hx => ?_, hcache, ?_⟩
    · rw [hrenders] at hx
      rcases List.mem_append.1 hx with hx | hx
      · exact h.vacant x hx
      · rw [List.mem_singleton.1 hx]
        rfl
    · rw [answer, hi, hf]
      rfl
  · obtain ⟨⟨s₂, n, ended⟩, d₂, hd, hs⟩ := run_bind_eq.1 hs
    cases hs
    obtain ⟨-, hends, hrenders', hopen'⟩ := hacc.dispatch_endings hd
    obtain ⟨-, hm, -⟩ := dispatch_spec hd hacc.routed
    refine ⟨(hacc.dispatch hd).idle (hopen'.trans hopen) fun x hx => ?_, hm.cache.trans hcache, ?_⟩
    · rw [hrenders', hrenders, List.mem_map] at hx
      obtain ⟨y, hy, rfl⟩ := hx
      split_ifs with hyf
      · rfl
      · rcases List.mem_append.1 hy with hy | hy
        · exact h.vacant y hy
        · rw [List.mem_singleton.1 hy] at hyf
          exact absurd rfl hyf
    · have hslots := slots_append_single h.vacant spec.fingerprint p hrenders
      rw [show spec.request.fingerprint = spec.fingerprint from rfl, hslots, hstore] at hends
      obtain ⟨rfl, hk⟩ := Prod.mk.inj hends
      rw [answer, hi, hf, hk, hi]
      simp only [Outcome.endings, List.lookup_cons_self, Prod.map, id]

/-- The answers to specs that are rendered one after the other: each looks at what is held when its
turn comes. -/
def inTurn (cache : CacheService) (reply : String → Outcome) :
    List (Spec × Path) → Holdings → List RenderResult × Holdings
  | [], k => ([], k)
  | (spec, root) :: rest, k =>
    let a := answer (cache.store? root) reply k k spec.fingerprint
    let t := inTurn cache reply rest a.2
    (a.1 :: t.1, t.2)

theorem serveAll_inTurn : ∀ {requests : List (Spec × Path)} {s s' : Session} {d d' : Disk}
    {results : List (Option RenderResult)}, Idle s →
    (s.serveAll reply requests : StateM Disk _).run d = ((s', results), d') →
      (results, s'.coordinator.images, d') = Prod.map (List.map some) id
        (inTurn s.coordinator.cache reply requests (s.coordinator.images, d))
  | [], s, s', d, d', results, _, hs => by
    cases hs
    rfl
  | (spec, root) :: rest, s, s', d, d', results, h, hs => by
    obtain ⟨⟨s₁, r⟩, d₁, h₁, hs⟩ := run_bind_eq.1 hs
    obtain ⟨⟨s₂, rs⟩, d₂, h₂, hs⟩ := run_bind_eq.1 hs
    cases hs
    obtain ⟨hidle, hcache, hr⟩ := serve_answer h h₁
    have ih := serveAll_inTurn hidle h₂
    obtain ⟨rfl, hk⟩ := Prod.mk.inj hr
    rw [hk, hcache] at ih
    rw [inTurn]
    exact congrArg (fun t => (some _ :: t.1, t.2)) ih

section Transparency

/-- What a render gives, without where the image comes from and whether it could be kept. -/
def verdict : RenderResult → Except RenderError Bytes :=
  Except.map Rendered.image

/-- What a reply gives a spec of this fingerprint. -/
def replied (f : String) : Outcome → Except RenderError Bytes
  | .success b => .ok b
  | .failure message => .error (.renderFailed f message)

/-- What specs give that are rendered one after the other with a new cache on this disk. -/
def verdicts (cache : CacheService) (origin : String) (d : Disk) (reply : String → Outcome)
    (requests : List (Spec × Path)) : List (Option (Except RenderError Bytes)) :=
  ((new cache origin).serveAll reply requests : StateM Disk _).run d |>.1.2.map (Option.map verdict)

/-- No file in which an image of one of the requests would be kept can be read. -/
def Unread (cache : CacheService) (d : Disk) (requests : List (Spec × Path)) : Prop :=
  cache.settings.enabled = true → ∀ r ∈ requests, ∀ path,
    (cache.storeFor r.2).target r.1.fingerprint = .file path → ∀ b, d.read path ≠ .ok b

/-- What is held for one of the requests is what its fingerprint is replied. -/
def Truthful (cache : CacheService) (reply : String → Outcome) (requests : List (Spec × Path))
    (k : Holdings) : Prop :=
  ∀ r ∈ requests, ∀ b, CacheStore.found? (cache.store? r.2) k.1 k.2 r.1.fingerprint = some b →
    reply r.1.fingerprint = .success b

/-- Where there are no files, nothing can be read. -/
theorem unread_of_no_file {cache : CacheService} {requests : List (Spec × Path)}
    (h : ∀ q b, d.entryAt? q ≠ some (.file b)) : Unread cache d requests := by
  intro _ r _ path _ b hb
  obtain ⟨q, hq⟩ := Disk.read_eq_ok_iff.1 hb
  exact h q b (resolve_ok hq).2

theorem truthful_of_unread {cache : CacheService} {requests : List (Spec × Path)}
    (h : Unread cache d requests) : Truthful cache reply requests (.empty, d) := by
  rintro ⟨spec, root⟩ hr b hb
  rcases hstore : cache.store? root with _ | (_ | dir) <;> simp only [hstore] at hb
  · simp [CacheStore.found?] at hb
  · simp [CacheStore.found?] at hb
  · obtain ⟨⟨q, b'⟩, hfile, rfl⟩ := Option.map_eq_some_iff.1 hb
    rw [CacheService.store?] at hstore
    split_ifs at hstore with hon
    have htarget : (cache.storeFor root).target spec.fingerprint
        = .file (dir.pathFor spec.fingerprint) := by
      rw [Option.some.inj hstore]
      rfl
    exact absurd (Disk.read_eq_ok_iff.2 ⟨q, DirectoryCache.file?_eq_some.1 hfile⟩)
      (h hon _ hr _ htarget b')

variable {cache : CacheService} {requests : List (Spec × Path)} {k : Holdings} {spec : Spec}
  {root : Path}

/-- An answer is truthful, and so is what is held after it. -/
theorem Truthful.answer (h : Truthful cache reply requests k) (hr : (spec, root) ∈ requests) :
    let a := answer (cache.store? root) reply k k spec.fingerprint
    verdict a.1 = replied spec.fingerprint (reply spec.fingerprint)
      ∧ Truthful cache reply requests a.2 := by
  rw [Session.answer]
  rcases hf : CacheStore.found? (cache.store? root) k.1 k.2 spec.fingerprint with _ | b
  · refine ⟨?_, fun r hr' b hb => ?_⟩
    · dsimp only
      cases reply spec.fingerprint <;> rfl
    · rcases Outcome.found?_of_filled r.1.slash_not_mem_fingerprint
        spec.slash_not_mem_fingerprint hb with hb | ⟨hfg, ho⟩
      · exact h r hr' b hb
      · rwa [hfg]
  · refine ⟨?_, h⟩
    rw [h _ hr b hf]
    rfl

theorem Truthful.inTurn : ∀ {rest : List (Spec × Path)} {k : Holdings},
    Truthful cache reply requests k → rest ⊆ requests →
      (inTurn cache reply rest k).1.map verdict
        = rest.map fun r => replied r.1.fingerprint (reply r.1.fingerprint)
  | [], _, _, _ => rfl
  | (spec, root) :: rest, k, h, hsub => by
    obtain ⟨hv, hk⟩ := h.answer (hsub List.mem_cons_self)
    have ih := hk.inTurn fun r hr => hsub (List.mem_cons_of_mem _ hr)
    rw [Session.inTurn, List.map_cons, List.map_cons, hv, ih]

theorem verdicts_eq_replies (reply : String → Outcome) (origin : String)
    (h : Unread cache d requests) :
    verdicts cache origin d reply requests
      = requests.map fun r => some (replied r.1.fingerprint (reply r.1.fingerprint)) := by
  rcases hs : ((new cache origin).serveAll reply requests : StateM Disk _).run d
    with ⟨⟨s', results⟩, d'⟩
  obtain ⟨rfl, -⟩ := Prod.mk.inj (serveAll_inTurn (idle_new cache origin) hs)
  have htruthful : Truthful cache reply requests (.empty, d) := truthful_of_unread h
  have hv := htruthful.inTurn (List.Subset.refl requests)
  rw [verdicts, hs]
  exact (map_some_map _).trans ((congrArg (List.map some) hv).trans List.map_map)

/-- Two caches, on two disks where no image of the requests can be read at the start, give the same
images and the same errors for the same replies: those that were replied. -/
theorem verdicts_independent_of_cache (reply : String → Outcome) (origin : String)
    (requests : List (Spec × Path)) (cache cache' : CacheService) (d d' : Disk)
    (h : Unread cache d requests) (h' : Unread cache' d' requests) :
    verdicts cache origin d reply requests = verdicts cache' origin d' reply requests
      ∧ verdicts cache origin d reply requests
        = requests.map fun r => some (replied r.1.fingerprint (reply r.1.fingerprint)) := by
  have heq := verdicts_eq_replies reply origin h
  exact ⟨heq.trans (verdicts_eq_replies reply origin h').symm, heq⟩

/-- The second of two equal specs comes from the file of the first, or from the renderer. -/
theorem verdicts_independent_of_cache_twice :
    let spec := Spec.ofContent [] .default
    let requests := [(spec, ⟨"/"⟩), (spec, ⟨"/"⟩)]
    let kept : CacheService := ⟨⟨true, .filesystem, some ⟨"/c"⟩⟩, "", ⟨"/tmp"⟩⟩
    let unkept : CacheService := ⟨⟨false, .memory, none⟩, "", ⟨"/tmp"⟩⟩
    let d : Disk := ⟨[([['c']], .directory)], []⟩
    Unread kept d requests ∧ Unread unkept ⟨[], []⟩ requests
      ∧ verdicts kept "a" d (fun _ => .success [137]) requests
        = verdicts unkept "a" ⟨[], []⟩ (fun _ => .success [137]) requests
      ∧ verdicts kept "a" d (fun _ => .success [137]) requests
        = [some (.ok [137]), some (.ok [137])] := by
  intro spec requests kept unkept d
  have hkept : Unread kept d requests := unread_of_no_file fun q b => by
    rw [entryAt?]
    split_ifs
    · simp
    · rw [List.find?_singleton]
      split <;> simp
  have hunkept : Unread unkept ⟨[], []⟩ requests := unread_of_no_file fun q b => by
    rw [entryAt?]
    split_ifs <;> simp
  exact ⟨hkept, hunkept, verdicts_independent_of_cache (fun _ => .success [137]) "a" requests kept
    unkept d ⟨[], []⟩ hkept hunkept⟩

end Transparency

end Session

end GraphBlock
