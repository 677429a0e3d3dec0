import GraphBlock.Proofs.Cache.EntryFile
import GraphBlock.Proofs.Render.Held
import GraphBlock.Render.Session
import Mathlib.Logic.Relation

/-!
# What a session does, move by move

A stage is a coordinator with the renders in flight and the disk.  Whatever a session does between
two deliveries is a row of moves (`Stage.Moves`): a render is enlisted or refused after a miss, one
whose outcome is there ends, one without an outcome is given up.  `startAll_moves`,
`finishAll_moves` and `endAll_moves` take the loops of a session apart into moves and say what they
answer, so that an invariant needs a lemma for each move and none for each loop.
-/

namespace GraphBlock

/-- The result of a render with this outcome. -/
def Outcome.Settles (fingerprint : String) : Outcome → RenderResult → Prop
  | .failure message, r => r = .error (.renderFailed fingerprint message)
  | .success image, r => ∃ warning, r = .ok ⟨image, .renderer, warning⟩

/-- The image that a lookup finds. -/
def CacheStore.found? (store : Option CacheStore) (images : MemoryCache) (d : Disk)
    (fingerprint : String) : Option Bytes :=
  match store with
  | none => none
  | some .memory => images.lookup fingerprint
  | some (.directory c) => (c.file? d fingerprint).map Prod.snd

/-- What becomes of the images in memory and of the disk when a render ends with an outcome.  A
store into a directory may fail. -/
inductive Kept (p : PendingRender) : Outcome → MemoryCache × Disk → MemoryCache × Disk → Prop where
  | failed (message : String) (k : MemoryCache × Disk) : Kept p (.failure message) k k
  | uncached {b : Bytes} (k : MemoryCache × Disk) (h : p.store = none) : Kept p (.success b) k k
  | inMemory {b : Bytes} (images : MemoryCache) (d : Disk) (h : p.store = some .memory) :
      Kept p (.success b) (images, d) (images.insert p.fingerprint b, d)
  | unwritten {b : Bytes} {c : DirectoryCache} (k : MemoryCache × Disk)
      (h : p.store = some (.directory c)) : Kept p (.success b) k k
  | written {b : Bytes} {c : DirectoryCache} {q : Place} (images : MemoryCache) (d : Disk)
      (h : p.store = some (.directory c)) (hq : d.writable (c.pathFor p.fingerprint) = .ok q) :
      Kept p (.success b) (images, d) (images, d.set q (.file b))

structure Stage where
  coordinator : Coordinator
  renders : List PendingRender
  disk : Disk

namespace Stage

/-- One thing done for one render. -/
inductive Move : Stage → Stage → Prop where
  | enlist (c : Coordinator) (ps : List PendingRender) (d : Disk) (spec : Spec) (root : Path)
      (h : CacheStore.found? (c.store? root) c.images d spec.fingerprint = none) :
      Move ⟨c, ps, d⟩ ⟨{ c with router := (c.router.register spec.fingerprint).1 },
        ps ++ [⟨spec.fingerprint, c.store? root, (c.router.register spec.fingerprint).2⟩], d⟩
  | refuse (c : Coordinator) (ps : List PendingRender) (d : Disk) (fingerprint : String) :
      Move ⟨c, ps, d⟩ ⟨{ c with router := ((c.router.register fingerprint).1.release
        (c.router.register fingerprint).2) }, ps, d⟩
  | finish {c : Coordinator} {p : PendingRender} {d d' : Disk} {o : Outcome}
      {images : MemoryCache} (as bs : List PendingRender)
      (ho : c.router.outcome? p.listener = some o) (hk : Kept p o (c.images, d) (images, d')) :
      Move ⟨c, as ++ p :: bs, d⟩
        ⟨{ c with router := c.router.release p.listener, images := images }, as ++ bs, d'⟩
  | giveUp {c : Coordinator} {p : PendingRender} (as bs : List PendingRender) (d : Disk)
      (h : c.router.outcome? p.listener = none) :
      Move ⟨c, as ++ p :: bs, d⟩ ⟨c.abandon p, as ++ bs, d⟩

abbrev Moves : Stage → Stage → Prop := Relation.ReflTransGen Move

theorem Moves.keep {P : Stage → Prop} (hmove : ∀ {s t}, Move s t → P s → P t) {s t : Stage}
    (h : Moves s t) (hs : P s) : P t := by
  induction h with
  | refl => exact hs
  | tail _ ht ih => exact hmove ht ih

end Stage

namespace Coordinator

open Disk

variable {c c' : Coordinator} {d d' : Disk} {submit : PlotRequest → Except RenderError Unit}
  {spec : Spec} {root : Path} {p : PendingRender} {f : String}

theorem run_lookup? (c : Coordinator) (store : Option CacheStore) (f : String) (d : Disk) :
    (c.lookup? store f : StateM Disk _).run d = (CacheStore.found? store c.images d f, d) := by
  rcases store with _ | (_ | dir)
  · rfl
  · rfl
  · exact dir.run_lookup f d

/-- How a render begins: a hit ends it, and after a miss the renderer takes it or refuses. -/
theorem run_start {st : Started}
    (h : (c.start submit spec root : StateM Disk _).run d = ((c', st), d')) :
    d' = d ∧
      ((∃ image, CacheStore.found? (c.store? root) c.images d spec.fingerprint = some image
          ∧ c' = c ∧ st = .done (.ok ⟨image, .cache, none⟩))
        ∨ CacheStore.found? (c.store? root) c.images d spec.fingerprint = none
          ∧ ((submit spec.request = .ok ()
              ∧ c' = { c with router := (c.router.register spec.fingerprint).1 }
              ∧ st = .waiting ⟨spec.fingerprint, c.store? root,
                  (c.router.register spec.fingerprint).2⟩ spec.request)
            ∨ ∃ e, submit spec.request = .error e
              ∧ c' = { c with router := ((c.router.register spec.fingerprint).1.release
                  (c.router.register spec.fingerprint).2) }
              ∧ st = .done (.error e))) := by
  obtain ⟨found, d₁, hl, h⟩ := run_bind_eq.1 h
  rw [run_lookup?] at hl
  cases hl
  rcases hf : CacheStore.found? (c.store? root) c.images d spec.fingerprint with _ | image
  · rw [hf] at h
    simp only [request] at h
    rcases hs : submit spec.request with e | u <;> rw [hs] at h <;> cases h
    · exact ⟨rfl, .inr ⟨rfl, .inr ⟨e, rfl, rfl, rfl⟩⟩⟩
    · exact ⟨rfl, .inr ⟨rfl, .inl ⟨rfl, rfl, rfl⟩⟩⟩
  · rw [hf] at h
    cases h
    exact ⟨rfl, .inl ⟨image, rfl, rfl, rfl⟩⟩

theorem run_keep {w : Option CacheError} {b : Bytes}
    (h : (c.keep p.store p.fingerprint b : StateM Disk _).run d = ((c', w), d')) :
    ∃ images, c' = { c with images } ∧ Kept p (.success b) (c.images, d) (images, d') := by
  rcases hs : p.store with _ | (_ | dir) <;> rw [hs] at h
  · cases h
    exact ⟨c.images, rfl, .uncached _ hs⟩
  · cases h
    exact ⟨_, rfl, .inMemory _ _ hs⟩
  · obtain ⟨⟨images, r⟩, d₁, hstore, h⟩ := run_bind_eq.1 h
    obtain ⟨r', d₂, hdir, hstore⟩ := run_bind_eq.1 hstore
    cases hstore
    cases h
    rcases DirectoryCache.run_store hdir with rfl | ⟨q, hq, rfl⟩
    · exact ⟨c.images, rfl, .unwritten _ hs⟩
    · exact ⟨c.images, rfl, .written _ _ hs hq⟩

theorem run_finish {r : Option RenderResult}
    (h : (c.finish p : StateM Disk _).run d = ((c', r), d')) :
    (c.router.outcome? p.listener = none ∧ c' = c ∧ d' = d ∧ r = none)
      ∨ ∃ o result images, c.router.outcome? p.listener = some o ∧ r = some result
        ∧ o.Settles p.fingerprint result ∧ Kept p o (c.images, d) (images, d')
        ∧ c' = { c with router := c.router.release p.listener, images } := by
  rcases ho : c.router.outcome? p.listener with _ | o
  · simp only [finish, ho] at h
    cases h
    exact .inl ⟨rfl, rfl, rfl, rfl⟩
  · rcases o with b | message
    · simp only [finish, ho] at h
      obtain ⟨⟨c₁, w⟩, d₁, hk, h⟩ := run_bind_eq.1 h
      obtain ⟨images, rfl, hkept⟩ := run_keep hk
      cases h
      exact .inr ⟨_, _, images, rfl, rfl, ⟨w, rfl⟩, hkept, rfl⟩
    · simp only [finish, ho] at h
      cases h
      exact .inr ⟨_, _, c.images, rfl, rfl, rfl, .failed _ _, rfl⟩

end Coordinator

namespace Stage

variable {s t : Stage}

/-- The router serves the renders in flight, each with a listener of its own fingerprint. -/
structure Routed (s : Stage) : Prop where
  serves : s.coordinator.router.Serves (s.renders.map PendingRender.listener)
  key : ∀ p ∈ s.renders, p.listener.fingerprint = p.fingerprint

theorem Routed.perm {c : Coordinator} {ps qs : List PendingRender} {d : Disk}
    (h : Routed ⟨c, ps, d⟩) (hperm : ps.Perm qs) : Routed ⟨c, qs, d⟩ :=
  ⟨h.serves.perm (hperm.map _), fun p hp => h.key p (hperm.mem_iff.2 hp)⟩

theorem Routed.register {c : Coordinator} {ps : List PendingRender} {d : Disk}
    (h : Routed ⟨c, ps, d⟩) (f : String) (store : Option CacheStore) :
    Routed ⟨{ c with router := (c.router.register f).1 },
      ps ++ [⟨f, store, (c.router.register f).2⟩], d⟩ := by
  refine ⟨?_, fun p hp => ?_⟩
  · rw [List.map_append]
    exact h.serves.register f
  · rcases List.mem_append.1 hp with hp | hp
    · exact h.key p hp
    · obtain rfl := List.mem_singleton.1 hp
      rfl

theorem Routed.release {c : Coordinator} {as bs : List PendingRender} {p : PendingRender} {d : Disk}
    (h : Routed ⟨c, as ++ p :: bs, d⟩) (images : MemoryCache) (d' : Disk) :
    Routed ⟨{ c with router := c.router.release p.listener, images := images }, as ++ bs, d'⟩ := by
  have hs := h.serves
  rw [List.map_append, List.map_cons] at hs
  refine ⟨?_, fun q hq => h.key q (mem_middle hq)⟩
  rw [List.map_append]
  exact hs.release

theorem Routed.outcome?_release {c : Coordinator} {as bs : List PendingRender} {p q : PendingRender}
    {d : Disk} (h : Routed ⟨c, as ++ p :: bs, d⟩) (hq : q ∈ as ++ bs) :
    (c.router.release p.listener).outcome? q.listener = c.router.outcome? q.listener := by
  have hs := h.serves
  rw [List.map_append, List.map_cons] at hs
  refine hs.outcome?_release ?_
  rw [← List.map_append]
  exact List.mem_map_of_mem hq

theorem Move.routed (hm : Move s t) (h : s.Routed) : t.Routed := by
  cases hm with
  | enlist c ps d spec root hnone => exact h.register _ _
  | refuse c ps d f =>
    have hr := (h.register f none).release c.images d
    rwa [List.append_nil] at hr
  | finish as bs ho hk => exact h.release _ _
  | giveUp as bs d hnone => exact h.release _ _

end Stage

namespace Session

open Disk Stage

variable {d d' : Disk} {root : Path}

/-- How the render of a spec began, as the cache and the disk were. -/
def Begins (c : Coordinator) (d : Disk) (root : Path) (spec : Spec) : Started → Prop
  | .done r =>
    (∃ image, CacheStore.found? (c.store? root) c.images d spec.fingerprint = some image
        ∧ r = .ok ⟨image, .cache, none⟩)
      ∨ CacheStore.found? (c.store? root) c.images d spec.fingerprint = none ∧ ∃ e, r = .error e
  | .waiting p request =>
    CacheStore.found? (c.store? root) c.images d spec.fingerprint = none
      ∧ request = spec.request ∧ p.fingerprint = spec.fingerprint

def render? : Started → Option PendingRender
  | .done _ => none
  | .waiting p _ => some p

theorem start_moves {c c' : Coordinator} {submit : PlotRequest → Except RenderError Unit}
    {spec : Spec} {st : Started}
    (h : (c.start submit spec root : StateM Disk _).run d = ((c', st), d'))
    (ps : List PendingRender) :
    Moves ⟨c, ps, d⟩ ⟨c', ps ++ (render? st).toList, d'⟩ ∧ d' = d ∧ c'.images = c.images
      ∧ c'.cache = c.cache ∧ Begins c d root spec st := by
  obtain ⟨rfl, h⟩ := Coordinator.run_start h
  rcases h with ⟨image, hf, rfl, rfl⟩ | ⟨hf, ⟨-, rfl, rfl⟩ | ⟨e, -, rfl, rfl⟩⟩
  · rw [show (render? (.done (.ok ⟨image, .cache, none⟩))).toList = [] from rfl, List.append_nil]
    exact ⟨.refl, rfl, rfl, rfl, .inl ⟨image, hf, rfl⟩⟩
  · exact ⟨.single (.enlist c ps _ spec root hf), rfl, rfl, rfl, hf, rfl, rfl⟩
  · rw [show (render? (.done (.error e))).toList = [] from rfl, List.append_nil]
    exact ⟨.single (.refuse c ps _ _), rfl, rfl, rfl, .inr ⟨hf, e, rfl⟩⟩

theorem startAll_moves {s : Session} : ∀ (specs : List Spec) {c c' : Coordinator} {d d' : Disk}
    {batch : List Started} {asked : List String},
    (s.startAll c root (specs.map .queued) : StateM Disk _).run d = ((c', batch, asked), d') →
    ∀ ps, Moves ⟨c, ps, d⟩ ⟨c', ps ++ batch.filterMap render?, d'⟩ ∧ d' = d
      ∧ c'.images = c.images ∧ c'.cache = c.cache ∧ List.Forall₂ (Begins c d root) specs batch
      ∧ asked = submitted batch
  | [], c, c', d, d', batch, asked, h, ps => by
    cases h
    rw [List.filterMap_nil, List.append_nil]
    exact ⟨.refl, rfl, rfl, rfl, .nil, rfl⟩
  | spec :: specs, c, c', d, d', batch, asked, h, ps => by
    obtain ⟨⟨c₁, st, as⟩, d₁, h₁, h⟩ := run_bind_eq.1 h
    obtain ⟨⟨c₂, rest, bs⟩, d₂, h₂, h⟩ := run_bind_eq.1 h
    cases h
    obtain ⟨⟨c₁', st'⟩, d₁', h₁, h⟩ := run_bind_eq.1 h₁
    cases h
    obtain ⟨hm₁, rfl, hi₁, hc₁, hb⟩ := start_moves h₁ ps
    obtain ⟨hm₂, rfl, hi₂, hc₂, hbs, rfl⟩ := startAll_moves specs h₂ (ps ++ (render? st).toList)
    refine ⟨?_, rfl, hi₂.trans hi₁, hc₂.trans hc₁, .cons hb (hbs.imp fun spec st hst => ?_), ?_⟩
    · have happ : ps ++ (render? st).toList ++ rest.filterMap render?
          = ps ++ (st :: rest).filterMap render? := by
        rw [List.append_assoc, List.filterMap_cons]
        cases render? st <;> rfl
      rw [happ] at hm₂
      exact hm₁.trans hm₂
    · have hstore : c₁.store? root = c.store? root := by
        simp only [Coordinator.store?, hc₁]
      rcases st with r | ⟨p, request⟩ <;> simp only [Begins, hstore, hi₁] at hst ⊢ <;> exact hst
    · exact (List.filterMap_append (l := [st])).symm

/-- Whether a render that is due has its outcome. -/
def resolved (r : Router) (due : String → PendingRender → Bool)
    (x : String × Option PendingRender) : Bool :=
  x.2.any fun p => due x.1 p && (r.outcome? p.listener).isSome

/-- The slot of a render after those that are due ended. -/
def remaining (r : Router) (due : String → PendingRender → Bool)
    (x : String × Option PendingRender) : String × Option PendingRender :=
  (x.1, if resolved r due x then none else x.2)

/-- The end of a render, with its number. -/
def Ends (r : Router) (x : (String × Option PendingRender) × Nat) (e : Nat × RenderResult) : Prop :=
  x.2 = e.1 ∧ ∃ p o, x.1.2 = some p ∧ r.outcome? p.listener = some o ∧ o.Settles p.fingerprint e.2

/-- The renders that are due were run to their end: who had an outcome ended with it, and the others
are left as they were. -/
structure Finished (due : String → PendingRender → Bool) (ps : List PendingRender)
    (xs : List ((String × Option PendingRender) × Nat)) (c : Coordinator) (d : Disk)
    (c' : Coordinator) (renders : List (String × Option PendingRender))
    (ended : List (Nat × RenderResult)) (d' : Disk) : Prop where
  moves : Moves ⟨c, ps ++ xs.filterMap fun x => x.1.2, d⟩
    ⟨c', ps ++ renders.filterMap Prod.snd, d'⟩
  renders : renders = xs.map fun x => remaining c.router due x.1
  ended : List.Forall₂ (Ends c.router) (xs.filter fun x => resolved c.router due x.1) ended

section Finished

variable {due : String → PendingRender → Bool} {g : String} {ps : List PendingRender}
  {p : PendingRender} {i : Nat} {xs : List ((String × Option PendingRender) × Nat)}
  {c c' : Coordinator} {d d' : Disk} {renders : List (String × Option PendingRender)}
  {ended : List (Nat × RenderResult)}

theorem Finished.vacant (h : Finished due ps xs c d c' renders ended d') :
    Finished due ps (((g, none), i) :: xs) c d c' ((g, none) :: renders) ended d' := by
  obtain ⟨hm, rfl, he⟩ := h
  exact ⟨hm, rfl, he⟩

theorem Finished.skip (hno : resolved c.router due (g, some p) = false)
    (h : Finished due (ps ++ [p]) xs c d c' renders ended d') :
    Finished due ps (((g, some p), i) :: xs) c d c' ((g, some p) :: renders) ended d' := by
  obtain ⟨hm, rfl, he⟩ := h
  rw [List.append_assoc, List.append_assoc] at hm
  refine ⟨hm, ?_, ?_⟩
  · rw [List.map_cons, remaining, hno]
    rfl
  · rw [List.filter_cons_of_neg (by simp [hno])]
    exact he

theorem Finished.finish {o : Outcome} {result : RenderResult} {images : MemoryCache} {d₁ : Disk}
    (hr : Routed ⟨c, ps ++ p :: xs.filterMap fun x => x.1.2, d⟩) (hdue : due g p = true)
    (ho : c.router.outcome? p.listener = some o) (hset : o.Settles p.fingerprint result)
    (hk : Kept p o (c.images, d) (images, d₁))
    (h : Finished due ps xs { c with router := c.router.release p.listener, images := images } d₁
      c' renders ended d') :
    Finished due ps (((g, some p), i) :: xs) c d c' ((g, none) :: renders) ((i, result) :: ended)
      d' := by
  have hsame : ∀ x ∈ xs, resolved (c.router.release p.listener) due x.1
      = resolved c.router due x.1 := by
    rintro ⟨⟨g, q⟩, j⟩ hx
    rcases q with _ | q
    · rfl
    · have hq : q ∈ ps ++ xs.filterMap fun x => x.1.2 :=
        List.mem_append_right _ (List.mem_filterMap.2 ⟨_, hx, rfl⟩)
      simp only [resolved, Option.any_some, hr.outcome?_release hq]
  have hyes : resolved c.router due (g, some p) = true := by simp [resolved, hdue, ho]
  obtain ⟨hm, hrs, he⟩ := h
  refine ⟨.head (.finish ps _ ho hk) hm, ?_, ?_⟩
  · rw [List.map_cons, remaining, hyes, hrs]
    exact congrArg (_ :: ·) (List.map_congr_left fun x hx => by
      rw [remaining, remaining, hsame x hx])
  · rw [List.filter_cons_of_pos (by exact hyes)]
    rw [List.filter_congr fun x hx => hsame x hx] at he
    refine .cons ⟨rfl, p, o, rfl, ho, hset⟩ (he.imp ?_)
    rintro x e ⟨hi, q, o', hq, ho', hset'⟩
    exact ⟨hi, q, o', hq, Router.outcome?_of_release ho', hset'⟩

end Finished

theorem finishAll_moves (due : String → PendingRender → Bool) :
    ∀ (xs : List ((String × Option PendingRender) × Nat))
    {c c' : Coordinator} {d d' : Disk} {renders : List (String × Option PendingRender)}
    {ended : List (Nat × RenderResult)},
    (finishAll c due xs : StateM Disk _).run d = ((c', renders, ended), d') →
    ∀ ps, Routed ⟨c, ps ++ xs.filterMap fun x => x.1.2, d⟩ →
      Finished due ps xs c d c' renders ended d'
  | [], c, c', d, d', renders, ended, h, ps, _ => by
    cases h
    exact ⟨.refl, rfl, .nil⟩
  | ((g, none), i) :: xs, c, c', d, d', renders, ended, h, ps, hr => by
    obtain ⟨⟨c₁, rs, es⟩, d₁, h₁, h⟩ := run_bind_eq.1 h
    cases h
    exact (finishAll_moves due xs h₁ ps hr).vacant
  | ((g, some p), i) :: xs, c, c', d, d', renders, ended, h, ps, hr => by
    have hskip : Routed ⟨c, (ps ++ [p]) ++ xs.filterMap fun x => x.1.2, d⟩ := by
      rw [List.append_assoc]
      exact hr
    simp only [finishAll] at h
    split_ifs at h with hdue
    · obtain ⟨⟨c₁, r⟩, d₁, hfin, h⟩ := run_bind_eq.1 h
      rcases Coordinator.run_finish hfin with ⟨hnone, rfl, rfl, rfl⟩
        | ⟨o, result, images, ho, rfl, hset, hk, rfl⟩
      · obtain ⟨⟨c₂, rs, es⟩, d₂, h₁, h⟩ := run_bind_eq.1 h
        cases h
        exact (finishAll_moves due xs h₁ _ hskip).skip (by simp [resolved, hnone])
      · obtain ⟨⟨c₂, rs, es⟩, d₂, h₁, h⟩ := run_bind_eq.1 h
        cases h
        exact .finish hr hdue ho hset hk (finishAll_moves due xs h₁ ps (hr.release images d₁))
    · obtain ⟨⟨c₂, rs, es⟩, d₂, h₁, h⟩ := run_bind_eq.1 h
      cases h
      exact (finishAll_moves due xs h₁ _ hskip).skip (by simp [resolved, hdue])

/-- What a batch answers for a render. -/
def Answers (r : Router) : Started → Option RenderResult → Prop
  | .done result, a => a = some result
  | .waiting p _, a =>
    r.outcome? p.listener = none ∧ a = none
      ∨ ∃ o result, r.outcome? p.listener = some o ∧ a = some result
          ∧ o.Settles p.fingerprint result

theorem endAll_moves : ∀ (batch : List Started) {c c' : Coordinator} {d d' : Disk}
    {results : List (Option RenderResult)},
    (endAll c batch : StateM Disk _).run d = ((c', results), d') →
    ∀ ps, Routed ⟨c, ps ++ batch.filterMap render?, d⟩ →
      Moves ⟨c, ps ++ batch.filterMap render?, d⟩ ⟨c', ps, d'⟩
        ∧ List.Forall₂ (Answers c.router) batch results
  | [], c, c', d, d', results, h, ps, _ => by
    cases h
    rw [List.filterMap_nil, List.append_nil]
    exact ⟨.refl, .nil⟩
  | .done result :: batch, c, c', d, d', results, h, ps, hr => by
    obtain ⟨⟨c₁, rs⟩, d₁, h₁, h⟩ := run_bind_eq.1 h
    cases h
    obtain ⟨hm, ha⟩ := endAll_moves batch h₁ ps hr
    exact ⟨hm, .cons rfl ha⟩
  | .waiting p request :: batch, c, c', d, d', results, h, ps, hr => by
    have hsame : ∀ {as : List (Option RenderResult)},
        List.Forall₂ (Answers (c.router.release p.listener)) batch as →
        List.Forall₂ (Answers c.router) batch as := fun ha => by
      have hback : List.Forall₂ (flip (Answers (c.router.release p.listener))) _ batch := ha.flip
      refine (forall₂_imp_of_mem hback fun a st hst hanswer => ?_).flip
      rcases st with result | ⟨q, req⟩
      · exact hanswer
      · have hq : q ∈ ps ++ batch.filterMap render? :=
          List.mem_append_right _ (List.mem_filterMap.2 ⟨_, hst, rfl⟩)
        simp only [flip, Answers, hr.outcome?_release hq] at hanswer
        exact hanswer
    obtain ⟨⟨c₁, r⟩, d₁, hfin, h⟩ := run_bind_eq.1 h
    rcases Coordinator.run_finish hfin with ⟨hnone, rfl, rfl, rfl⟩
      | ⟨o, result, images, ho, rfl, hset, hk, rfl⟩
    · obtain ⟨⟨c₂, rs⟩, d₂, h₁, h⟩ := run_bind_eq.1 h
      cases h
      obtain ⟨hm, ha⟩ := endAll_moves batch h₁ ps (hr.release c₁.images _)
      exact ⟨.head (.giveUp ps _ _ hnone) hm, .cons (.inl ⟨hnone, rfl⟩) (hsame ha)⟩
    · obtain ⟨⟨c₂, rs⟩, d₂, h₁, h⟩ := run_bind_eq.1 h
      cases h
      obtain ⟨hm, ha⟩ := endAll_moves batch h₁ ps (hr.release images d₁)
      exact ⟨.head (.finish ps _ ho hk) hm,
        .cons (.inr ⟨o, result, ho, rfl, hset⟩) (hsame ha)⟩

end Session

end GraphBlock
