import GraphBlock.Proofs.Render.Alike
import GraphBlock.Proofs.Render.Endings

/-!
# What the end of renders leaves

Renders that end one after the other change what is held for their own fingerprint only
(`endDue_alike_of_ne`, `Session.renderAll_alike`), and errors change nothing (`endDue_failures`).
Each result is the one that the render's own outcome gives (`lookup_endDue`).  A completion that has
only the renders run on that it resolves ends those that were running, with its own outcome
(`Accounted.map_fst_due`, `Accounted.eq_of_mem_due`).
-/

namespace GraphBlock

open Disk

section Due

variable {cache : CacheService} {f g : String} {i : Nat} {store : Option CacheStore} {o : Outcome}

theorem map_fst_endDue (f : String) : ∀ (xs : List (Nat × Option CacheStore × Outcome))
    (k : Holdings), (endDue f xs k).1.map Prod.fst = xs.map Prod.fst
  | [], _ => rfl
  | (i, store, o) :: xs, k => congrArg (i :: ·) (map_fst_endDue f xs (o.filled f store k))

theorem lookup_endDue_of_not_mem {xs : List (Nat × Option CacheStore × Outcome)} (k : Holdings)
    (hi : i ∉ xs.map Prod.fst) : (endDue f xs k).1.lookup i = none := by
  refine List.lookup_eq_none_iff.2 fun e he => ?_
  have hmem : e.1 ∈ xs.map Prod.fst := map_fst_endDue f xs k ▸ List.mem_map_of_mem he
  have hne : i ≠ e.1 := fun h => hi (h ▸ hmem)
  simpa using hne

theorem lookup_endDue : ∀ {xs : List (Nat × Option CacheStore × Outcome)} (k : Holdings),
    (xs.map Prod.fst).Nodup → (i, store, o) ∈ xs →
      ∃ e, SameDirectories e k.2 ∧ (endDue f xs k).1.lookup i = some (o.result f store e)
  | (j, store', o') :: xs, k, hnodup, hi => by
    rw [List.map_cons, List.nodup_cons] at hnodup
    rcases List.mem_cons.1 hi with he | hi
    · cases he
      exact ⟨k.2, .refl k.2, List.lookup_cons_self⟩
    · have hne : (i == j) = false := by
        have hmem := List.mem_map_of_mem (f := Prod.fst) hi
        simpa using fun he : i = j => hnodup.1 (he ▸ hmem)
      obtain ⟨e, he, hl⟩ := lookup_endDue (o'.filled f store' k) hnodup.2 hi
      refine ⟨e, he.trans (o'.sameDirectories_filled f store' k), ?_⟩
      rw [endDue, List.lookup_cons, hne]
      exact hl

/-- Renders of another fingerprint that end make no difference. -/
theorem endDue_alike_of_ne (hf : '/' ∉ f.toList) (hne : f ≠ g) :
    ∀ (xs : List (Nat × Option CacheStore × Outcome)) (k : Holdings),
      (∀ x ∈ xs, '/' ∉ g.toList ∧ ∃ root, x.2.1 = cache.store? root) →
        cache.Alike f (endDue g xs k).2 k
  | [], k, _ => .refl cache f k
  | (i, store, o) :: xs, k, hxs => by
    obtain ⟨hg, root, rfl⟩ := hxs _ List.mem_cons_self
    have ih := endDue_alike_of_ne hf hne xs (o.filled g (cache.store? root) k)
      fun x hx => hxs x (List.mem_cons_of_mem _ hx)
    exact ih.trans (Outcome.filled_alike hf hg hne)

/-- Errors leave everything as it was. -/
theorem endDue_failures (f message : String) : ∀ (xs : List (Nat × Option CacheStore × Outcome))
    (k : Holdings), (∀ x ∈ xs, x.2.2 = .failure message) →
      endDue f xs k = (xs.map fun x => (x.1, .error (.renderFailed f message)), k)
  | [], _, _ => rfl
  | (i, store, o) :: xs, k, hxs => by
    obtain rfl : o = .failure message := hxs _ List.mem_cons_self
    have ih := endDue_failures f message xs k fun x hx => hxs x (List.mem_cons_of_mem _ hx)
    exact congrArg (fun t => ((i, .error (.renderFailed f message)) :: t.1, t.2)) ih

end Due

section Batch

variable {cache : CacheService} {f g : String} {root : Path}

/-- What is held after renders of a fingerprint ended with what was delivered for them, if anything
was. -/
def Outcome.filled? (f : String) (store : Option CacheStore) : Option Outcome → Holdings → Holdings
  | none, k => k
  | some o, k => o.filled f store k

theorem CacheService.Alike.filled? {k l : Holdings} (h : cache.Alike f k l) (root : Path)
    (o : Option Outcome) : cache.Alike f (Outcome.filled? f (cache.store? root) o k)
      (Outcome.filled? f (cache.store? root) o l) := by
  rcases o with _ | o
  · exact h
  · exact h.filled root o

/-- To keep an image twice is to keep it once. -/
theorem Outcome.filled_filled (f : String) (root : Path) (o : Outcome) (k : Holdings) :
    cache.Alike f (o.filled f (cache.store? root) (o.filled f (cache.store? root) k))
      (o.filled f (cache.store? root) k) := by
  rcases o with b | message
  · refine ⟨?_, fun q _ => ?_, CacheStore.sameDirectories_kept _ _ _ _⟩
    all_goals
      simp only [filled]
      rcases cache.store?_cases with hs | hs | hs
    · rw [hs]
      rfl
    · simp only [hs, CacheStore.kept, MemoryCache.lookup_insert, if_true]
    · obtain ⟨dir, hdir⟩ := hs root
      rw [hdir]
      rfl
    · rw [hs]
      rfl
    · rw [hs]
      rfl
    · obtain ⟨dir, hdir⟩ := hs root
      simp only [hdir, CacheStore.kept, DirectoryCache.entryAt?_written,
        DirectoryCache.place_eq_ok_iff DirectoryCache.sameDirectories_written]
      split_ifs <;> rfl
  · exact .refl cache f k

namespace Session

open Stage

variable {s s' : Session} {d d' : Disk}

/-- A further reply in a batch makes no difference to what is held for a fingerprint, unless it is
the first one to it. -/
theorem filled?_replyTo_cons (cache : CacheService) (hg : '/' ∉ g.toList) (hf : '/' ∉ f.toList)
    (root : Path) (reply : String → Option Outcome) (fs : List String) (k : Holdings) :
    cache.Alike g
      (Outcome.filled? g (cache.store? root) (replyTo reply fs g)
        (Outcome.filled? f (cache.store? root) (reply f) k))
      (Outcome.filled? g (cache.store? root) (replyTo reply (f :: fs) g) k) := by
  by_cases hfg : f = g
  · subst hfg
    have hcons : replyTo reply (f :: fs) f = reply f := if_pos List.mem_cons_self
    rw [hcons, replyTo]
    rcases reply f with _ | o
    · rw [ite_self]
      exact .refl cache f _
    · split_ifs
      · exact o.filled_filled f root k
      · exact .refl cache f _
  · have hcons : replyTo reply (f :: fs) g = replyTo reply fs g := by
      simp [replyTo, Ne.symm hfg]
    rw [hcons]
    rcases reply f with _ | o
    · exact .refl cache g _
    · exact (Outcome.filled_alike hg hf (Ne.symm hfg)).filled? root _

/-- Of a batch that ends, what the other renders leave makes no difference to what is held for a
fingerprint, and all renders of it leave the same. -/
theorem endAll_alike (hg : '/' ∉ g.toList) {reply : String → Option Outcome} :
    ∀ (batch : List Started) {c c' : Coordinator} {d d' : Disk}
      {results : List (Option RenderResult)},
    (endAll c batch : StateM Disk _).run d = ((c', results), d') →
    ∀ ps, Routed ⟨c, ps ++ batch.filterMap render?, d⟩ →
      (∀ p ∈ batch.filterMap render?, '/' ∉ p.fingerprint.toList ∧ p.store = cache.store? root
        ∧ c.router.outcome? p.listener = reply p.fingerprint) →
      cache.Alike g (c'.images, d') (Outcome.filled? g (cache.store? root)
        (replyTo reply ((batch.filterMap render?).map PendingRender.fingerprint) g) (c.images, d))
  | [], c, c', d, d', results, h, ps, _, _ => by
    cases h
    exact .refl cache g _
  | .done result :: batch, c, c', d, d', results, h, ps, hr, hps => by
    obtain ⟨⟨c₁, rs⟩, d₁, h₁, h⟩ := run_bind_eq.1 h
    cases h
    exact endAll_alike hg batch h₁ ps hr hps
  | .waiting p request :: batch, c, c', d, d', results, h, ps, hr, hps => by
    obtain ⟨hslash, hstore, hout⟩ := hps p List.mem_cons_self
    have hrest : ∀ q ∈ batch.filterMap render?, '/' ∉ q.fingerprint.toList
        ∧ q.store = cache.store? root
        ∧ (c.router.release p.listener).outcome? q.listener = reply q.fingerprint := by
      intro q hq
      obtain ⟨hqslash, hqstore, hqout⟩ := hps q (List.mem_cons_of_mem _ hq)
      have hmem : q ∈ ps ++ batch.filterMap render? := List.mem_append_right _ hq
      exact ⟨hqslash, hqstore, (hr.outcome?_release hmem).trans hqout⟩
    have hcons := filled?_replyTo_cons cache hg hslash root reply
      ((batch.filterMap render?).map PendingRender.fingerprint) (c.images, d)
    obtain ⟨⟨c₁, res⟩, d₁, hfin, h⟩ := run_bind_eq.1 h
    rcases ho : c.router.outcome? p.listener with _ | o <;> rw [← hout, ho] at hcons
    · simp only [Coordinator.finish, ho] at hfin
      cases hfin
      obtain ⟨⟨c₂, rs⟩, d₂, h₁, h⟩ := run_bind_eq.1 h
      cases h
      exact (endAll_alike hg batch h₁ ps (hr.release c.images d) hrest).trans hcons
    · rw [Coordinator.run_finish_some ho] at hfin
      cases hfin
      obtain ⟨⟨c₂, rs⟩, d₂, h₁, h⟩ := run_bind_eq.1 h
      cases h
      have ih := endAll_alike hg batch h₁ ps (hr.release _ _) hrest
      rw [hstore] at ih
      exact ih.trans hcons

/-- What a batch leaves for a fingerprint is what the reply to it leaves, once. -/
theorem renderAll_alike {P : String → Outcome → Prop} (h : Accounted P s d)
    (hcache : s.coordinator.cache = cache) (hg : '/' ∉ g.toList) {specs : List Spec}
    {reply : String → Option Outcome} {results : List (Option RenderResult)}
    {submitted : List String}
    (hs : (s.renderAll specs root reply : StateM Disk _).run d = ((s', results, submitted), d')) :
    cache.Alike g (s'.coordinator.images, d') (Outcome.filled? g (cache.store? root)
      (replyTo reply submitted g) (s.coordinator.images, d)) := by
  obtain ⟨c, batch, hb, hstart, hend⟩ := renderAll_runs hs h.routed
  have hwaits := startAll_waits specs hstart
  have hps : ∀ p ∈ batch.filterMap render?, '/' ∉ p.fingerprint.toList
      ∧ p.store = cache.store? root ∧ (c.router.listen (replies s.coordinator.router.origin reply
        submitted)).outcome? p.listener = reply p.fingerprint := by
    intro p hp
    obtain ⟨st, hst, hrender⟩ := List.mem_filterMap.1 hp
    obtain ⟨spec, -, hkey, -⟩ := exists_of_mem_forall₂ hwaits hst
    obtain ⟨hfp, hstore⟩ := hkey p hrender
    refine ⟨hfp ▸ spec.slash_not_mem_fingerprint, ?_, ?_⟩
    · rw [hstore, Coordinator.store?_eq, hcache]
    · have hsub : p.fingerprint ∈ submitted := by
        rw [hb.requests]
        exact List.mem_map_of_mem hp
      rw [hb.outcome?_listen h.routed (List.mem_append_right _ hp),
        (hb.outcome?_of_mem h.routed hp).2, Option.none_or, if_pos hsub]
  have hends := endAll_alike hg batch hend s.inFlight (hb.listened h.routed) hps
  rwa [← hb.requests, hb.images] at hends

end Session

end Batch

namespace Session

variable {P : String → Outcome → Prop} {s : Session} {d : Disk} {f : String} {o o' : Outcome}
  {i : Nat} {store : Option CacheStore}

/-- A render that was delivered nothing before the completion ends with the completion's outcome. -/
theorem Accounted.mem_due (h : Accounted P s d) {late : Bool} :
    (i, store, o') ∈ s.due f o late ↔ ∃ p, s.renders[i]? = some (f, some p) ∧ p.store = store
      ∧ s.wakes f late f p = true
      ∧ (s.coordinator.router.outcome? p.listener).getD o = o' := by
  rw [h.due_eq, List.mem_filterMap]
  constructor
  · rintro ⟨⟨⟨g, _ | p⟩, j⟩, hx, he⟩
    · cases he
    · simp only [Option.bind_some] at he
      split_ifs at he with hw
      cases he
      have hg : g = f := by
        simp only [wakes, Bool.and_eq_true, decide_eq_true_eq] at hw
        exact hw.1
      exact ⟨p, hg ▸ List.mk_mem_zipIdx_iff_getElem?.1 hx, rfl, hg ▸ hw, rfl⟩
  · rintro ⟨p, hi, rfl, hw, rfl⟩
    exact ⟨((f, some p), i), List.mk_mem_zipIdx_iff_getElem?.2 hi, if_pos hw⟩

theorem Accounted.nodup_due (h : Accounted P s d) (f : String) (o : Outcome) :
    ((s.due f o).map Prod.fst).Nodup := by
  have hmap : (s.due f o).map Prod.fst = (s.renders.zipIdx.filter fun x =>
      decide (x.1.1 = f) && x.1.2.isSome).map Prod.snd := by
    rw [h.due_eq, List.map_filterMap, ← List.filterMap_eq_map, List.filterMap_filter]
    refine List.filterMap_congr fun x _ => ?_
    obtain ⟨⟨g, _ | p⟩, i⟩ := x <;> by_cases hg : g = f <;> simp [hg, wakes]
  rw [hmap]
  refine (List.filter_sublist.map _).nodup ?_
  rw [List.zipIdx_map_snd]
  exact List.nodup_range'

/-- Without the late ones, those are due that were running. -/
theorem Accounted.map_fst_due (h : Accounted P s d) (f : String) (o : Outcome) :
    (s.due f o false).map Prod.fst = s.running f := by
  rw [h.due_eq, running, List.map_filterMap, ← List.filterMap_eq_map, List.filterMap_filter]
  refine List.filterMap_congr fun x _ => ?_
  obtain ⟨⟨g, _ | p⟩, i⟩ := x
  · rfl
  · by_cases hg : g = f <;> cases ho : s.coordinator.router.outcome? p.listener <;>
      simp [wakes, waits, hg, ho]

/-- Without the late ones, all end with the completion's outcome. -/
theorem Accounted.eq_of_mem_due (h : Accounted P s d)
    {x : Nat × Option CacheStore × Outcome} (hx : x ∈ s.due f o false) : x.2.2 = o := by
  obtain ⟨i, store, o'⟩ := x
  obtain ⟨p, -, -, hw, rfl⟩ := h.mem_due.1 hx
  simp only [wakes, Bool.false_or, Bool.and_eq_true, Option.isNone_iff_eq_none] at hw
  rw [hw.2]
  rfl

end Session

end GraphBlock
