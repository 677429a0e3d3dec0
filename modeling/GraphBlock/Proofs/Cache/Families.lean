import GraphBlock.Proofs.Cache.EntryFile
import GraphBlock.Proofs.Rows
import Mathlib.Data.Set.Card
import Mathlib.Logic.Relation

/-!
# Who shares a map

Services that are linked by clones are of one family (`CachePool.Kin`), and a family has one map
that nobody else uses (`CachePool.Mapped.kin_iff`).  A step writes to one map at most
(`CachePool.mapAt_advance`), so a map holds what was stored last through the services in memory of
its family (`CachePool.lookup_poolAfter`), and as many images as fingerprints were stored
(`CachePool.size_poolAfter`).
-/

namespace GraphBlock.CachePool

open Disk

section Family

/-- Adds what a step adds: a service, and the number of the service that it is a clone of. -/
def enlist (made : List (CacheService × Option Nat)) : Step → List (CacheService × Option Nat)
  | .new s => made ++ [(s, none)]
  | .clone i =>
    match made[i]? with
    | some x => made ++ [(x.1, some i)]
    | none => made
  | .store .. | .lookup .. => made

/-- The services that a row of steps adds. -/
def lineage (steps : List Step) : List (CacheService × Option Nat) :=
  steps.foldl enlist []

def ClonedFrom (steps : List Step) (i j : Nat) : Prop :=
  ∃ s, (lineage steps)[j]? = some (s, some i)

/-- Two services are of one family if clones link them, in whichever direction. -/
def Kin (steps : List Step) : Nat → Nat → Prop :=
  Relation.EqvGen (ClonedFrom steps)

/-- Service `i` was added, and it keeps its images in memory. -/
def InMemory (steps : List Step) (i : Nat) : Prop :=
  ∃ x, (lineage steps)[i]? = some x ∧ x.1.settings.location = .memory

/-- Step `k` stores an image, through a service in memory that is of the family of service `i`. -/
def Stores (steps : List Step) (i : Nat) (f : String) (k : Nat) (image : Bytes) : Prop :=
  ∃ j root, steps[k]? = some (.store j root f image) ∧ InMemory (steps.take k) j ∧ Kin steps i j

/-- The image is that of the latest store for the fingerprint in the family of service `i`. -/
def StoredLast (steps : List Step) (i : Nat) (f : String) (image : Bytes) : Prop :=
  ∃ k, Stores steps i f k image ∧ ∀ l b, Stores steps i f l b → l ≤ k

theorem lineage_concat (steps : List Step) (s : Step) :
    lineage (steps ++ [s]) = enlist (lineage steps) s := by
  rw [lineage, List.foldl_append]
  rfl

theorem enlist_isPrefix (made : List (CacheService × Option Nat)) (s : Step) :
    made <+: enlist made s := by
  cases s with
  | new s => exact List.prefix_append _ _
  | clone i =>
    simp only [enlist]
    split
    · exact List.prefix_append _ _
    · exact List.prefix_rfl
  | store | lookup => exact List.prefix_rfl

theorem lineage_isPrefix (steps later : List Step) :
    lineage steps <+: lineage (steps ++ later) := by
  rw [lineage, lineage, List.foldl_append]
  exact isPrefix_foldl id enlist_isPrefix later _

theorem ClonedFrom.mono {steps : List Step} {i j : Nat} (later : List Step) :
    ClonedFrom steps i j → ClonedFrom (steps ++ later) i j
  | ⟨s, hs⟩ => ⟨s, getElem?_of_isPrefix (lineage_isPrefix steps later) hs⟩

theorem Kin.mono {steps : List Step} {i j : Nat} (h : Kin steps i j) (later : List Step) :
    Kin (steps ++ later) i j :=
  Relation.EqvGen.mono (fun _ _ => ClonedFrom.mono later) i j h

end Family

section Numbers

variable {p : CachePool} {steps : List Step} {i j n : Nat}

/-- The number of the map that a service uses. -/
def number? (p : CachePool) (i : Nat) : Option Nat :=
  p.services[i]?.map Prod.snd

theorem number?_eq_some : p.number? i = some n ↔ ∃ s, p.services[i]? = some (s, n) := by
  rw [number?, Option.map_eq_some_iff]
  exact ⟨fun ⟨⟨s, m⟩, hs, hm⟩ => ⟨s, hm ▸ hs⟩, fun ⟨s, hs⟩ => ⟨_, hs, rfl⟩⟩

theorem number?_concat {s : CacheService} {m : Nat} {maps : List MemoryCache} :
    number? ⟨p.services ++ [(s, m)], maps⟩ i = some n
      ↔ p.number? i = some n ∨ i = p.services.length ∧ n = m := by
  simp [number?_eq_some, getElem?_concat_eq_some, exists_or, eq_comm (a := m)]

/-- The services are those that the steps add, and two of them use one map exactly if they are of
one family. -/
structure Mapped (steps : List Step) (p : CachePool) : Prop where
  services : p.services.map Prod.fst = (lineage steps).map Prod.fst
  lt : ∀ i n, p.number? i = some n → n < p.maps.length
  number : ∀ i j, ClonedFrom steps i j → p.number? i = p.number? j
  kin : ∀ i j n, p.number? i = some n → p.number? j = some n → Kin steps i j

theorem mapped_empty : Mapped [] empty :=
  ⟨rfl, fun i n h => by simp [number?, empty] at h, fun i j ⟨s, hs⟩ => by simp [lineage] at hs,
    fun i j n h => by simp [number?, empty] at h⟩

namespace Mapped

theorem length_services (h : Mapped steps p) : p.services.length = (lineage steps).length := by
  simpa using congrArg List.length h.services

/-- A service that was added uses a map. -/
theorem exists_number (h : Mapped steps p) {x : CacheService × Option Nat}
    (hx : (lineage steps)[i]? = some x) : ∃ n, p.services[i]? = some (x.1, n) := by
  have hs := congrArg (·[i]?) h.services
  simp only [List.getElem?_map, hx, Option.map_some, Option.map_eq_some_iff] at hs
  obtain ⟨⟨s, n⟩, hs, rfl⟩ := hs
  exact ⟨n, hs⟩

theorem number?_eq_of_kin (h : Mapped steps p) (hk : Kin steps i j) :
    p.number? i = p.number? j := by
  induction hk with
  | rel i j hc => exact h.number i j hc
  | refl i => rfl
  | symm i j _ ih => exact ih.symm
  | trans i j k _ _ ih₁ ih₂ => exact ih₁.trans ih₂

/-- A family has one map, and no other service uses it. -/
theorem kin_iff (h : Mapped steps p) (hi : p.number? i = some n) :
    Kin steps i j ↔ p.number? j = some n :=
  ⟨fun hk => h.number?_eq_of_kin hk ▸ hi, h.kin i j n hi⟩

/-- Adding a service keeps this if it uses the map of the service that it is a clone of, or a map
that no service uses. -/
theorem concat (h : Mapped steps p) {s : Step} {x : CacheService} {parent : Option Nat} {m : Nat}
    {maps : List MemoryCache} (hl : lineage (steps ++ [s]) = lineage steps ++ [(x, parent)])
    (hlen : p.maps.length ≤ maps.length) (hm : m < maps.length)
    (hparent : parent = none ∧ m = p.maps.length
      ∨ ∃ k, parent = some k ∧ p.number? k = some m) :
    Mapped (steps ++ [s]) ⟨p.services ++ [(x, m)], maps⟩ := by
  have hcloned : ∀ i j, ClonedFrom (steps ++ [s]) i j
      ↔ ClonedFrom steps i j ∨ j = p.services.length ∧ parent = some i := by
    intro i j
    simp [ClonedFrom, hl, getElem?_concat_eq_some, h.length_services, exists_or]
  have hlink : ∀ i, p.number? i = some m → Kin (steps ++ [s]) i p.services.length := by
    intro i hi
    rcases hparent with ⟨-, rfl⟩ | ⟨k, hk, hkm⟩
    · exact absurd (h.lt i _ hi) (Nat.lt_irrefl _)
    · exact .trans _ _ _ ((h.kin i k m hi hkm).mono [s])
        (.rel _ _ ((hcloned _ _).2 (.inr ⟨rfl, hk⟩)))
  refine ⟨?_, fun i n hi => ?_, fun i j hc => ?_, fun i j n hi hj => ?_⟩
  · simp only [hl, List.map_append, h.services, List.map_cons, List.map_nil]
  · rcases number?_concat.1 hi with hi | ⟨-, rfl⟩
    · exact (h.lt i n hi).trans_le hlen
    · exact hm
  · rcases (hcloned i j).1 hc with ⟨y, hy⟩ | ⟨rfl, hi⟩
    · obtain ⟨n, hn⟩ := h.exists_number hy
      have hj := number?_eq_some.2 ⟨_, hn⟩
      rw [number?_concat.2 (.inl ((h.number i j ⟨y, hy⟩).trans hj)), number?_concat.2 (.inl hj)]
    · rcases hparent with ⟨hnone, -⟩ | ⟨k, hk, hkm⟩
      · simp [hnone] at hi
      · obtain rfl := Option.some.inj (hk.symm.trans hi)
        rw [number?_concat.2 (.inl hkm), number?_concat.2 (.inr ⟨rfl, rfl⟩)]
  · rcases number?_concat.1 hi with hi | ⟨rfl, hni⟩ <;>
      rcases number?_concat.1 hj with hj | ⟨rfl, hnj⟩
    · exact (h.kin i j n hi hj).mono [s]
    · exact hlink i (hnj ▸ hi)
    · exact (hlink j (hni ▸ hj)).symm
    · exact .refl _

end Mapped

end Numbers

section Maps

variable {p : CachePool} {steps : List Step} {i j n : Nat} {f : String} {image : Bytes}

/-- The map with a number; an empty one if no service uses it yet. -/
def mapAt (p : CachePool) (n : Nat) : MemoryCache :=
  p.maps[n]?.getD .empty

/-- What a step stores in the map with a number: the fingerprint and the image. -/
def written? (p : CachePool) (n : Nat) : Step → Option (String × Bytes)
  | .store i _ f image =>
    match p.services[i]? with
    | some (s, m) => if m = n ∧ s.settings.location = .memory then some (f, image) else none
    | none => none
  | .lookup .. | .clone _ | .new _ => none

/-- What a step makes of the services and the maps.  The disk has no part in it. -/
def advance (p : CachePool) : Step → CachePool
  | .store i _ f image =>
    match p.services[i]? with
    | some (s, m) =>
      if s.settings.location = .memory then
        { p with maps := p.maps.set m ((p.mapAt m).insert f image) }
      else p
    | none => p
  | .lookup .. => p
  | .clone i => p.clone i
  | .new s => p.add s

def poolAfter (steps : List Step) : CachePool :=
  steps.foldl advance empty

theorem poolAfter_concat (steps : List Step) (s : Step) :
    poolAfter (steps ++ [s]) = (poolAfter steps).advance s := by
  rw [poolAfter, List.foldl_append]
  rfl

theorem mapOf_eq (h : p.number? i = some n) : p.mapOf i = p.mapAt n := by
  rw [number?] at h
  rw [mapOf, h]
  rfl

theorem mapOf_of_none (h : p.number? i = none) : p.mapOf i = .empty := by
  rw [number?] at h
  rw [mapOf, h]
  rfl

theorem Mapped.congr (h : Mapped steps p) {later : List Step} {q : CachePool}
    (hl : lineage later = lineage steps) (hs : q.services = p.services)
    (hm : q.maps.length = p.maps.length) : Mapped later q := by
  have hc : ClonedFrom later = ClonedFrom steps := by
    funext i j
    rw [ClonedFrom, ClonedFrom, hl]
  have hn : q.number? = p.number? := by
    funext i
    rw [number?, number?, hs]
  refine ⟨by rw [hs, hl, h.services], ?_, ?_, ?_⟩
  · rw [hn, hm]
    exact h.lt
  · rw [hc, hn]
    exact h.number
  · rw [Kin, hc, hn]
    exact h.kin

theorem Mapped.advance (h : Mapped steps p) (s : Step) : Mapped (steps ++ [s]) (p.advance s) := by
  cases s with
  | store i root f image =>
    have hpool : (p.advance (.store i root f image)).services = p.services
        ∧ (p.advance (.store i root f image)).maps.length = p.maps.length := by
      simp only [CachePool.advance]
      split
      · split_ifs <;> simp
      · simp
    exact h.congr (lineage_concat steps _) hpool.1 hpool.2
  | lookup i root f => exact h.congr (lineage_concat steps _) rfl rfl
  | clone i =>
    rcases hi : (lineage steps)[i]? with _ | x
    · have hlen : p.services.length ≤ i := by
        rw [h.length_services]
        exact List.getElem?_eq_none_iff.1 hi
      have hpool : p.advance (.clone i) = p := by
        simp [CachePool.advance, CachePool.clone, List.getElem?_eq_none hlen]
      exact h.congr (by simp [lineage_concat, enlist, hi]) (by rw [hpool]) (by rw [hpool])
    · obtain ⟨m, hm⟩ := h.exists_number hi
      have hnum := number?_eq_some.2 ⟨_, hm⟩
      have hpool : p.advance (.clone i) = ⟨p.services ++ [(x.1, m)], p.maps⟩ := by
        simp [CachePool.advance, CachePool.clone, hm]
      rw [hpool]
      exact h.concat (by simp [lineage_concat, enlist, hi]) le_rfl (h.lt i m hnum)
        (.inr ⟨i, rfl, hnum⟩)
  | new s =>
    exact h.concat (lineage_concat steps _) (by simp) (by simp) (.inl ⟨rfl, rfl⟩)

theorem mapped_poolAfter (steps : List Step) : Mapped steps (poolAfter steps) := by
  induction steps using List.reverseRecOn with
  | nil => exact mapped_empty
  | append_singleton steps s ih =>
    rw [poolAfter_concat]
    exact ih.advance s

/-- A step writes what it stores to its map, and leaves all other maps as they are. -/
theorem mapAt_advance (h : Mapped steps p) (s : Step) (n : Nat) :
    (p.advance s).mapAt n = match p.written? n s with
      | some (f, image) => (p.mapAt n).insert f image
      | none => p.mapAt n := by
  cases s with
  | store i root f image =>
    rcases hs : p.services[i]? with _ | ⟨s, m⟩
    · simp [CachePool.advance, written?, hs]
    · have hm : m < p.maps.length := h.lt i m (number?_eq_some.2 ⟨s, hs⟩)
      by_cases hloc : s.settings.location = .memory
      · by_cases hmn : m = n
        · subst hmn
          simp [CachePool.advance, written?, hs, hloc, mapAt, hm]
        · simp [CachePool.advance, written?, hs, hloc, hmn, mapAt]
      · simp [CachePool.advance, written?, hs, hloc]
  | lookup i root f => rfl
  | clone i =>
    simp only [CachePool.advance, CachePool.clone, written?]
    split <;> rfl
  | new s =>
    simp only [CachePool.advance, add, written?, mapAt, List.getElem?_append]
    split
    · rfl
    · rename_i hn
      rw [List.getElem?_eq_none (Nat.not_lt.1 hn)]
      cases hk : n - p.maps.length <;> simp

/-- Step `k` writes an image to the map with a number. -/
def Writes (steps : List Step) (n : Nat) (f : String) (k : Nat) (image : Bytes) : Prop :=
  ∃ s, steps[k]? = some s ∧ (poolAfter (steps.take k)).written? n s = some (f, image)

theorem writes_concat {s : Step} {k : Nat} : Writes (steps ++ [s]) n f k image
    ↔ Writes steps n f k image
      ∨ k = steps.length ∧ (poolAfter steps).written? n s = some (f, image) := by
  simp only [Writes, getElem?_concat_eq_some, or_and_right, exists_or]
  constructor
  · rintro (⟨t, ht, hw⟩ | ⟨t, ⟨rfl, rfl⟩, hw⟩)
    · have hk := (List.getElem?_eq_some_iff.1 ht).1
      rw [List.take_append_of_le_length hk.le] at hw
      exact .inl ⟨t, ht, hw⟩
    · rw [List.take_left] at hw
      exact .inr ⟨rfl, hw⟩
  · rintro (⟨t, ht, hw⟩ | ⟨rfl, hw⟩)
    · have hk := (List.getElem?_eq_some_iff.1 ht).1
      refine .inl ⟨t, ht, ?_⟩
      rwa [List.take_append_of_le_length hk.le]
    · refine .inr ⟨s, ⟨rfl, rfl⟩, ?_⟩
      rwa [List.take_left]

theorem Writes.lt {k : Nat} : Writes steps n f k image → k < steps.length
  | ⟨_, hs, _⟩ => (List.getElem?_eq_some_iff.1 hs).1

/-- A step writes the image of a fingerprint, or the fingerprint keeps the image that it has. -/
theorem lookup_concat (steps : List Step) (s : Step) (n : Nat) (f : String) :
    (∃ b, (poolAfter steps).written? n s = some (f, b)
        ∧ ((poolAfter (steps ++ [s])).mapAt n).lookup f = some b)
      ∨ (∀ b, (poolAfter steps).written? n s ≠ some (f, b))
        ∧ ((poolAfter (steps ++ [s])).mapAt n).lookup f
          = ((poolAfter steps).mapAt n).lookup f := by
  rw [poolAfter_concat, mapAt_advance (mapped_poolAfter steps)]
  rcases (poolAfter steps).written? n s with _ | ⟨g, b⟩
  · exact .inr ⟨by simp, rfl⟩
  · by_cases hg : f = g
    · subst hg
      exact .inl ⟨b, rfl, by simp⟩
    · exact .inr ⟨by simp [Ne.symm hg], by simp [hg]⟩

/-- A map holds for a fingerprint what was written to it last. -/
theorem lookup_poolAfter (steps : List Step) (n : Nat) (f : String) (image : Bytes) :
    ((poolAfter steps).mapAt n).lookup f = some image
      ↔ ∃ k, Writes steps n f k image ∧ ∀ l b, Writes steps n f l b → l ≤ k := by
  induction steps using List.reverseRecOn with
  | nil => simp [poolAfter, empty, mapAt, Writes]
  | append_singleton steps s ih =>
    simp only [writes_concat]
    rcases lookup_concat steps s n f with ⟨b, hw, hl⟩ | ⟨hw, hl⟩
    · rw [hl, hw]
      constructor
      · rintro ⟨rfl⟩
        refine ⟨steps.length, .inr ⟨rfl, rfl⟩, fun l c hc => ?_⟩
        rcases hc with hc | ⟨rfl, -⟩
        · exact hc.lt.le
        · exact le_rfl
      · rintro ⟨k, hk | ⟨-, hb⟩, hlast⟩
        · exact absurd (hlast _ b (.inr ⟨rfl, rfl⟩)) (Nat.not_le.2 hk.lt)
        · simpa using hb
    · simpa [hl, hw] using ih

/-- A map holds nothing for a fingerprint exactly if nothing was written to it. -/
theorem lookup_poolAfter_eq_none (steps : List Step) (n : Nat) (f : String) :
    ((poolAfter steps).mapAt n).lookup f = none ↔ ∀ k image, ¬ Writes steps n f k image := by
  induction steps using List.reverseRecOn with
  | nil => simp [poolAfter, empty, mapAt, Writes]
  | append_singleton steps s ih =>
    simp only [writes_concat]
    rcases lookup_concat steps s n f with ⟨b, hw, hl⟩ | ⟨hw, hl⟩
    · rw [hl, hw]
      simp only [reduceCtorEq, false_iff, not_forall, not_not]
      exact ⟨steps.length, b, .inr ⟨rfl, rfl⟩⟩
    · simpa [hl, hw] using ih

theorem contains_poolAfter : ((poolAfter steps).mapAt n).contains f = true
    ↔ ∃ k image, Writes steps n f k image := by
  rw [MemoryCache.contains, Option.isSome_iff_ne_none, Ne, lookup_poolAfter_eq_none]
  simp

/-- A map holds as many images as fingerprints were written to it. -/
theorem size_poolAfter (steps : List Step) (n : Nat) :
    {f | ∃ k image, Writes steps n f k image}.Finite
      ∧ ((poolAfter steps).mapAt n).size = {f | ∃ k image, Writes steps n f k image}.ncard := by
  induction steps using List.reverseRecOn with
  | nil => simp [poolAfter, empty, mapAt, Writes, MemoryCache.size, MemoryCache.empty]
  | append_singleton steps s ih =>
    obtain ⟨hfin, hsize⟩ := ih
    rw [poolAfter_concat, mapAt_advance (mapped_poolAfter steps)]
    rcases hw : (poolAfter steps).written? n s with _ | ⟨g, b⟩
    · simpa [writes_concat, hw] using ⟨hfin, hsize⟩
    · have hset : {f | ∃ k image, Writes (steps ++ [s]) n f k image}
          = insert g {f | ∃ k image, Writes steps n f k image} := by
        ext f
        simp [writes_concat, hw, exists_or, or_comm, eq_comm]
      have hmem : g ∈ {f | ∃ k image, Writes steps n f k image}
          ↔ ((poolAfter steps).mapAt n).contains g = true := contains_poolAfter.symm
      rw [hset]
      refine ⟨hfin.insert g, ?_⟩
      rw [MemoryCache.size_insert]
      split_ifs with hc
      · rw [Set.insert_eq_of_mem (hmem.2 hc), hsize]
      · rw [Set.ncard_insert_of_notMem (fun h => hc (hmem.1 h)) hfin, hsize]

end Maps

section Run

variable {p : CachePool} {steps : List Step} {d : Disk} {i n : Nat} {f : String}

theorem set_mapAt (p : CachePool) (n : Nat) : p.maps.set n (p.mapAt n) = p.maps := by
  rcases Nat.lt_or_ge n p.maps.length with hn | hn
  · rw [mapAt, List.getElem?_eq_getElem hn, Option.getD_some, List.set_getElem_self]
  · rw [List.set_eq_of_length_le hn]

theorem run_step (p : CachePool) (s : Step) (d : Disk) :
    ((p.step s : StateM Disk _).run d).1.1 = p.advance s := by
  cases s with
  | store i root f image =>
    rcases hs : p.services[i]? with _ | ⟨s, m⟩
    · simp only [step, store, advance, hs]
      rfl
    · have hmap := mapOf_eq (number?_eq_some.2 ⟨s, hs⟩)
      rcases hloc : s.settings.location
      · simp only [step, store, advance, hs, hloc, CacheService.storeFor, CacheStore.store, hmap]
        rfl
      · simp only [step, store, advance, hs, hloc, CacheService.storeFor, CacheStore.store, hmap]
        exact congrArg (CachePool.mk p.services) (set_mapAt p m)
  | lookup | clone | new => rfl

theorem run_pool : ∀ (steps : List Step) (p : CachePool) (d : Disk),
    ((p.run steps : StateM Disk _).run d).1.1 = steps.foldl advance p
  | [], _, _ => rfl
  | s :: steps, p, d => by
    rw [List.foldl_cons, ← run_step p s d]
    exact run_pool steps _ _

/-- A lookup in memory is answered by the map of the service as the steps before left it. -/
theorem answer_lookup {s : CacheService} {root : Path} (hs : s.settings.location = .memory) :
    ∀ {steps : List Step} {p : CachePool} {d : Disk} {k : Nat},
      steps[k]? = some (.lookup i root f) →
      ((steps.take k).foldl advance p).services[i]? = some (s, n) →
      ((p.run steps : StateM Disk _).run d).1.2[k]?
        = some (.found ((((steps.take k).foldl advance p).mapAt n).lookup f))
  | t :: steps, p, d, 0, hk, hi => by
    obtain rfl := Option.some.inj hk
    simp only [List.take_zero, List.foldl_nil] at hi ⊢
    have hmap := mapOf_eq (number?_eq_some.2 ⟨s, hi⟩)
    have hfound : ((p.lookup i root f : StateM Disk _).run d).1 = (p.mapAt n).lookup f := by
      simp only [lookup, service?, hi, Option.map_some, CacheService.storeFor, hs, ← hmap]
      rfl
    rw [← hfound]
    rfl
  | t :: steps, p, d, k + 1, hk, hi => by
    rw [List.take_succ_cons, List.foldl_cons, ← run_step p t d] at hi ⊢
    have hk' : steps[k]? = some (.lookup i root f) := hk
    exact answer_lookup hs hk' hi

end Run

section Shared

variable {steps : List Step} {i j n k : Nat} {f : String} {image : Bytes}

/-- A service in memory is one of the pool, and it keeps its number. -/
theorem inMemory_iff : InMemory steps i
    ↔ ∃ s n, (poolAfter steps).services[i]? = some (s, n) ∧ s.settings.location = .memory := by
  have h := congrArg (·[i]?) (mapped_poolAfter steps).services
  simp only [List.getElem?_map] at h
  constructor
  · rintro ⟨x, hx, hloc⟩
    obtain ⟨n, hn⟩ := (mapped_poolAfter steps).exists_number hx
    exact ⟨x.1, n, hn, hloc⟩
  · rintro ⟨s, n, hs, hloc⟩
    rw [hs, Option.map_some, eq_comm, Option.map_eq_some_iff] at h
    obtain ⟨x, hx, hxs⟩ := h
    exact ⟨x, hx, hxs ▸ hloc⟩

theorem services_isPrefix_advance (p : CachePool) (s : Step) :
    p.services <+: (p.advance s).services := by
  cases s with
  | store i root f image =>
    simp only [advance]
    split
    · split_ifs <;> exact List.prefix_rfl
    · exact List.prefix_rfl
  | lookup i root f => exact List.prefix_rfl
  | clone i =>
    simp only [advance, clone]
    split
    · exact List.prefix_append _ _
    · exact List.prefix_rfl
  | new s => exact List.prefix_append _ _

/-- A service keeps its number. -/
theorem services_of_take {x : CacheService × Nat}
    (h : (poolAfter (steps.take k)).services[i]? = some x) :
    (poolAfter steps).services[i]? = some x := by
  have hp :=
    isPrefix_foldl services services_isPrefix_advance (steps.drop k) (poolAfter (steps.take k))
  rw [poolAfter, ← List.foldl_append, List.take_append_drop] at hp
  exact getElem?_of_isPrefix hp h

theorem written?_eq_some {p : CachePool} {s : Step} : p.written? n s = some (f, image)
    ↔ ∃ j root t, s = .store j root f image ∧ p.services[j]? = some (t, n)
      ∧ t.settings.location = .memory := by
  cases s with
  | store j root g b =>
    rcases hj : p.services[j]? with _ | ⟨t, m⟩
    · simp [written?, hj]
    · simp [written?, hj]
      tauto
  | lookup | clone | new => simp [written?]

/-- The stores in a family are what is written to its map. -/
theorem stores_iff (hi : (poolAfter steps).number? i = some n) :
    Stores steps i f k image ↔ Writes steps n f k image := by
  have hkin : ∀ {j}, Kin steps i j ↔ (poolAfter steps).number? j = some n :=
    (mapped_poolAfter steps).kin_iff hi
  simp only [Stores, Writes, written?_eq_some, inMemory_iff, hkin, number?_eq_some]
  constructor
  · rintro ⟨j, root, hk, ⟨t, m, ht, hloc⟩, t', hn⟩
    rw [services_of_take ht] at hn
    obtain ⟨rfl, rfl⟩ := Prod.mk.inj (Option.some.inj hn)
    exact ⟨_, hk, j, root, t, rfl, ht, hloc⟩
  · rintro ⟨_, hk, j, root, t, rfl, ht, hloc⟩
    exact ⟨j, root, hk, ⟨t, n, ht, hloc⟩, t, services_of_take ht⟩

/-- Only of a service that was added is there a family to store in. -/
theorem Stores.exists_number : Stores steps i f k image → ∃ n, (poolAfter steps).number? i = some n
  | ⟨j, _, _, hj, hk⟩ => by
    obtain ⟨s, n, hs, -⟩ := inMemory_iff.1 hj
    rw [(mapped_poolAfter steps).number?_eq_of_kin hk]
    exact ⟨n, number?_eq_some.2 ⟨s, services_of_take hs⟩⟩

/-- A step leaves the map of a service as it is unless it stores in its family. -/
theorem mapOf_advance {s : Step} (hi : i < (lineage steps).length)
    (hs : ∀ j root f image, s = .store j root f image → InMemory steps j → ¬ Kin steps i j) :
    ((poolAfter steps).advance s).mapOf i = (poolAfter steps).mapOf i := by
  have h := mapped_poolAfter steps
  obtain ⟨n, hn⟩ := h.exists_number (List.getElem?_eq_getElem hi)
  have hnum : (poolAfter steps).number? i = some n := number?_eq_some.2 ⟨_, hn⟩
  have hnum' : ((poolAfter steps).advance s).number? i = some n :=
    number?_eq_some.2 ⟨_, getElem?_of_isPrefix (services_isPrefix_advance _ s) hn⟩
  rw [mapOf_eq hnum, mapOf_eq hnum', mapAt_advance h]
  rcases hw : (poolAfter steps).written? n s with _ | ⟨f, image⟩
  · rfl
  · obtain ⟨j, root, t, rfl, ht, hloc⟩ := written?_eq_some.1 hw
    have hkin := (h.kin_iff hnum).2 (number?_eq_some.2 ⟨t, ht⟩)
    exact absurd hkin (hs j root f image rfl (inMemory_iff.2 ⟨t, n, ht, hloc⟩))

/-- Of every run: a lookup through a service in memory finds the image of the latest store for the
fingerprint in the family of the service, and nothing if there was none; the map of a service holds
as many images as fingerprints were stored in its family; and no step changes it but a store
through a service in memory of the family. -/
theorem families_share_memory (steps : List Step) (d : Disk) :
    let out := (empty.run steps : StateM Disk _).run d
    (∀ k i root f, steps[k]? = some (.lookup i root f) → InMemory (steps.take k) i →
        ∃ found, out.1.2[k]? = some (.found found)
          ∧ (∀ image, found = some image ↔ StoredLast (steps.take k) i f image)
          ∧ (found = none ↔ ∀ l image, ¬ Stores (steps.take k) i f l image))
      ∧ (∀ i, (out.1.1.mapOf i).size = {f | ∃ k image, Stores steps i f k image}.ncard)
      ∧ ∀ s i, i < (lineage steps).length →
          (∀ j root f image, s = .store j root f image → InMemory steps j → ¬ Kin steps i j) →
          ((out.1.1.step s : StateM Disk _).run out.2).1.1.mapOf i = out.1.1.mapOf i := by
  intro out
  have hpool : out.1.1 = poolAfter steps := run_pool steps empty d
  refine ⟨fun k i root f hk hi => ?_, fun i => ?_, fun s i hi hs => ?_⟩
  · obtain ⟨s, n, hn, hloc⟩ := inMemory_iff.1 hi
    have hstores : ∀ {g l image}, Stores (steps.take k) i g l image
        ↔ Writes (steps.take k) n g l image := stores_iff (number?_eq_some.2 ⟨s, hn⟩)
    refine ⟨_, answer_lookup hloc hk hn, fun image => ?_, ?_⟩
    · simp only [StoredLast, hstores]
      exact lookup_poolAfter _ n f image
    · simp only [hstores]
      exact lookup_poolAfter_eq_none _ n f
  · rw [hpool]
    rcases hi : (poolAfter steps).number? i with _ | n
    · have hnone : {f | ∃ k image, Stores steps i f k image} = ∅ := by
        refine Set.eq_empty_of_forall_notMem fun f ⟨k, image, hs⟩ => ?_
        obtain ⟨n, hn⟩ := hs.exists_number
        simp [hi] at hn
      rw [hnone, mapOf_of_none hi, Set.ncard_empty]
      rfl
    · simp only [mapOf_eq hi, stores_iff hi]
      exact (size_poolAfter steps n).2
  · rw [run_step, hpool]
    exact mapOf_advance hi hs

/-- A clone of a clone stores for the first service, a service of its own and one with a directory
do not. -/
theorem families_share_memory_clones :
    let d : Disk := ⟨[], []⟩
    let s : CacheService := ⟨⟨false, .memory, none⟩, "p", ⟨"/tmp"⟩⟩
    let t : CacheService := ⟨⟨true, .filesystem, some ⟨"k"⟩⟩, "p", ⟨"/tmp"⟩⟩
    let steps : List Step := [.new s, .clone 0, .new s, .clone 1, .new t, .store 3 ⟨"r"⟩ "f" [1],
      .store 2 ⟨""⟩ "f" [2], .lookup 0 ⟨""⟩ "f"]
    let out := (empty.run steps : StateM Disk _).run d
    InMemory (steps.take 7) 0 ∧ out.1.2[7]? = some (.found (some [1]))
      ∧ StoredLast (steps.take 7) 0 "f" [1]
      ∧ {f | ∃ k image, Stores steps 0 f k image}.ncard = 1
      ∧ ¬ InMemory steps 4
      ∧ ((out.1.1.step (.store 4 ⟨"r"⟩ "f" [3]) : StateM Disk _).run out.2).1.1.mapOf 0
        = ⟨[("f", [1])]⟩ := by
  intro d s t steps out
  obtain ⟨hlookup, hsize, hkeep⟩ := families_share_memory steps d
  have hmem : InMemory (steps.take 7) 0 := ⟨_, rfl, rfl⟩
  have hdir : ¬ InMemory steps 4 := by
    rintro ⟨x, hx, hloc⟩
    obtain rfl := Option.some.inj hx
    cases hloc
  obtain ⟨found, hfound, hlast, -⟩ := hlookup 7 0 ⟨""⟩ "f" rfl hmem
  obtain rfl : some [1] = found := by injection hfound with h; injection h
  refine ⟨hmem, rfl, (hlast [1]).1 rfl, (hsize 0).symm, hdir, ?_⟩
  refine (hkeep _ 0 (by decide) ?_).trans rfl
  rintro j root f image ⟨rfl⟩ hj
  exact absurd hj hdir

end Shared

end GraphBlock.CachePool
