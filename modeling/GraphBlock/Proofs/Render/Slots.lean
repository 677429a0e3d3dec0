import GraphBlock.Render.Session
import Mathlib.Data.List.Induction

/-!
# Renders by fingerprint

A list of renders, each with its fingerprint and with the store it fills as long as it is in flight.
The renders of one fingerprint, taken out of the list, hold what is held for it under the numbers
that they have among themselves (`Slots.held_only`), and renders that end do so among these as they
do in the whole list (`Slots.modify_only`, `Slots.only_vacateAll`).
-/

namespace GraphBlock

namespace Session

/-- Renders by their fingerprints, each with the store it fills as long as it is in flight. -/
abbrev Slots := List (String × Option (Option CacheStore))

section Rank

variable {f g : String} {fs : List String} {i : Nat}

/-- The number of a render among those of the fingerprint. -/
def rank (f : String) (fs : List String) (i : Nat) : Nat :=
  (fs.take i).count f

theorem rank_cons (f g : String) (fs : List String) (i : Nat) :
    rank f (g :: fs) (i + 1) = (if g = f then 1 else 0) + rank f fs i := by
  rw [rank, List.take_succ_cons, List.count_cons, rank, Nat.add_comm]
  simp

theorem rank_of_length_le (h : fs.length ≤ i) : rank f fs i = fs.count f := by
  rw [rank, List.take_of_length_le h]

theorem rank_append (h : i ≤ fs.length) (g : String) : rank f (fs ++ [g]) i = rank f fs i := by
  rw [rank, List.take_append_of_le_length h, rank]

end Rank

namespace Slots

variable {f g : String} {v : Slots} {i : Nat}

/-- The renders of a fingerprint that are in flight, by number, with the stores they fill. -/
def held (f : String) (v : Slots) : List (Nat × Option CacheStore) :=
  v.zipIdx.filterMap fun x => if x.1.1 = f then x.1.2.map fun store => (x.2, store) else none

def vacate (x : String × Option (Option CacheStore)) : String × Option (Option CacheStore) :=
  (x.1, none)

/-- All renders of a fingerprint come to their end. -/
def vacateAll (f : String) (v : Slots) : Slots :=
  v.map fun x => if x.1 = f then vacate x else x

/-- The renders of a fingerprint. -/
def only (f : String) (v : Slots) : Slots :=
  v.filter fun x => x.1 = f

theorem count_fst (f : String) (v : Slots) : (v.map Prod.fst).count f = (only f v).length := by
  rw [only, ← List.countP_eq_length_filter, List.count, List.countP_map]
  rfl

theorem held_append (f : String) (v : Slots) (x : String × Option (Option CacheStore)) :
    held f (v ++ [x]) = held f v
      ++ (if x.1 = f then x.2.map fun store => (v.length, store) else none).toList := by
  rw [held, List.zipIdx_append, List.filterMap_append, held, List.zipIdx_singleton, Nat.zero_add]
  rfl

theorem lt_of_mem_held {x : Nat × Option CacheStore} (h : x ∈ held f v) : x.1 < v.length := by
  obtain ⟨⟨⟨g, w⟩, i⟩, hi, hx⟩ := List.mem_filterMap.1 h
  simp only [Option.ite_none_right_eq_some, Option.map_eq_some_iff] at hx
  obtain ⟨-, store, -, rfl⟩ := hx
  exact (List.getElem?_eq_some_iff.1 (List.mk_mem_zipIdx_iff_getElem?.1 hi)).1

theorem mem_of_mem_held {store : Option CacheStore} (h : (i, store) ∈ held f v) :
    (f, some store) ∈ v := by
  obtain ⟨⟨⟨g, w⟩, j⟩, hj, hx⟩ := List.mem_filterMap.1 h
  simp only [Option.ite_none_right_eq_some, Option.map_eq_some_iff, Prod.mk.injEq] at hx
  obtain ⟨rfl, store, rfl, -, rfl⟩ := hx
  exact List.mem_of_getElem? (List.mk_mem_zipIdx_iff_getElem?.1 hj)

/-- What is held for a fingerprint is held by its renders alone, under their new numbers. -/
theorem held_only (f : String) (v : Slots) : held f (only f v)
    = (held f v).map fun x => (rank f (v.map Prod.fst) x.1, x.2) := by
  induction v using List.reverseRecOn with
  | nil => rfl
  | append_singleton v x ih =>
    have hlen : (v.map Prod.fst).length = v.length := List.length_map _
    have hold : (held f v).map (fun y => (rank f ((v ++ [x]).map Prod.fst) y.1, y.2))
        = held f (only f v) := by
      rw [ih]
      refine List.map_congr_left fun y hy => ?_
      rw [List.map_append, List.map_singleton,
        rank_append (hlen.symm ▸ Nat.le_of_lt (lt_of_mem_held hy))]
    rw [held_append, List.map_append, hold, only, List.filter_append, ← only]
    by_cases hx : x.1 = f
    · have hnew : rank f ((v ++ [x]).map Prod.fst) v.length = (only f v).length := by
        rw [List.map_append, List.map_singleton, rank_append (Nat.le_of_eq hlen.symm),
          rank_of_length_le (Nat.le_of_eq hlen), count_fst]
      rw [List.filter_cons_of_pos (by simp [hx]), List.filter_nil, held_append, if_pos hx,
        if_pos hx]
      rcases x.2 with _ | store
      · rfl
      · simp only [Option.map_some, Option.toList_some, List.map_singleton, hnew]
    · rw [List.filter_cons_of_neg (by simp [hx]), if_neg hx, List.filter_nil, List.append_nil,
        Option.toList_none, List.map_nil, List.append_nil]

theorem getElem?_only (f : String) : ∀ (v : Slots) (i : Nat), (∀ x, v[i]? = some x → x.1 = f) →
    (only f v)[rank f (v.map Prod.fst) i]? = v[i]?
  | [], i, _ => by simp [only]
  | (g, w) :: v, 0, h => by
    obtain rfl : g = f := h _ rfl
    simp [only, rank]
  | (g, w) :: v, i + 1, h => by
    have ih := getElem?_only f v i h
    rw [List.getElem?_cons_succ, ← ih, List.map_cons, rank_cons, only]
    by_cases hg : g = f
    · rw [List.filter_cons_of_pos (by simp [hg]), if_pos hg, Nat.add_comm, List.getElem?_cons_succ]
      rfl
    · rw [List.filter_cons_of_neg (by simp [hg]), if_neg hg, Nat.zero_add]
      rfl

/-- To vacate a render of the fingerprint is to vacate it among these. -/
theorem modify_only (f : String) : ∀ (v : Slots) (i : Nat), (∀ x, v[i]? = some x → x.1 = f) →
    only f (v.modify i vacate) = (only f v).modify (rank f (v.map Prod.fst) i) vacate
  | [], i, _ => by simp [only]
  | (g, w) :: v, 0, h => by
    obtain rfl : g = f := h _ rfl
    simp [only, rank, vacate]
  | (g, w) :: v, i + 1, h => by
    have ih := modify_only f v i h
    rw [List.modify_succ_cons, List.map_cons, rank_cons]
    by_cases hg : g = f
    · rw [only, List.filter_cons_of_pos (by simp [hg]), if_pos hg, ← only, ih, Nat.add_comm, only,
        only, List.filter_cons_of_pos (by simp [hg]), List.modify_succ_cons]
    · rw [only, List.filter_cons_of_neg (by simp [hg]), if_neg hg, Nat.zero_add, ← only, ih, only,
        only, List.filter_cons_of_neg (by simp [hg])]

theorem modify_only_of_ne (f : String) : ∀ (v : Slots) (i : Nat), (∀ x, v[i]? = some x → x.1 ≠ f) →
    only f (v.modify i vacate) = only f v
  | [], i, _ => by simp
  | (g, w) :: v, 0, h => by
    have hg : g ≠ f := h _ rfl
    simp [only, vacate, hg]
  | (g, w) :: v, i + 1, h => by
    have ih := modify_only_of_ne f v i h
    rw [List.modify_succ_cons, only, List.filter_cons, ← only, ih, only, only, List.filter_cons]

theorem map_fst_modify : ∀ (v : Slots) (i : Nat),
    (v.modify i vacate).map Prod.fst = v.map Prod.fst
  | [], i => by rw [List.modify_nil]
  | x :: v, 0 => rfl
  | x :: v, i + 1 => by
    rw [List.modify_succ_cons, List.map_cons, map_fst_modify v i, List.map_cons]

theorem map_fst_vacateAll (f : String) (v : Slots) :
    (vacateAll f v).map Prod.fst = v.map Prod.fst := by
  rw [vacateAll, List.map_map]
  refine List.map_congr_left fun x _ => ?_
  simp only [Function.comp_apply]
  split_ifs <;> rfl

/-- What is in flight after a render came to its end was so before. -/
theorem mem_of_mem_modify {store : Option CacheStore} : ∀ (v : Slots) (i : Nat),
    (g, some store) ∈ v.modify i vacate → (g, some store) ∈ v
  | [], i, h => by rwa [List.modify_nil] at h
  | x :: v, 0, h => by
    rcases List.mem_cons.1 h with hx | hx
    · cases hx
    · exact List.mem_cons_of_mem _ hx
  | x :: v, i + 1, h => by
    rw [List.modify_succ_cons] at h
    rcases List.mem_cons.1 h with hx | hx
    · exact hx ▸ List.mem_cons_self
    · exact List.mem_cons_of_mem _ (mem_of_mem_modify v i hx)

theorem mem_of_mem_vacateAll {store : Option CacheStore} (h : (g, some store) ∈ vacateAll f v) :
    (g, some store) ∈ v := by
  obtain ⟨x, hx, hxg⟩ := List.mem_map.1 h
  split_ifs at hxg
  · cases hxg
  · exact hxg ▸ hx

/-- When the renders of a fingerprint end, so they do among these, and others stay. -/
theorem only_vacateAll (f g : String) (v : Slots) :
    only f (vacateAll g v) = if g = f then vacateAll f (only f v) else only f v := by
  rw [only, vacateAll, List.filter_map]
  have hfst : ((fun x : String × Option (Option CacheStore) => decide (x.1 = f))
      ∘ fun x => if x.1 = g then vacate x else x) = fun x => decide (x.1 = f) := by
    funext x
    simp only [Function.comp_apply]
    split_ifs <;> rfl
  rw [hfst, ← only]
  split_ifs with hg
  · rw [hg, vacateAll]
  · refine (List.map_congr_left fun x hx => if_neg fun hxg => hg ?_).trans (List.map_id' _)
    rw [← hxg]
    exact of_decide_eq_true (List.mem_filter.1 hx).2

end Slots

end Session

end GraphBlock
