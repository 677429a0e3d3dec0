import GraphBlock.Render.Router
import Mathlib.Data.List.Nodup

/-!
# The registry under each operation

A tidy registry has one list for a fingerprint, and no list in it is empty (`Router.Tidy`).  No
operation untidies it, and what each leaves of the waiting listeners and of the outcomes is one
equation: `waitingOn_register`, `waitingOn_dispatch` and `waitingOn_release` for the first,
`outcome?_dispatch` and `outcome?_release` for the second.
-/

namespace GraphBlock.Router

theorem keys_enrol (f : String) (id : Nat) : ∀ xs : List (String × List Nat),
    (enrol f id xs).map Prod.fst
      = if f ∈ xs.map Prod.fst then xs.map Prod.fst else xs.map Prod.fst ++ [f]
  | [] => rfl
  | (k, ids) :: xs => by
    have ih := keys_enrol f id xs
    simp only [enrol]
    by_cases hk : k = f
    · simp [hk]
    · rw [if_neg hk, List.map_cons, ih]
      by_cases hf : f ∈ xs.map Prod.fst
      · rw [if_pos hf, List.map_cons, if_pos (List.mem_cons_of_mem _ hf)]
      · rw [if_neg hf, if_neg (by simpa [Ne.symm hk] using hf), List.map_cons, List.cons_append]

theorem nonempty_enrol (f : String) (id : Nat) : ∀ {xs : List (String × List Nat)},
    (∀ e ∈ xs, e.2 ≠ []) → ∀ e ∈ enrol f id xs, e.2 ≠ []
  | [], _, e, he => by
    obtain rfl := List.mem_singleton.1 he
    simp
  | x :: xs, h, e, he => by
    have ih := nonempty_enrol f id fun e he => h e (List.mem_cons_of_mem x he)
    simp only [enrol] at he
    split at he <;> rcases List.mem_cons.1 he with rfl | he
    · simp
    · exact h e (List.mem_cons_of_mem _ he)
    · exact h e List.mem_cons_self
    · exact ih e he

theorem keys_strike_sublist (f : String) (id : Nat) : ∀ xs : List (String × List Nat),
    ((strike f id xs).map Prod.fst).Sublist (xs.map Prod.fst)
  | [] => .slnil
  | x :: xs => by
    have ih := keys_strike_sublist f id xs
    simp only [strike]
    split
    · split
      · exact List.sublist_cons_self _ _
      · exact .refl _
    · exact ih.cons_cons x.1

theorem nonempty_strike (f : String) (id : Nat) : ∀ {xs : List (String × List Nat)},
    (∀ e ∈ xs, e.2 ≠ []) → ∀ e ∈ strike f id xs, e.2 ≠ []
  | [], _, e, he => by simp [strike] at he
  | x :: xs, h, e, he => by
    have ih := nonempty_strike f id fun e he => h e (List.mem_cons_of_mem x he)
    simp only [strike] at he
    split at he
    · split at he
      · exact h e (List.mem_cons_of_mem _ he)
      · rename_i hrest
        rcases List.mem_cons.1 he with rfl | he
        · exact hrest
        · exact h e (List.mem_cons_of_mem _ he)
    · rcases List.mem_cons.1 he with rfl | he
      · exact h e List.mem_cons_self
      · exact ih e he

/-- A list that is taken off must be the only one of its fingerprint: the next of the same
fingerprint would come in its place. -/
theorem lookup_strike (f g : String) (id : Nat) : ∀ {xs : List (String × List Nat)},
    (xs.map Prod.fst).Nodup →
      ((strike f id xs).lookup g).getD [] =
        if g = f then ((xs.lookup g).getD []).filter (· ≠ id) else (xs.lookup g).getD []
  | [], _ => by simp [strike]
  | (k, ids) :: xs, h => by
    rw [List.map_cons, List.nodup_cons] at h
    have ih := lookup_strike f g id h.2
    have hnone : xs.lookup k = none := by
      refine List.lookup_eq_none_iff.2 fun e he => ?_
      have hne : k ≠ e.1 := fun hk => h.1 (List.mem_map.2 ⟨e, he, hk.symm⟩)
      simpa using hne
    simp only [strike]
    by_cases hg : g = k
    · subst hg
      by_cases hk : g = f
      · simp only [if_pos hk, List.lookup_cons_self, Option.getD_some]
        generalize ids.filter (· ≠ id) = rest
        split
        · rename_i hrest
          rw [hnone, hrest, Option.getD_none]
        · rw [List.lookup_cons_self, Option.getD_some]
      · simp only [if_neg hk, List.lookup_cons_self]
    · have hg' : (g == k) = false := by simpa using hg
      by_cases hk : k = f
      · have hf : ¬ g = f := hk ▸ hg
        simp only [if_pos hk, if_neg hf]
        split <;> simp only [List.lookup_cons, hg']
      · simp only [if_neg hk, List.lookup_cons, hg', ih]

variable {r : Router}

/-- Each fingerprint has one list, and no list is empty. -/
structure Tidy (r : Router) : Prop where
  keys : (r.waiting.map Prod.fst).Nodup
  nonempty : ∀ e ∈ r.waiting, e.2 ≠ []

theorem tidy_trusting (origin : String) : (trusting origin).Tidy :=
  ⟨List.nodup_nil, fun _ he => absurd he List.not_mem_nil⟩

theorem Tidy.register (h : r.Tidy) (f : String) : (r.register f).1.Tidy := by
  refine ⟨?_, nonempty_enrol f r.nextId h.nonempty⟩
  show ((enrol f r.nextId r.waiting).map Prod.fst).Nodup
  rw [keys_enrol]
  split
  · exact h.keys
  · rename_i hf
    exact List.nodup_append.2 ⟨h.keys, List.nodup_singleton f, fun a ha b hb => by
      rintro rfl
      exact hf (List.mem_singleton.1 hb ▸ ha)⟩

theorem Tidy.dispatch (h : r.Tidy) (c : Completion) : (r.dispatch c).1.Tidy := by
  simp only [Router.dispatch]
  split
  · exact ⟨(List.filter_sublist.map _).nodup h.keys,
      fun e he => h.nonempty e (List.mem_of_mem_filter he)⟩
  · exact h

theorem Tidy.release (h : r.Tidy) (l : Listener) : (r.release l).Tidy :=
  ⟨(keys_strike_sublist _ _ _).nodup h.keys, nonempty_strike _ _ h.nonempty⟩

/-- A listener that is released is not waited for, and all others stay in their order. -/
theorem waitingOn_release (h : r.Tidy) (l : Listener) (g : String) :
    (r.release l).waitingOn g =
      if g = l.fingerprint then (r.waitingOn g).filter (· ≠ l.id) else r.waitingOn g :=
  lookup_strike l.fingerprint g l.id h.keys

theorem Tidy.waitingOn_of_mem (h : r.Tidy) {e : String × List Nat} (he : e ∈ r.waiting) :
    r.waitingOn e.1 = e.2 := by
  obtain ⟨as, bs, hw⟩ := List.append_of_mem he
  have hk := h.keys
  rw [hw, List.map_append, List.map_cons, List.nodup_append] at hk
  have has : ∀ p ∈ as, (e.1 != p.1) = true := fun p hp => by
    simpa using (hk.2.2 p.1 (List.mem_map_of_mem hp) e.1 List.mem_cons_self).symm
  have hl : r.waiting.lookup e.1 = some e.2 := List.lookup_eq_some_iff.2 ⟨as, bs, hw, has⟩
  rw [waitingOn, hl, Option.getD_some]

/-- A completion that reaches nobody changes nothing. -/
theorem Tidy.dispatch_of_unheard (h : r.Tidy) {c : Completion}
    (hc : c.origin = r.origin → r.waitingOn c.fingerprint = []) : r.dispatch c = (r, 0) := by
  rw [Router.dispatch]
  split
  · rename_i ho
    have hkeep : r.waiting.filter (·.1 ≠ c.fingerprint) = r.waiting := by
      refine List.filter_eq_self.2 fun e he => ?_
      have hne : e.1 ≠ c.fingerprint := fun hf => by
        refine h.nonempty e he ?_
        rw [← h.waitingOn_of_mem he, hf, hc ho]
      simpa using hne
    simp only [hc ho, hkeep, List.map_nil, List.append_nil, List.length_nil]
  · rfl

theorem nextId_dispatch (r : Router) (c : Completion) : (r.dispatch c).1.nextId = r.nextId := by
  unfold Router.dispatch
  split <;> rfl

theorem lookup_map_pair (o : Outcome) (id : Nat) : ∀ ids : List Nat,
    (ids.map fun i => (i, o)).lookup id = if id ∈ ids then some o else none
  | [] => rfl
  | i :: ids => by
    rw [List.map_cons, List.lookup_cons, lookup_map_pair o id ids]
    by_cases hi : id = i
    · simp [hi]
    · have hi' : (id == i) = false := by simpa using hi
      simp [hi, hi']

/-- What was delivered before stays, and what is delivered goes to the waiting listeners. -/
theorem outcome?_dispatch (r : Router) (c : Completion) (l : Listener) :
    (r.dispatch c).1.outcome? l = (r.outcome? l).or
      (if c.origin = r.origin ∧ l.id ∈ r.waitingOn c.fingerprint then some c.outcome
        else none) := by
  simp only [dispatch, outcome?]
  by_cases ho : c.origin = r.origin
  · simp only [ho, if_true, true_and, List.lookup_append, lookup_map_pair]
  · simp [ho]

theorem outcome?_release (r : Router) (l m : Listener) :
    (r.release l).outcome? m = if m.id = l.id then none else r.outcome? m :=
  lookup_filter_ne l.id m.id r.delivered

end GraphBlock.Router
