import Mathlib.Data.List.Dedup
import Mathlib.Data.List.Duplicate
import Mathlib.Data.List.Forall2

/-!
# Rows entry by entry

Of two rows that correspond entry by entry, each entry of the one has its counterpart in the other,
and what corresponds as equal is equal as a row.  Of steps whose order and number make no difference
(`Unordered`), only which ones are taken matters (`Unordered.foldl_of_mem_iff`).
-/

namespace GraphBlock

variable {α β γ : Type} {R : α → β → Prop} {as cs : List α} {bs : List β}

theorem exists_of_mem_forall₂ {b : β} (h : List.Forall₂ R as bs) (hb : b ∈ bs) :
    ∃ a ∈ as, R a b := by
  induction h with
  | nil => simp at hb
  | cons hab _ ih =>
    rcases List.mem_cons.1 hb with rfl | hb
    · exact ⟨_, List.mem_cons_self, hab⟩
    · obtain ⟨a, ha, hf⟩ := ih hb
      exact ⟨a, List.mem_cons_of_mem _ ha, hf⟩

theorem exists_of_forall₂_mem {a : α} (h : List.Forall₂ R as bs) (ha : a ∈ as) :
    ∃ b ∈ bs, R a b :=
  exists_of_mem_forall₂ h.flip ha

theorem exists_getElem?_of_forall₂ {a : α} {i : Nat} (h : List.Forall₂ R as bs)
    (ha : as[i]? = some a) : ∃ b, bs[i]? = some b ∧ R a b := by
  induction h generalizing i with
  | nil => simp at ha
  | cons hab _ ih =>
    rcases i with _ | i
    · obtain rfl := Option.some.inj ha
      exact ⟨_, rfl, hab⟩
    · exact ih ha

theorem exists_forall₂_iff : (∃ bs, List.Forall₂ R as bs) ↔ ∀ a ∈ as, ∃ b, R a b := by
  constructor
  · rintro ⟨bs, h⟩ a ha
    obtain ⟨b, -, hab⟩ := exists_of_forall₂_mem h ha
    exact ⟨b, hab⟩
  · intro h
    induction as with
    | nil => exact ⟨[], .nil⟩
    | cons a as ih =>
      obtain ⟨b, hab⟩ := h a List.mem_cons_self
      obtain ⟨bs, hbs⟩ := ih fun c hc => h c (List.mem_cons_of_mem _ hc)
      exact ⟨b :: bs, .cons hab hbs⟩

theorem map_eq_map_of_forall₂ {f : α → γ} {g : β → γ}
    (h : List.Forall₂ (fun a b => f a = g b) as bs) : as.map f = bs.map g := by
  rw [← List.forall₂_eq_eq_eq, List.forall₂_map_left_iff, List.forall₂_map_right_iff]
  exact h

theorem forall₂_imp_of_mem {R' : α → β → Prop} (h : List.Forall₂ R as bs)
    (himp : ∀ a, ∀ b ∈ bs, R a b → R' a b) : List.Forall₂ R' as bs := by
  induction h with
  | nil => exact .nil
  | cons hab _ ih =>
    exact .cons (himp _ _ List.mem_cons_self hab)
      (ih fun a b hb => himp a b (List.mem_cons_of_mem _ hb))

/-- The counterpart of an entry in the middle stands in the middle. -/
theorem exists_of_forall₂_middle {ys zs : List β} {b : β} (h : List.Forall₂ R as (ys ++ b :: zs)) :
    ∃ xs a ws, as = xs ++ a :: ws ∧ xs.length = ys.length ∧ List.Forall₂ R xs ys ∧ R a b
      ∧ List.Forall₂ R ws zs := by
  have htake := List.forall₂_take_append as ys (b :: zs) h
  have hdrop := List.forall₂_drop_append as ys (b :: zs) h
  rcases hws : as.drop ys.length with _ | ⟨a, ws⟩ <;> rw [hws] at hdrop <;> cases hdrop
  rename_i hab hrest
  refine ⟨as.take ys.length, a, ws, ?_, htake.length_eq, htake, hab, hrest⟩
  rw [← hws, List.take_append_drop]

/-- What stands at two places is a duplicate. -/
theorem duplicate_of_getElem? {a : α} : ∀ {l : List α} {i j : Nat}, i ≠ j → l[i]? = some a →
    l[j]? = some a → List.Duplicate a l
  | [], _, _, _, hi, _ => by simp at hi
  | _ :: _, 0, 0, hij, _, _ => absurd rfl hij
  | _ :: l, 0, j + 1, _, hi, hj => by
    obtain rfl := Option.some.inj hi
    exact .cons_mem (List.mem_of_getElem? hj)
  | _ :: l, i + 1, 0, _, hi, hj => by
    obtain rfl := Option.some.inj hj
    exact .cons_mem (List.mem_of_getElem? hi)
  | x :: l, i + 1, j + 1, hij, hi, hj =>
    (duplicate_of_getElem? (fun h => hij (congrArg (· + 1) h)) hi hj).duplicate_cons x

theorem getElem?_of_isPrefix {a : α} {i : Nat} (h : as <+: cs) (ha : as[i]? = some a) :
    cs[i]? = some a := by
  obtain ⟨l, rfl⟩ := h
  rw [List.getElem?_append_left (List.getElem?_eq_some_iff.1 ha).1, ha]

theorem getElem?_concat_eq_some {a b : α} {i : Nat} :
    (as ++ [b])[i]? = some a ↔ as[i]? = some a ∨ i = as.length ∧ b = a := by
  rcases Nat.lt_trichotomy i as.length with hi | rfl | hi
  · rw [List.getElem?_append_left hi]
    simp [Nat.ne_of_lt hi]
  · rw [List.getElem?_concat_length, List.getElem?_eq_none (Nat.le_refl _)]
    simp
  · rw [List.getElem?_eq_none (by rw [List.length_append]; exact hi),
      List.getElem?_eq_none (Nat.le_of_lt hi)]
    simp [Nat.ne_of_gt hi]

/-- A row without its later repeats grows by what is new in it. -/
theorem eraseDups_concat [DecidableEq α] (as : List α) (a : α) :
    (as ++ [a]).eraseDups = if a ∈ as then as.eraseDups else as.eraseDups ++ [a] := by
  rw [List.eraseDups_append]
  by_cases h : a ∈ as <;> simp [h, List.removeAll, List.eraseDups_cons]

/-- What a row of steps can only add to has at its end all that it had before. -/
theorem isPrefix_foldl {g : β → α → β} (row : β → List γ) (h : ∀ x a, row x <+: row (g x a)) :
    ∀ (as : List α) (x : β), row x <+: row (as.foldl g x)
  | [], _ => List.prefix_rfl
  | a :: as, x => (h x a).trans (isPrefix_foldl row h as (g x a))

theorem map_some_map {f : α → β} (l : List α) :
    (l.map some).map (Option.map f) = (l.map f).map some := by
  simp

/-- As far as a relation can tell, steps that are `Ok` can change places, and to take one twice is
to take it once. -/
structure Unordered (S : β → β → Prop) (g : β → α → β) (Ok : α → Prop) : Prop where
  refl : ∀ x, S x x
  symm : ∀ {x y}, S x y → S y x
  trans : ∀ {x y z}, S x y → S y z → S x z
  congr : ∀ {x y} a, S x y → S (g x a) (g y a)
  comm : ∀ x {a b}, Ok a → Ok b → S (g (g x a) b) (g (g x b) a)
  again : ∀ x a, S (g (g x a) a) (g x a)

namespace Unordered

variable {S : β → β → Prop} {g : β → α → β} {Ok : α → Prop}

theorem foldl_congr (h : Unordered S g Ok) : ∀ (as : List α) {x y : β}, S x y →
    S (as.foldl g x) (as.foldl g y)
  | [], _, _, hxy => hxy
  | a :: as, _, _, hxy => h.foldl_congr as (h.congr a hxy)

theorem foldl_of_perm (h : Unordered S g Ok) (hperm : as.Perm cs) (hok : ∀ a ∈ as, Ok a) (x : β) :
    S (as.foldl g x) (cs.foldl g x) := by
  induction hperm generalizing x with
  | nil => exact h.refl x
  | cons a _ ih => exact ih (fun b hb => hok b (List.mem_cons_of_mem _ hb)) (g x a)
  | swap a b l =>
    have hb : Ok b := hok b List.mem_cons_self
    have ha : Ok a := hok a (List.mem_cons_of_mem _ List.mem_cons_self)
    exact h.foldl_congr l (h.comm x hb ha)
  | trans h₁ _ ih₁ ih₂ =>
    exact h.trans (ih₁ hok x) (ih₂ (fun a ha => hok a (h₁.mem_iff.2 ha)) x)

/-- A step that comes once more later on can be left out. -/
theorem foldl_cons_of_mem [DecidableEq α] (h : Unordered S g Ok) {a : α} (ha : a ∈ as)
    (hok : ∀ a ∈ as, Ok a) (x : β) : S ((a :: as).foldl g x) (as.foldl g x) := by
  have hperm : as.Perm (a :: as.erase a) := List.perm_cons_erase ha
  have hfirst : S (as.foldl g (g x a)) ((a :: as.erase a).foldl g (g x a)) :=
    h.foldl_of_perm hperm hok (g x a)
  have honce : S ((as.erase a).foldl g (g (g x a) a)) ((as.erase a).foldl g (g x a)) :=
    h.foldl_congr _ (h.again x a)
  exact h.trans hfirst (h.trans honce (h.symm (h.foldl_of_perm hperm hok x)))

theorem foldl_dedup [DecidableEq α] (h : Unordered S g Ok) : ∀ (as : List α) (x : β),
    (∀ a ∈ as, Ok a) → S (as.foldl g x) (as.dedup.foldl g x)
  | [], x, _ => h.refl x
  | a :: as, x, hok => by
    have hok' : ∀ a ∈ as, Ok a := fun b hb => hok b (List.mem_cons_of_mem _ hb)
    by_cases ha : a ∈ as
    · rw [List.dedup_cons_of_mem ha]
      exact h.trans (h.foldl_cons_of_mem ha hok' x) (h.foldl_dedup as x hok')
    · rw [List.dedup_cons_of_notMem ha]
      exact h.foldl_dedup as (g x a) hok'

/-- Only which steps are taken matters. -/
theorem foldl_of_mem_iff [DecidableEq α] (h : Unordered S g Ok) (hmem : ∀ a, a ∈ as ↔ a ∈ cs)
    (hok : ∀ a ∈ as, Ok a) (x : β) : S (as.foldl g x) (cs.foldl g x) := by
  have hperm : as.dedup.Perm cs.dedup :=
    (List.perm_ext_iff_of_nodup as.nodup_dedup cs.nodup_dedup).2 fun a => by
      rw [List.mem_dedup, List.mem_dedup, hmem]
  have hmid : S (as.dedup.foldl g x) (cs.dedup.foldl g x) :=
    h.foldl_of_perm hperm (fun a ha => hok a (List.mem_dedup.1 ha)) x
  have hlast : S (cs.foldl g x) (cs.dedup.foldl g x) :=
    h.foldl_dedup cs x fun a ha => hok a ((hmem a).2 ha)
  exact h.trans (h.foldl_dedup as x hok) (h.trans hmid (h.symm hlast))

end Unordered

theorem mem_middle {a b : α} (h : a ∈ as ++ cs) : a ∈ as ++ b :: cs :=
  ((List.sublist_cons_self b cs).append_left as).subset h

end GraphBlock
