import GraphBlock.Proofs.Render.Listeners
import GraphBlock.Proofs.Rows

/-!
# A router and the listeners in use

A router serves a list of listeners if these are what it has handed out and not seen the end of
(`Router.Serves`): they could stand in the slots of an exchange.  Registering adds the new listener
at the end and releasing takes one out.  So many of them are pending for a fingerprint as have it
and no outcome (`Serves.pending_eq`), and a completion reaches exactly those
(`Serves.outcome?_dispatch`, `Serves.outcome?_listen`).
-/

namespace GraphBlock.Router

variable {r : Router} {ls as bs : List Listener} {l m : Listener}

def Serves (r : Router) (ls : List Listener) : Prop :=
  (ls.map Listener.id).Nodup
    ∧ ∃ slots, Exchange.Coherent ⟨r, slots⟩
      ∧ ∀ l, l ∈ ls ↔ ∃ n, Exchange.listener? ⟨r, slots⟩ n = some l

theorem serves_trusting (origin : String) : (trusting origin).Serves [] :=
  ⟨List.nodup_nil, [], Exchange.coherent_trusting origin, by simp [Exchange.listener?]⟩

/-- Who serves nobody has nobody on the registry and nothing to hand out. -/
theorem serves_nil_iff : r.Serves [] ↔ r.waiting = [] ∧ r.delivered = [] := by
  constructor
  · rintro ⟨-, slots, hc, hmem⟩
    have hnone : ∀ n, Exchange.listener? ⟨r, slots⟩ n = none := fun n => by
      rcases hn : Exchange.listener? ⟨r, slots⟩ n with _ | l
      · rfl
      · exact absurd ((hmem l).2 ⟨n, hn⟩) List.not_mem_nil
    refine ⟨?_, ?_⟩
    · rcases hw : r.waiting with _ | ⟨⟨g, _ | ⟨n, ids⟩⟩, xs⟩
      · rfl
      · exact absurd rfl (hc.tidy.nonempty (g, []) (by simp [hw]))
      · have hn : n ∈ r.waitingOn g := by simp [waitingOn, hw]
        obtain ⟨l, hl, -⟩ := (hc.waiting g n).1 hn
        rw [hnone] at hl
        simp at hl
    · rcases hd : r.delivered with _ | ⟨⟨n, o⟩, xs⟩
      · rfl
      · have ho := hc.delivered ⟨n, ""⟩ (hnone n)
        simp [outcome?, hd] at ho
  · rintro ⟨hw, hd⟩
    have hnone : ∀ n, Exchange.listener? ⟨r, List.replicate r.nextId none⟩ n = none := fun n => by
      rw [Exchange.listener?, List.getElem?_replicate]
      split <;> rfl
    refine ⟨List.nodup_nil, List.replicate r.nextId none, ⟨⟨?_, ?_⟩, ?_, ?_, ?_, ?_, ?_⟩, ?_⟩
    · simp [hw]
    · simp [hw]
    · simp
    · simp [hnone]
    · simp [hnone, waitingOn, hw]
    · simp [waitingOn, hw]
    · simp [outcome?, hd]
    · simp [hnone]

theorem outcome?_of_release {o : Outcome} (h : (r.release l).outcome? m = some o) :
    r.outcome? m = some o := by
  rw [Router.outcome?_release] at h
  split at h
  · simp at h
  · exact h

namespace Serves

theorem tidy (h : r.Serves ls) : r.Tidy := by
  obtain ⟨-, slots, hc, -⟩ := h
  exact hc.tidy

theorem perm (h : r.Serves as) (hperm : as.Perm bs) : r.Serves bs := by
  obtain ⟨hnodup, slots, hc, hmem⟩ := h
  exact ⟨((hperm.map _).nodup_iff).1 hnodup, slots, hc, fun l => hperm.mem_iff.symm.trans (hmem l)⟩

theorem id_ne (h : r.Serves (as ++ l :: bs)) (hm : m ∈ as ++ bs) : m.id ≠ l.id := by
  have hnodup := h.1
  rw [List.map_append, List.map_cons, List.nodup_middle, ← List.map_append, List.nodup_cons]
    at hnodup
  intro heq
  exact hnodup.1 (List.mem_map.2 ⟨m, hm, heq⟩)

theorem id_lt (h : r.Serves ls) (hl : l ∈ ls) : l.id < r.nextId := by
  obtain ⟨-, slots, hc, hmem⟩ := h
  obtain ⟨n, hn⟩ := (hmem l).1 hl
  rw [hc.id n l hn, hc.next]
  exact Exchange.lt_of_listener? hn

theorem register (h : r.Serves ls) (f : String) :
    (r.register f).1.Serves (ls ++ [(r.register f).2]) := by
  have hfresh : r.nextId ∉ ls.map Listener.id := fun hn => by
    obtain ⟨l, hl, hid⟩ := List.mem_map.1 hn
    exact absurd (hid ▸ h.id_lt hl) (Nat.lt_irrefl _)
  obtain ⟨hnodup, slots, hc, hmem⟩ := h
  refine ⟨?_, slots ++ [some (r.register f).2], hc.register f, fun l => ?_⟩
  · rw [List.map_append, List.nodup_append]
    refine ⟨hnodup, List.nodup_singleton _, fun a ha b hb hab => hfresh ?_⟩
    rw [hab, List.mem_singleton.1 hb] at ha
    exact ha
  · have hreg : ∀ n, Exchange.listener? ⟨(r.register f).1, slots ++ [some (r.register f).2]⟩ n
        = if n = slots.length then some (r.register f).2 else Exchange.listener? ⟨r, slots⟩ n :=
      Exchange.listener?_register ⟨r, slots⟩ f
    rw [List.mem_append, List.mem_singleton, hmem]
    constructor
    · rintro (⟨n, hn⟩ | rfl)
      · refine ⟨n, ?_⟩
        rw [hreg, if_neg (Nat.ne_of_lt (Exchange.lt_of_listener? hn)), hn]
      · exact ⟨slots.length, by rw [hreg, if_pos rfl]⟩
    · rintro ⟨n, hn⟩
      rw [hreg] at hn
      split at hn
      · exact .inr (Option.some.inj hn).symm
      · exact .inl ⟨n, hn⟩

theorem dispatch (h : r.Serves ls) (c : Completion) : (r.dispatch c).1.Serves ls := by
  obtain ⟨hnodup, slots, hc, hmem⟩ := h
  exact ⟨hnodup, slots, hc.dispatch c, hmem⟩

theorem listen : ∀ (cs : List Completion) {r : Router}, r.Serves ls → (r.listen cs).Serves ls
  | [], _, h => h
  | c :: cs, _, h => listen cs (h.dispatch c)

theorem release (h : r.Serves (as ++ l :: bs)) : (r.release l).Serves (as ++ bs) := by
  have hne : ∀ m ∈ as ++ bs, m.id ≠ l.id := fun m hm => h.id_ne hm
  obtain ⟨hnodup, slots, hc, hmem⟩ := h
  obtain ⟨n, hn⟩ := (hmem l).1 (List.mem_append_right _ List.mem_cons_self)
  refine ⟨?_, slots.set n none, hc.clear hn, fun m => ?_⟩
  · rw [List.map_append, List.map_cons, List.nodup_middle, ← List.map_append, List.nodup_cons]
      at hnodup
    exact hnodup.2
  · have hclear : ∀ k, Exchange.listener? ⟨r.release l, slots.set n none⟩ k
        = if k = n then none else Exchange.listener? ⟨r, slots⟩ k :=
      Exchange.listener?_clear ⟨r, slots⟩ n l
    constructor
    · intro hm
      obtain ⟨k, hk⟩ := (hmem m).1 (mem_middle hm)
      have hkn : k ≠ n := fun he => hne m hm (by rw [hc.id k m hk, hc.id n l hn, he])
      exact ⟨k, by rw [hclear, if_neg hkn, hk]⟩
    · rintro ⟨k, hk⟩
      rw [hclear] at hk
      split at hk
      · simp at hk
      · rename_i hkn
        have hm := (hmem m).2 ⟨k, hk⟩
        simp only [List.mem_append, List.mem_cons] at hm ⊢
        rcases hm with hm | rfl | hm
        · exact .inl hm
        · exact absurd ((hc.id k m hk).symm.trans (hc.id n m hn)) hkn
        · exact .inr hm

theorem pending_eq (h : r.Serves ls) (f : String) :
    r.pending f = ls.countP fun l => l.fingerprint = f ∧ r.outcome? l = none := by
  obtain ⟨hnodup, slots, hc, hmem⟩ := h
  rw [List.countP_eq_length_filter, pending]
  refine (List.Perm.length_eq ((List.perm_ext_iff_of_nodup (hc.nodup f)
    ((List.filter_sublist.map _).nodup hnodup)).2 fun n => ?_)).trans (List.length_map Listener.id)
  rw [hc.waiting, List.mem_map]
  constructor
  · rintro ⟨l, hl, hf, hnone⟩
    exact ⟨l, List.mem_filter.2 ⟨(hmem l).2 ⟨n, hl⟩, by simpa using ⟨hf, hnone⟩⟩, hc.id n l hl⟩
  · rintro ⟨l, hl, rfl⟩
    obtain ⟨hl, hp⟩ := List.mem_filter.1 hl
    obtain ⟨k, hk⟩ := (hmem l).1 hl
    obtain ⟨hf, hnone⟩ := of_decide_eq_true hp
    exact ⟨l, by rw [hc.id k l hk, hk], hf, hnone⟩

theorem outcome?_dispatch (h : r.Serves ls) (hl : l ∈ ls) (c : Completion) :
    (r.dispatch c).1.outcome? l
      = (r.outcome? l).or (Exchange.firstMatch r.origin l.fingerprint [c]) := by
  obtain ⟨-, slots, hc, hmem⟩ := h
  obtain ⟨n, hn⟩ := (hmem l).1 hl
  exact hc.outcome?_dispatch hn c

theorem outcome?_listen (h : r.Serves ls) (hl : l ∈ ls) (cs : List Completion) :
    (r.listen cs).outcome? l
      = (r.outcome? l).or (Exchange.firstMatch r.origin l.fingerprint cs) := by
  obtain ⟨-, slots, hc, hmem⟩ := h
  obtain ⟨n, hn⟩ := (hmem l).1 hl
  exact Exchange.outcome?_listen cs hc hn

theorem outcome?_register (h : r.Serves ls) (f : String) :
    (r.register f).1.outcome? (r.register f).2 = none := by
  obtain ⟨-, slots, hc, -⟩ := h
  exact hc.delivered _ (Exchange.listener?_of_le (Nat.le_of_eq hc.next.symm))

theorem outcome?_release (h : r.Serves (as ++ l :: bs)) (hm : m ∈ as ++ bs) :
    (r.release l).outcome? m = r.outcome? m := by
  rw [Router.outcome?_release, if_neg (h.id_ne hm)]

end Serves

end GraphBlock.Router
