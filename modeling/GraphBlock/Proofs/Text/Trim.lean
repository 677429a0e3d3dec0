import GraphBlock.Text.Blank
import Mathlib.Data.List.DropRight

/-!
# What trimming leaves

`trim` leaves an infix of the text (`trim_isInfix`) that has no blank at either end (`tight_trim`),
and leaves a text without blank ends as it is (`Tight.trim_eq`).
-/

namespace GraphBlock.Text

/-- Neither the first character nor the last is blank. -/
structure Tight (s : List Char) : Prop where
  head : ∀ c ∈ s.head?, isBlank c = false
  last : ∀ c ∈ s.getLast?, isBlank c = false

theorem tight_of_forall {s : List Char} (h : ∀ c ∈ s, isBlank c = false) : Tight s :=
  ⟨fun c hc => h c (List.mem_of_mem_head? hc), fun c hc => h c (List.mem_of_getLast? hc)⟩

/-- The visible characters of ASCII are not blank. -/
theorem isBlank_of_visible {c : Char} (h₁ : 33 ≤ c.toNat) (h₂ : c.toNat ≤ 126) :
    isBlank c = false := by
  simp only [isBlank, Bool.or_eq_false_iff, Bool.and_eq_false_iff, decide_eq_false_iff_not,
    beq_eq_false_iff_ne]
  omega

theorem trimEnd_isPrefix (s : List Char) : trimEnd s <+: s :=
  List.rdropWhile_prefix isBlank s

theorem trimStart_isSuffix (s : List Char) : trimStart s <:+ s :=
  List.dropWhile_suffix isBlank

theorem trim_isInfix (s : List Char) : trim s <:+: s :=
  (trimEnd_isPrefix _).isInfix.trans (trimStart_isSuffix s).isInfix

theorem head?_trimStart (s : List Char) : ∀ c ∈ (trimStart s).head?, isBlank c = false := by
  intro c hc
  have h := List.head?_dropWhile_not isBlank s
  rw [trimStart, Option.mem_def] at hc
  rwa [hc] at h

theorem getLast?_trimEnd (s : List Char) : ∀ c ∈ (trimEnd s).getLast?, isBlank c = false := by
  intro c hc
  have hne : trimEnd s ≠ [] := by
    rintro h
    simp [h] at hc
  rw [List.getLast?_eq_some_getLast hne, Option.mem_def, Option.some.injEq] at hc
  subst hc
  exact Bool.eq_false_iff.2 (List.rdropWhile_last_not isBlank s hne)

theorem tight_trim (s : List Char) : Tight (trim s) := by
  refine ⟨fun c hc => ?_, getLast?_trimEnd _⟩
  obtain ⟨t, ht⟩ := trimEnd_isPrefix (trimStart s)
  apply head?_trimStart s
  rw [← ht, List.head?_append]
  simp only [trim] at hc
  simp [Option.mem_def.1 hc]

theorem Tight.trim_eq {s : List Char} (h : Tight s) : trim s = s := by
  have hstart : trimStart s = s := by
    rcases s with _ | ⟨c, s⟩
    · rfl
    · exact List.dropWhile_cons_of_neg (by simp [h.head c rfl])
  have hend : trimEnd s = s := by
    refine List.rdropWhile_eq_self_iff.2 fun hne => ?_
    simp [h.last _ (List.getLast?_eq_some_getLast hne)]
  rw [trim, hstart, hend]

theorem trim_cons_blank {c : Char} (h : isBlank c = true) (s : List Char) :
    trim (c :: s) = trim s := by
  simp only [trim, trimStart, List.dropWhile_cons_of_pos h]

theorem trim_concat_blank {c : Char} (h : isBlank c = true) (s : List Char) :
    trim (s ++ [c]) = trim s := by
  have hstart : trimStart (s ++ [c]) = trimStart s ∨ trimStart (s ++ [c]) = trimStart s ++ [c] := by
    rw [trimStart, trimStart, List.dropWhile_append]
    split
    · rename_i hs
      rw [List.isEmpty_iff.1 hs]
      exact .inl (List.dropWhile_cons_of_pos h)
    · exact .inr rfl
  rw [trim, trim]
  rcases hstart with hs | hs
  · rw [hs]
  · rw [hs]
    exact List.rdropWhile_concat_pos isBlank _ c h

theorem trim_blank_append : ∀ {p : List Char}, (∀ c ∈ p, isBlank c = true) →
    ∀ s, trim (p ++ s) = trim s
  | [], _, _ => rfl
  | c :: p, h, s => by
    rw [List.cons_append, trim_cons_blank (h c List.mem_cons_self)]
    exact trim_blank_append (fun d hd => h d (List.mem_cons_of_mem _ hd)) s

theorem trim_append_blank {p : List Char} (h : ∀ c ∈ p, isBlank c = true) (s : List Char) :
    trim (s ++ p) = trim s := by
  induction p using List.reverseRecOn with
  | nil => rw [List.append_nil]
  | append_singleton p c ih =>
    rw [← List.append_assoc, trim_concat_blank (h c (by simp))]
    exact ih fun d hd => h d (List.mem_append_left _ hd)

/-- A text is what trimming leaves, with blanks around it. -/
theorem exists_padding (s : List Char) : ∃ p q, s = p ++ trim s ++ q
    ∧ (∀ c ∈ p, isBlank c = true) ∧ ∀ c ∈ q, isBlank c = true := by
  refine ⟨s.takeWhile isBlank, ((trimStart s).reverse.takeWhile isBlank).reverse, ?_,
    fun c => List.mem_takeWhile_imp, fun c hc => ?_⟩
  · have hend : trim s ++ ((trimStart s).reverse.takeWhile isBlank).reverse = trimStart s := by
      rw [trim, trimEnd, ← List.reverse_append, List.takeWhile_append_dropWhile,
        List.reverse_reverse]
    rw [List.append_assoc, hend, trimStart, List.takeWhile_append_dropWhile]
  · exact List.mem_takeWhile_imp (List.mem_reverse.1 hc)

/-- Trimming drops nothing but blanks. -/
theorem blank_or_mem_trim {c : Char} {s : List Char} (h : c ∈ s) :
    isBlank c = true ∨ c ∈ trim s := by
  rw [← List.takeWhile_append_dropWhile (p := isBlank) (l := s), List.mem_append] at h
  rcases h with h | h
  · exact .inl (List.mem_takeWhile_imp h)
  · change c ∈ trimStart s at h
    rw [← List.mem_reverse, ← List.takeWhile_append_dropWhile (p := isBlank)
      (l := (trimStart s).reverse), List.mem_append] at h
    exact h.imp List.mem_takeWhile_imp List.mem_reverse.2

theorem trim_ne_nil_iff {s : List Char} : trim s ≠ [] ↔ ∃ c ∈ s, isBlank c = false := by
  constructor
  · intro h
    obtain ⟨c, t, ht⟩ := List.exists_cons_of_ne_nil h
    exact ⟨c, (trim_isInfix s).subset (ht ▸ List.mem_cons_self),
      (tight_trim s).head c (by simp [ht])⟩
  · rintro ⟨c, hc, hb⟩ h
    rcases blank_or_mem_trim hc with h' | h'
    · simp [hb] at h'
    · simp [h] at h'

theorem trim_eq_nil_iff {s : List Char} : trim s = [] ↔ ∀ c ∈ s, isBlank c = true := by
  rw [← not_iff_not, ← ne_eq, trim_ne_nil_iff]
  simp

/-- White space that stands on one line. -/
def Padding (p : List Char) : Prop :=
  ∀ c ∈ p, isBlank c = true ∧ c ≠ '\n'

namespace Padding

variable {p q : List Char}

theorem nil : Padding [] := by
  simp [Padding]

theorem singleton {c : Char} (hb : isBlank c = true) (hn : c ≠ '\n') : Padding [c] := by
  intro d hd
  obtain rfl := List.mem_singleton.1 hd
  exact ⟨hb, hn⟩

theorem blank (h : Padding p) : ∀ c ∈ p, isBlank c = true :=
  fun c hc => (h c hc).1

theorem not_mem (h : Padding p) {c : Char} (hc : isBlank c = false) : c ∉ p := by
  intro hm
  simp [h.blank c hm] at hc

theorem trim_eq (h : Padding p) : trim p = [] :=
  trim_eq_nil_iff.2 h.blank

theorem trim_padded (hp : Padding p) (hq : Padding q) (s : List Char) :
    trim (p ++ s ++ q) = trim s := by
  rw [trim_append_blank hq.blank, trim_blank_append hp.blank]

end Padding

/-- Two tight texts with anything between them are a tight text. -/
theorem Tight.append {a b : List Char} (ha : Tight a) (hb : Tight b) (hna : a ≠ [])
    (hnb : b ≠ []) (m : List Char) : Tight (a ++ m ++ b) := by
  obtain ⟨c, a, rfl⟩ := List.exists_cons_of_ne_nil hna
  refine ⟨fun d hd => ha.head d (by simpa using hd), fun d hd => hb.last d ?_⟩
  rwa [List.getLast?_append_of_ne_nil _ hnb] at hd

end GraphBlock.Text
