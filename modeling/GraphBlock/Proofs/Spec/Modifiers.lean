import GraphBlock.Proofs.Rows
import GraphBlock.Spec.Parse
import Mathlib.Tactic.Tauto

/-!
# Reading the modifiers of a line

`classify` deals the tokens of a line out to three lists, the styles, the colors and the fragments.
A line's modifiers are accepted exactly if there is at most one style, at most one color and no
banned character in a fragment, and then the equation holds what the lists hold
(`foldlM_addToken_eq_ok_iff`).
-/

namespace GraphBlock

section Except

variable {ε α β : Type}

theorem bind_eq_ok_iff {x : Except ε α} {f : α → Except ε β} {b : β} :
    (x >>= f) = .ok b ↔ ∃ a, x = .ok a ∧ f a = .ok b := by
  rcases x with e | a <;> simp [bind, Except.bind]

theorem mapM_eq_ok_iff {f : α → Except ε β} : ∀ {as : List α} {bs : List β},
    as.mapM f = .ok bs ↔ List.Forall₂ (fun a b => f a = .ok b) as bs
  | [], bs => by
    simp only [List.mapM_nil, List.forall₂_nil_left_iff, pure, Except.pure, Except.ok.injEq]
    exact eq_comm
  | a :: as, bs => by
    simp only [List.mapM_cons, bind_eq_ok_iff, mapM_eq_ok_iff, pure, Except.pure, Except.ok.injEq,
      List.forall₂_cons_left_iff]
    constructor
    · rintro ⟨b, hb, bs', hbs, rfl⟩
      exact ⟨b, bs', hb, hbs, rfl⟩
    · rintro ⟨b, bs', hb, hbs, rfl⟩
      exact ⟨b, hb, bs', hbs, rfl⟩

theorem bind_eq_error_iff {x : Except ε α} {f : α → Except ε β} {d : ε} :
    (x >>= f) = .error d ↔ x = .error d ∨ ∃ a, x = .ok a ∧ f a = .error d := by
  rcases x with e | a <;> simp [bind, Except.bind]

/-- A row is refused at its first entry that is, and what stands before it was read. -/
theorem mapM_eq_error_iff {f : α → Except ε β} {as : List α} {d : ε} :
    as.mapM f = .error d ↔ ∃ before a after, as = before ++ a :: after
      ∧ (∀ b ∈ before, ∃ y, f b = .ok y) ∧ f a = .error d := by
  induction as with
  | nil => simp [pure, Except.pure]
  | cons a as ih =>
    simp only [List.mapM_cons, bind_eq_error_iff, ih, pure, Except.pure, reduceCtorEq, and_false,
      exists_false, or_false]
    constructor
    · rintro (h | ⟨b, hb, before, c, after, rfl, hbefore, hc⟩)
      · exact ⟨[], a, as, rfl, by simp, h⟩
      · exact ⟨a :: before, c, after, rfl, List.forall_mem_cons.2 ⟨⟨b, hb⟩, hbefore⟩, hc⟩
    · rintro ⟨_ | ⟨b, before⟩, c, after, heq, hbefore, hc⟩
      · obtain ⟨rfl, rfl⟩ := List.cons.inj heq
        exact .inl hc
      · obtain ⟨rfl, rfl⟩ := List.cons.inj heq
        obtain ⟨⟨y, hy⟩, hbefore⟩ := List.forall_mem_cons.1 hbefore
        exact .inr ⟨y, hy, before, c, after, rfl, hbefore, hc⟩

/-- A row of steps is refused at one step, from what the steps before it came to. -/
theorem foldlM_eq_error_iff {f : β → α → Except ε β} {as : List α} {b : β} {d : ε} :
    as.foldlM f b = .error d ↔ ∃ before a after c, as = before ++ a :: after
      ∧ before.foldlM f b = .ok c ∧ f c a = .error d := by
  induction as generalizing b with
  | nil => simp [pure, Except.pure]
  | cons a as ih =>
    simp only [List.foldlM_cons, bind_eq_error_iff, ih]
    constructor
    · rintro (h | ⟨x, hx, before, c, after, y, rfl, hy, hc⟩)
      · exact ⟨[], a, as, b, rfl, rfl, h⟩
      · exact ⟨a :: before, c, after, y, rfl, bind_eq_ok_iff.2 ⟨x, hx, hy⟩, hc⟩
    · rintro ⟨_ | ⟨x, before⟩, c, after, y, heq, hy, hc⟩
      · obtain ⟨rfl, rfl⟩ := List.cons.inj heq
        obtain rfl := Except.ok.inj hy
        exact .inl hc
      · obtain ⟨rfl, rfl⟩ := List.cons.inj heq
        obtain ⟨z, hz, hy⟩ := bind_eq_ok_iff.1 hy
        exact .inr ⟨z, hz, before, c, after, y, rfl, hy, hc⟩

theorem exists_of_mem_mapM {f : α → Except ε β} {as : List α} {bs : List β} {b : β}
    (h : as.mapM f = .ok bs) (hb : b ∈ bs) : ∃ a ∈ as, f a = .ok b :=
  exists_of_mem_forall₂ (R := fun a b => f a = .ok b) (mapM_eq_ok_iff.1 h) hb

end Except

/-- No quote and no backtick. -/
def Clean (s : List Char) : Prop :=
  ∀ c ∈ s, c ∉ bannedCharacters

theorem checkBanned_eq_ok_iff {value : String} {u : Unit} :
    checkBanned value = .ok u ↔ Clean value.toList := by
  unfold checkBanned
  split
  · rename_i c h
    simp only [reduceCtorEq, false_iff]
    intro hc
    exact hc c (List.mem_of_find?_eq_some h) (by simpa using List.find?_some h)
  · rename_i h
    simp only [true_iff]
    intro c hc hb
    exact List.find?_eq_none.1 h c hc (by simpa using hb)

namespace Modifier

def style? : Modifier → Option Style
  | style s => some s
  | color _ | restriction _ => none

def color? : Modifier → Option Color
  | color c => some c
  | style _ | restriction _ => none

def fragment? : Modifier → Option String
  | restriction f => some f
  | style _ | color _ => none

theorem classify_style_name (s : Style) : classify s.name = style s := by
  cases s <;> decide

theorem classify_named (c : NamedColor) : classify c.name = color (.named c) := by
  cases c <;> decide

theorem matchesName_of_isHex {name token : String} (hn : name.toList.head? ≠ some '#')
    (h : Color.isHex token.toList = true) : matchesName name token = false := by
  unfold Color.isHex at h
  split at h
  · rename_i s hs
    simp only [matchesName, hs, List.map_cons, beq_eq_false_iff_ne, ne_eq]
    intro he
    rw [← he] at hn
    exact hn rfl
  · simp at h

theorem classify_hex {token : String} (h : Color.isHex token.toList = true) :
    classify token = color (.hex token) := by
  have hs : Style.ofToken? token = none :=
    List.find?_eq_none.2 fun s _ => by
      rw [matchesName_of_isHex (by cases s <;> decide) h]
      simp
  have hc : NamedColor.ofToken? token = none :=
    List.find?_eq_none.2 fun c _ => by
      rw [matchesName_of_isHex (by cases c <;> decide) h]
      simp
  simp [classify, hs, hc, h]

/-- A fragment is its own token, and so is a color that is written by its number sign. -/
theorem classify_spec (token : String) :
    (∀ f, classify token = restriction f → f = token)
      ∧ ∀ t, classify token = color (.hex t) → t = token ∧ Color.isHex t.toList = true := by
  unfold classify
  split
  · simp
  · split
    · simp
    · split
      · rename_i h
        refine ⟨by simp, fun t ht => ?_⟩
        simp only [color.injEq, Color.hex.injEq] at ht
        exact ⟨ht.symm, ht ▸ h⟩
      · refine ⟨fun f hf => ?_, by simp⟩
        simpa using hf.symm

end Modifier

def stylesIn (tokens : List String) : List Style :=
  tokens.filterMap fun t => (Modifier.classify t).style?

def colorsIn (tokens : List String) : List Color :=
  tokens.filterMap fun t => (Modifier.classify t).color?

def fragmentsIn (tokens : List String) : List String :=
  tokens.filterMap fun t => (Modifier.classify t).fragment?

theorem filterMap_cons_eq_append {α β : Type} (f : α → Option β) (a : α) (as : List α) :
    (a :: as).filterMap f = (f a).toList ++ as.filterMap f := by
  rcases h : f a with _ | b <;> simp [h]

theorem stylesIn_cons (t : String) (tokens : List String) :
    stylesIn (t :: tokens) = (Modifier.classify t).style?.toList ++ stylesIn tokens :=
  filterMap_cons_eq_append ..

theorem colorsIn_cons (t : String) (tokens : List String) :
    colorsIn (t :: tokens) = (Modifier.classify t).color?.toList ++ colorsIn tokens :=
  filterMap_cons_eq_append ..

theorem fragmentsIn_cons (t : String) (tokens : List String) :
    fragmentsIn (t :: tokens) = (Modifier.classify t).fragment?.toList ++ fragmentsIn tokens :=
  filterMap_cons_eq_append ..

/-- Fragments are dealt to their own list only. -/
theorem dealt_of_fragments : ∀ {fs : List String},
    (∀ f ∈ fs, Modifier.classify f = .restriction f) →
      stylesIn fs = [] ∧ colorsIn fs = [] ∧ fragmentsIn fs = fs
  | [], _ => ⟨rfl, rfl, rfl⟩
  | f :: fs, h => by
    obtain ⟨hs, hc, hf⟩ := dealt_of_fragments fun g hg => h g (List.mem_cons_of_mem _ hg)
    simp [stylesIn_cons, colorsIn_cons, fragmentsIn_cons, h f List.mem_cons_self, hs, hc, hf,
      Modifier.style?, Modifier.color?, Modifier.fragment?]

theorem mem_fragmentsIn {tokens : List String} {f : String} :
    f ∈ fragmentsIn tokens ↔ f ∈ tokens ∧ Modifier.classify f = .restriction f := by
  simp only [fragmentsIn, List.mem_filterMap]
  constructor
  · rintro ⟨t, ht, hf⟩
    rcases hc : Modifier.classify t with s | c | g <;> rw [hc] at hf <;>
      simp only [Modifier.fragment?, reduceCtorEq, Option.some.injEq] at hf
    subst hf
    obtain rfl := (Modifier.classify_spec t).1 g hc
    exact ⟨ht, hc⟩
  · rintro ⟨ht, hc⟩
    exact ⟨f, ht, by rw [hc]; rfl⟩

theorem hex_of_mem_colorsIn {tokens : List String} {t : String}
    (h : Color.hex t ∈ colorsIn tokens) : t ∈ tokens ∧ Color.isHex t.toList = true := by
  obtain ⟨u, hu, hx⟩ := List.mem_filterMap.1 h
  rcases hc : Modifier.classify u with s | c | g <;> rw [hc] at hx <;>
    simp only [Modifier.color?, reduceCtorEq, Option.some.injEq] at hx
  subst hx
  obtain ⟨rfl, hex⟩ := (Modifier.classify_spec u).2 t hc
  exact ⟨hu, hex⟩

theorem toList_inj {α : Type} {x y : Option α} : x.toList = y.toList ↔ x = y := by
  cases x <;> cases y <;> simp

namespace Equation

/-- Tokens are accepted in a row exactly if no second style, no second color and no banned
character is among them and what is there already, and then they are all kept in order. -/
theorem foldlM_addToken_eq_ok_iff : ∀ {tokens : List String} {e d : Equation},
    tokens.foldlM addToken e = .ok d ↔
      d.expression = e.expression ∧ d.style.toList = e.style.toList ++ stylesIn tokens
        ∧ d.color.toList = e.color.toList ++ colorsIn tokens
        ∧ d.restrictions = e.restrictions ++ fragmentsIn tokens
        ∧ ∀ f ∈ fragmentsIn tokens, Clean f.toList
  | [], e, d => by
    obtain ⟨x, s, c, r⟩ := e
    obtain ⟨x', s', c', r'⟩ := d
    simp only [List.foldlM_nil, pure, Except.pure, Except.ok.injEq, stylesIn, colorsIn,
      fragmentsIn, List.filterMap_nil, List.append_nil, List.not_mem_nil, false_implies,
      implies_true, and_true, toList_inj, mk.injEq]
    exact ⟨fun ⟨h₁, h₂, h₃, h₄⟩ => ⟨h₁.symm, h₂.symm, h₃.symm, h₄.symm⟩,
      fun ⟨h₁, h₂, h₃, h₄⟩ => ⟨h₁.symm, h₂.symm, h₃.symm, h₄.symm⟩⟩
  | t :: tokens, e, d => by
    simp only [List.foldlM_cons, bind_eq_ok_iff, stylesIn_cons, colorsIn_cons, fragmentsIn_cons]
    rcases hc : Modifier.classify t with s | c | f
    · rcases hs : e.style with _ | first
      · simp [addToken, hc, hs, foldlM_addToken_eq_ok_iff, Modifier.style?, Modifier.color?,
          Modifier.fragment?]
      · have hd : d.style.toList ≠ first :: s :: stylesIn tokens := by
          cases d.style <;> simp
        simp [addToken, hc, hs, Modifier.style?, hd]
    · rcases hs : e.color with _ | first
      · simp [addToken, hc, hs, foldlM_addToken_eq_ok_iff, Modifier.style?, Modifier.color?,
          Modifier.fragment?]
      · have hd : d.color.toList ≠ first :: c :: colorsIn tokens := by
          cases d.color <;> simp
        simp [addToken, hc, hs, Modifier.color?, hd]
    · simp only [addToken, hc, bind_eq_ok_iff, checkBanned_eq_ok_iff, pure, Except.pure,
        Except.ok.injEq, ↓existsAndEq, and_true, exists_const, foldlM_addToken_eq_ok_iff,
        Modifier.style?, Modifier.color?, Modifier.fragment?, Option.toList_none,
        Option.toList_some, List.nil_append, List.append_assoc, List.cons_append, List.mem_cons,
        forall_eq_or_imp]
      tauto

end Equation

end GraphBlock
