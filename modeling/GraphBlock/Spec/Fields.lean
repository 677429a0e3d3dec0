import GraphBlock.Spec.ParseError

/-!
# The render surface

Image size and viewport.  The type holds the two laws of a viewport, so every value of it has
`left < right` and `bottom < top`; `withOverrides` is where input meets them.
-/

namespace GraphBlock

structure Fields where
  width : Int64
  height : Int64
  left : Int64
  right : Int64
  bottom : Int64
  top : Int64
  left_lt_right : left < right
  bottom_lt_top : bottom < top
  deriving DecidableEq, Repr

namespace Fields

def get (f : Fields) : FieldKey → Int64
  | .width => f.width
  | .height => f.height
  | .left => f.left
  | .right => f.right
  | .bottom => f.bottom
  | .top => f.top

theorem ext_get {f g : Fields} (h : ∀ k, f.get k = g.get k) : f = g := by
  obtain ⟨w, h₁, l, r, b, t, hx, hy⟩ := f
  obtain ⟨w', h₁', l', r', b', t', hx', hy'⟩ := g
  have e₁ : w = w' := h .width
  have e₂ : h₁ = h₁' := h .height
  have e₃ : l = l' := h .left
  have e₄ : r = r' := h .right
  have e₅ : b = b' := h .bottom
  have e₆ : t = t' := h .top
  subst e₁ e₂ e₃ e₄ e₅ e₆
  rfl

/-- One value for each key, refused if a lower bound is not below its upper bound.  The horizontal
bounds are looked at first. -/
def ofValues (v : FieldKey → Int64) : Except ParseError Fields :=
  if hx : v .left < v .right then
    if hy : v .bottom < v .top then
      .ok ⟨v .width, v .height, v .left, v .right, v .bottom, v .top, hx, hy⟩
    else .error (.invalidBoundary .bottom (v .bottom) .top (v .top))
  else .error (.invalidBoundary .left (v .left) .right (v .right))

/-- Sets the value of one key. -/
def assign (v : FieldKey → Int64) (o : FieldKey × Int64) : FieldKey → Int64 :=
  fun k => if k = o.1 then o.2 else v k

/-- The defaults with the overrides set one after the other. -/
def overridden (overrides : List (FieldKey × Int64)) : FieldKey → Int64 :=
  overrides.foldl assign FieldKey.default

def withOverrides (overrides : List (FieldKey × Int64)) : Except ParseError Fields :=
  ofValues (overridden overrides)

/-- The surface of a block without settings. -/
def default : Fields :=
  ⟨600, 400, -10, 10, -7, 7, by decide, by decide⟩

theorem get_default (k : FieldKey) : default.get k = k.default := by
  cases k <;> rfl

theorem overridden_concat (overrides : List (FieldKey × Int64)) (o : FieldKey × Int64) :
    overridden (overrides ++ [o]) = assign (overridden overrides) o := by
  simp [overridden]

theorem withOverrides_nil : withOverrides [] = .ok default := rfl

theorem get_of_ofValues {v : FieldKey → Int64} {f : Fields} (h : ofValues v = .ok f)
    (k : FieldKey) : f.get k = v k := by
  simp only [ofValues] at h
  split at h
  · split at h
    · cases h
      cases k <;> rfl
    · cases h
  · cases h

theorem ofValues_get (f : Fields) : ofValues f.get = .ok f := by
  simp [ofValues, get, f.left_lt_right, f.bottom_lt_top]

end Fields

end GraphBlock
