import GraphBlock.Spec.Modifier

/-!
# Equations

One plotted expression with what was said about it.  `line` writes an equation the way a block
states it: style first, then color, then the fragments in order.
-/

namespace GraphBlock

structure Equation where
  expression : String
  style : Option Style
  color : Option Color
  /-- Fragments in the order they were written, without braces. -/
  restrictions : List String
  deriving DecidableEq, Repr

namespace Equation

/-- An expression about which nothing is said. -/
def ofExpression (expression : String) : Equation :=
  ⟨expression, none, none, []⟩

def braced (fragment : String) : String :=
  "\x7b" ++ fragment ++ "\x7d"

/-- The fragments in braces, one after the other; none if there is no fragment. -/
def restriction (e : Equation) : Option String :=
  if e.restrictions = [] then none else some (String.join (e.restrictions.map braced))

/-- The modifiers as a block states them. -/
def tokens (e : Equation) : List String :=
  (e.style.map Style.name).toList ++ (e.color.map Color.text).toList ++ e.restrictions

def line (e : Equation) : String :=
  "|".intercalate (e.expression :: e.tokens)

end Equation

end GraphBlock
