/-!
# Modifiers

What may follow an expression on its line: a style, a color, or a fragment of a restriction.
`classify` puts every text into exactly one of these classes, and what is neither a style nor a
color is a restriction.
-/

namespace GraphBlock

/-- How a curve or a point is drawn. -/
inductive Style where
  | solid
  | dashed
  | dotted
  | point
  | openPoint
  | cross
  deriving DecidableEq, Repr

/-- A text equals an uppercase name, but for the case of ASCII letters. -/
def matchesName (name token : String) : Bool :=
  token.toList.map Char.toUpper == name.toList

namespace Style

def all : List Style :=
  [solid, dashed, dotted, point, openPoint, cross]

def name : Style → String
  | solid => "SOLID"
  | dashed => "DASHED"
  | dotted => "DOTTED"
  | point => "POINT"
  | openPoint => "OPEN"
  | cross => "CROSS"

def ofToken? (token : String) : Option Style :=
  all.find? fun s => matchesName s.name token

def isPointStyle : Style → Bool
  | point | openPoint | cross => true
  | solid | dashed | dotted => false

end Style

inductive NamedColor where
  | red
  | blue
  | green
  | purple
  | orange
  | black
  deriving DecidableEq, Repr

namespace NamedColor

def all : List NamedColor :=
  [red, blue, green, purple, orange, black]

def name : NamedColor → String
  | red => "RED"
  | blue => "BLUE"
  | green => "GREEN"
  | purple => "PURPLE"
  | orange => "ORANGE"
  | black => "BLACK"

/-- What the renderer paints for the name. -/
def hex : NamedColor → String
  | red => "#c74440"
  | blue => "#2d70b3"
  | green => "#388c46"
  | purple => "#6042a6"
  | orange => "#fa7e19"
  | black => "#000000"

def ofToken? (token : String) : Option NamedColor :=
  all.find? fun c => matchesName c.name token

end NamedColor

inductive Color where
  | named (color : NamedColor)
  /-- A number sign and letters or digits, as written. -/
  | hex (text : String)
  deriving DecidableEq, Repr

namespace Color

/-- What the renderer paints. -/
def paint : Color → String
  | named c => c.hex
  | hex text => text

/-- The color as a block states it. -/
def text : Color → String
  | named c => c.name
  | hex text => text

/-- A number sign and at least one ASCII letter or digit. -/
def isHex : List Char → Bool
  | '#' :: s => s ≠ [] && s.all Char.isAlphanum
  | _ => false

end Color

inductive Modifier where
  | style (style : Style)
  | color (color : Color)
  | restriction (fragment : String)
  deriving DecidableEq, Repr

/-- Styles come before colors, and what is neither is a restriction. -/
def Modifier.classify (token : String) : Modifier :=
  match Style.ofToken? token with
  | some s => .style s
  | none =>
    match NamedColor.ofToken? token with
    | some c => .color (.named c)
    | none => if Color.isHex token.toList then .color (.hex token) else .restriction token

end GraphBlock
