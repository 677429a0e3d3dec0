import GraphBlock.Spec.Basic
import GraphBlock.Text.Json

/-!
# Requests

What the renderer is asked to draw: the viewport and one command for each equation, under the
fingerprint that its answer has to name.
-/

namespace GraphBlock

inductive LineStyle where
  | solid
  | dashed
  | dotted
  deriving DecidableEq, Repr

inductive PointStyle where
  | point
  | openPoint
  | cross
  deriving DecidableEq, Repr

/-- A style speaks of lines or of points. -/
def Style.split : Style → LineStyle ⊕ PointStyle
  | .solid => .inl .solid
  | .dashed => .inl .dashed
  | .dotted => .inl .dotted
  | .point => .inr .point
  | .openPoint => .inr .openPoint
  | .cross => .inr .cross

def LineStyle.name : LineStyle → String
  | solid => "SOLID"
  | dashed => "DASHED"
  | dotted => "DOTTED"

def PointStyle.name : PointStyle → String
  | point => "POINT"
  | openPoint => "OPEN"
  | cross => "CROSS"

structure PlotCommand where
  /-- The expression with its restriction behind it. -/
  latex : String
  color : Option String
  lineStyle : Option LineStyle
  pointStyle : Option PointStyle
  deriving DecidableEq, Repr

def Equation.command (e : Equation) : PlotCommand where
  latex := e.expression ++ e.restriction.getD ""
  color := e.color.map Color.paint
  lineStyle := e.style.bind fun s => s.split.getLeft?
  pointStyle := e.style.bind fun s => s.split.getRight?

structure Bounds where
  left : Int64
  right : Int64
  bottom : Int64
  top : Int64
  deriving DecidableEq, Repr

structure PlotRequest where
  fingerprint : String
  width : Int64
  height : Int64
  bounds : Bounds
  commands : List PlotCommand
  deriving DecidableEq, Repr

def Spec.request (s : Spec) : PlotRequest where
  fingerprint := s.fingerprint
  width := s.fields.width
  height := s.fields.height
  bounds := ⟨s.fields.left, s.fields.right, s.fields.bottom, s.fields.top⟩
  commands := s.equations.map Equation.command

/-- A member for a text that may be absent. -/
def memberIfSome (key : String) : Option String → List (String × Json)
  | none => []
  | some s => [(key, .string s)]

def PlotCommand.toJson (c : PlotCommand) : Json :=
  .object
    (("latex", .string c.latex) :: memberIfSome "color" c.color
      ++ memberIfSome "lineStyle" (c.lineStyle.map LineStyle.name)
      ++ memberIfSome "pointStyle" (c.pointStyle.map PointStyle.name))

def Bounds.toJson (b : Bounds) : Json :=
  .object
    [("left", .number b.left.toInt), ("right", .number b.right.toInt),
     ("bottom", .number b.bottom.toInt), ("top", .number b.top.toInt)]

def PlotRequest.toJson (r : PlotRequest) : Json :=
  .object
    [("fingerprint", .string r.fingerprint), ("width", .number r.width.toInt),
     ("height", .number r.height.toInt), ("bounds", r.bounds.toJson),
     ("commands", .array (r.commands.map PlotCommand.toJson))]

end GraphBlock
