import GraphBlock.Spec.Basic
import GraphBlock.Text.Json

/-!
# A spec as JSON

The compiled form that is shown to a user: all equations, all settings and the fingerprint.
-/

namespace GraphBlock

def Equation.toJson (e : Equation) : Json :=
  .object
    [("expression", .string e.expression),
     ("style", .ofOption (e.style.map Style.name)),
     ("color", .ofOption (e.color.map Color.text)),
     ("restrictions", .array (e.restrictions.map .string))]

def Fields.toJson (f : Fields) : Json :=
  .object (FieldKey.all.map fun k => (k.name, .number (f.get k).toInt))

def Spec.toJson (s : Spec) : Json :=
  .object
    [("equations", .array (s.equations.map Equation.toJson)),
     ("fields", s.fields.toJson),
     ("fingerprint", .string s.fingerprint)]

end GraphBlock
