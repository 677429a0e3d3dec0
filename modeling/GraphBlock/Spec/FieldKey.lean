/-!
# Settings keys

The six settings a graph block may state, in the order in which a spec is written and encoded.
-/

namespace GraphBlock

inductive FieldKey where
  | width
  | height
  | left
  | right
  | bottom
  | top
  deriving DecidableEq, Repr

namespace FieldKey

def all : List FieldKey :=
  [width, height, left, right, bottom, top]

def name : FieldKey → String
  | width => "width"
  | height => "height"
  | left => "left"
  | right => "right"
  | bottom => "bottom"
  | top => "top"

/-- The value of a key that a block does not state. -/
def default : FieldKey → Int64
  | width => 600
  | height => 400
  | left => -10
  | right => 10
  | bottom => -7
  | top => 7

/-- Names are matched exactly. -/
def ofName? (name : String) : Option FieldKey :=
  all.find? (·.name == name)

theorem mem_all (k : FieldKey) : k ∈ all := by
  cases k <;> decide

theorem name_injective {k l : FieldKey} (h : k.name = l.name) : k = l := by
  cases k <;> cases l <;> first | rfl | exact absurd h (by decide)

theorem ofName?_name (k : FieldKey) : ofName? k.name = some k := by
  cases k <;> decide

theorem name_of_ofName? {s : String} {k : FieldKey} (h : ofName? s = some k) : k.name = s := by
  simpa using List.find?_some h

end FieldKey

end GraphBlock
