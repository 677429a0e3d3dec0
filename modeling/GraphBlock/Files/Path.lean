import GraphBlock.Text.Pieces

/-!
# Paths

A path is a text whose names are separated by slashes.  Joining never normalises: it adds one
slash where the left side does not end in one, and an absolute right side replaces the left side.
`lineage` lists the path and its ancestors without the parts that name nothing: empty names, and
single dots other than a leading one.
-/

namespace GraphBlock

structure Path where
  text : String
  deriving DecidableEq, Repr

namespace Path

open Text

def isAbsolute (p : Path) : Bool :=
  p.text.toList.head? == some '/'

/-- The right side below the left side. -/
def join (p q : Path) : Path :=
  if q.isAbsolute || p.text == "" then q
  else if p.text.toList.getLast? == some '/' then ⟨p.text ++ q.text⟩
  else ⟨p.text ++ "/" ++ q.text⟩

/-- What stands between the slashes, empty names included. -/
def rawNames (p : Path) : List (List Char) :=
  pieces (· == '/') p.text.toList

/-- The names of a path from the left, single dots included. -/
def names (p : Path) : List (List Char) :=
  p.rawNames.filter (· ≠ [])

/-- A slash at the end asks for a directory. -/
def endsInSlash (p : Path) : Bool :=
  p.text.toList.getLast? == some '/'

def ofRawNames (names : List (List Char)) : Path :=
  ⟨String.ofList (['/'].intercalate names)⟩

/-- The nonempty beginnings of a row of names that end in a name that counts, the longest first.
The row is given from its end. -/
def beginnings (absolute : Bool) : List (List Char) → List (List (List Char))
  | [] => []
  | n :: before =>
    if n = [] || (n == ['.'] && (absolute || before ≠ [])) then beginnings absolute before
    else (n :: before).reverse :: beginnings absolute before

/-- The path and its ancestors, the longest first; the root and the empty path are left out. -/
def lineage (p : Path) : List Path :=
  if p.isAbsolute then
    (beginnings true p.rawNames.tail.reverse).map fun b => ofRawNames ([] :: b)
  else (beginnings false p.rawNames.reverse).map ofRawNames

/-- The path without its last name: none for the root and for the empty path. -/
def parent? (p : Path) : Option Path :=
  match p.lineage with
  | [] => none
  | [_] => some (if p.isAbsolute then ⟨"/"⟩ else ⟨""⟩)
  | _ :: q :: _ => some q

/-- The last name, unless it is a step upwards or there is none. -/
def fileName? (p : Path) : Option String :=
  match (p.rawNames.filter fun n => n ≠ [] && n ≠ ['.']).getLast? with
  | none => none
  | some n => if n = ['.', '.'] then none else some (String.ofList n)

end Path

end GraphBlock
