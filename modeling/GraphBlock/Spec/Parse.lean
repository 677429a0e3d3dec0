import GraphBlock.Spec.Basic
import GraphBlock.Text.Pieces

/-!
# Compiling a block

`Spec.parse` is total: it gives a spec or the first error.  The separator is counted first, then
the settings entries are read in order, then the bounds are compared, then the equation lines are
read in order.
-/

namespace GraphBlock

open Text

/-- Characters that cannot be passed safely to the renderer: both quotes and the backtick. -/
def bannedCharacters : List Char :=
  ['\x22', '\x27', '\x60']

/-- The text itself, or its first banned character. -/
def checkBanned (value : String) : Except ParseError Unit :=
  match value.toList.find? bannedCharacters.contains with
  | some c => .error (.bannedCharacter c value)
  | none => .ok ()

/-- A whole number in decimal that fits 64 bits. -/
def readInt64? (s : List Char) : Option Int64 :=
  match Decimal.toInt? s with
  | some i =>
    if Int64.minValue.toInt ≤ i ∧ i ≤ Int64.maxValue.toInt then some (Int64.ofInt i) else none
  | none => none

/-- One trimmed settings entry: a key, an equals sign and a whole number. -/
def parseEntry (entry : List Char) : Except ParseError (FieldKey × Int64) :=
  match splitFirst '=' entry with
  | none => .error (.missingFieldValue (String.ofList entry))
  | some (before, after) =>
    let key := String.ofList (trim before)
    let value := trim after
    match FieldKey.ofName? key with
    | none => .error (.unrecognizedField key)
    | some k =>
      if value = [] then .error (.missingFieldValue key)
      else match readInt64? value with
        | none => .error (.invalidFieldType key (String.ofList value))
        | some i => .ok (k, i)

def endsEntry (c : Char) : Bool :=
  c == ';' || c == '\n'

/-- The settings in front of the separator. -/
def parseFields (block : List Char) : Except ParseError Fields :=
  (entries endsEntry block).mapM parseEntry >>= Fields.withOverrides

namespace Equation

/-- Adds one modifier.  A second style or a second color is an error, and so is a banned character
in a restriction. -/
def addToken (e : Equation) (token : String) : Except ParseError Equation :=
  match Modifier.classify token with
  | .style s =>
    match e.style with
    | some first => .error (.duplicateStyle e.expression first.name token)
    | none => .ok { e with style := some s }
  | .color c =>
    match e.color with
    | some first => .error (.duplicateColor e.expression first.text token)
    | none => .ok { e with color := some c }
  | .restriction fragment => do
    checkBanned fragment
    return { e with restrictions := e.restrictions ++ [fragment] }

/-- One trimmed line: an expression and modifiers between bars; blank modifiers are skipped. -/
def parse (line : List Char) : Except ParseError Equation :=
  match (pieces (· == '|') line).map trim with
  | [] | [] :: _ => .error (.emptyExpression (String.ofList line))
  | expression :: tokens => do
    checkBanned (String.ofList expression)
    ((tokens.filter (· ≠ [])).map String.ofList).foldlM addToken
      (ofExpression (String.ofList expression))

end Equation

/-- The equation lines behind the separator. -/
def parseBody (body : List Char) : Except ParseError (List Equation) :=
  (entries (· == '\n') body).mapM Equation.parse

/-- Compiles a block: equation lines, or settings, the separator and equation lines. -/
def Spec.parse (source : String) : Except ParseError Spec :=
  match segments source.toList with
  | [body] => return ofContent (← parseBody body) Fields.default
  | [settings, body] => do
    let fields ← parseFields settings
    return ofContent (← parseBody body) fields
  | parts => .error (.tooManySegments parts.length)

end GraphBlock
