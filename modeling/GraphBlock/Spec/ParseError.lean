import GraphBlock.Spec.FieldKey
import GraphBlock.Text.Decimal

/-!
# Why a block does not compile

Each cause carries what it is about.  `kind` is its short name and `message` its wording.
-/

namespace GraphBlock

inductive ParseError where
  /-- The separator occurs more than once. -/
  | tooManySegments (found : Nat)
  /-- A settings entry without an equals sign, or a key with a blank value. -/
  | missingFieldValue (key : String)
  /-- A value that is no whole number of 64 bits. -/
  | invalidFieldType (key value : String)
  | unrecognizedField (key : String)
  /-- A quote or a backtick, with the expression or restriction it stands in. -/
  | bannedCharacter (character : Char) (value : String)
  | duplicateStyle (expression first second : String)
  | duplicateColor (expression first second : String)
  /-- A lower bound that is not below its upper bound. -/
  | invalidBoundary (lowerKey : FieldKey) (lower : Int64) (upperKey : FieldKey) (upper : Int64)
  | emptyExpression (line : String)
  deriving DecidableEq, Repr

namespace ParseError

def kind : ParseError → String
  | tooManySegments .. => "TooManySegments"
  | missingFieldValue .. => "MissingFieldValue"
  | invalidFieldType .. => "InvalidFieldType"
  | unrecognizedField .. => "UnrecognizedField"
  | bannedCharacter .. => "BannedCharacter"
  | duplicateStyle .. => "DuplicateStyle"
  | duplicateColor .. => "DuplicateColor"
  | invalidBoundary .. => "InvalidBoundary"
  | emptyExpression .. => "EmptyExpression"

/-- A character between apostrophes; an apostrophe itself is escaped. -/
def quoted (c : Char) : String :=
  if c = '\x27' then "'\\''" else "'" ++ String.singleton c ++ "'"

def number (i : Int64) : String :=
  String.ofList (Text.Decimal.ofInt i.toInt)

def message : ParseError → String
  | tooManySegments found =>
    "Too many segments: expected at most one '---' separator, found "
      ++ String.ofList (Text.Decimal.ofNat found) ++ " segments"
  | missingFieldValue key => "Field '" ++ key ++ "' is missing a value"
  | invalidFieldType key value => "Field '" ++ key ++ "' expects an integer, got '" ++ value ++ "'"
  | unrecognizedField key => "Unrecognized field '" ++ key ++ "'"
  | bannedCharacter c value => "Banned character " ++ quoted c ++ " in '" ++ value ++ "'"
  | duplicateStyle expression first second =>
    "Equation '" ++ expression ++ "' has more than one style: '" ++ first ++ "' and '" ++ second
      ++ "'"
  | duplicateColor expression first second =>
    "Equation '" ++ expression ++ "' has more than one color: '" ++ first ++ "' and '" ++ second
      ++ "'"
  | invalidBoundary lowerKey lower upperKey upper =>
    "Invalid boundary: " ++ lowerKey.name ++ " (" ++ number lower ++ ") must be less than "
      ++ upperKey.name ++ " (" ++ number upper ++ ")"
  | emptyExpression line => "Equation line '" ++ line ++ "' has no expression"

end ParseError

end GraphBlock
