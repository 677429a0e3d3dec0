import GraphBlock.Text.Decimal

/-!
# JSON documents

Values with ordered keys, and their text: `pretty` puts each element on a line of its own,
indented by two blanks a level.
-/

namespace GraphBlock

inductive Json where
  | null
  | number (n : Int)
  | string (s : String)
  | array (elements : List Json)
  | object (members : List (String × Json))

namespace Json

def hexDigit (n : Nat) : Char :=
  if n < 10 then Char.ofNat (48 + n) else Char.ofNat (87 + n)

/-- A quote, a backslash and the control characters below the blank are escaped. -/
def escape (c : Char) : List Char :=
  if c = '\x22' then ['\\', '\x22']
  else if c = '\\' then ['\\', '\\']
  else if c = '\x08' then ['\\', 'b']
  else if c = '\x0c' then ['\\', 'f']
  else if c = '\n' then ['\\', 'n']
  else if c = '\r' then ['\\', 'r']
  else if c = '\t' then ['\\', 't']
  else if c.toNat < 32 then
    ['\\', 'u', '0', '0', hexDigit (c.toNat / 16), hexDigit (c.toNat % 16)]
  else [c]

def quoted (s : String) : String :=
  "\"" ++ String.ofList (s.toList.flatMap escape) ++ "\""

/-- A line break and the indentation of a level. -/
def newline (level : Nat) : String :=
  "\n" ++ String.ofList (List.replicate (2 * level) ' ')

mutual

/-- The text of a value whose own line is indented by `level`. -/
def prettyAt (level : Nat) : Json → String
  | null => "null"
  | number n => String.ofList (Text.Decimal.ofInt n)
  | string s => quoted s
  | array [] => "[]"
  | array (e :: es) =>
    "[" ++ newline (level + 1) ++ prettyAt (level + 1) e ++ elementsAt (level + 1) es
      ++ newline level ++ "]"
  | object [] => "\x7b\x7d"
  | object (m :: ms) =>
    "\x7b" ++ newline (level + 1) ++ memberAt (level + 1) m ++ membersAt (level + 1) ms
      ++ newline level ++ "\x7d"

def elementsAt (level : Nat) : List Json → String
  | [] => ""
  | e :: es => "," ++ newline level ++ prettyAt level e ++ elementsAt level es

def memberAt (level : Nat) : String × Json → String
  | (key, value) => quoted key ++ ": " ++ prettyAt level value

def membersAt (level : Nat) : List (String × Json) → String
  | [] => ""
  | m :: ms => "," ++ newline level ++ memberAt level m ++ membersAt level ms

end

def pretty (j : Json) : String :=
  prettyAt 0 j

/-- A text, or null. -/
def ofOption : Option String → Json
  | none => null
  | some s => string s

end Json

end GraphBlock
