import GraphBlock.Toml.Quoted
import GraphBlock.Toml.Scalar

/-!
# Reading TOML

Version 1.1 of the format.  A document is read into statements, one a line, and these are put
together into tables.  Every reader gives what it read and the rest of the text.  Arrays and tables
in braces nest at most eighty deep, and a key has at most eighty parts.
-/

namespace GraphBlock.Toml

def isLineBlank (c : Char) : Bool :=
  Quoted.isLineBlank c

def skipBlanks (s : List Char) : List Char :=
  s.dropWhile isLineBlank

/-- Skips blanks, line breaks and comments; a control character in a comment is an error, and so is
a carriage return without a line feed. -/
def skipLines (comment : Bool) : List Char → Option (List Char)
  | [] => some []
  | '\r' :: '\n' :: r => skipLines false r
  | c :: r =>
    if c = '\n' then skipLines false r
    else if comment then (if Quoted.isPlain c then skipLines true r else none)
    else if isLineBlank c then skipLines false r
    else if c = '#' then skipLines true r
    else some (c :: r)

/-- Behind a statement there may be blanks and a comment. -/
def endsLine (s : List Char) : Bool :=
  match skipBlanks s with
  | [] => true
  | '\n' :: _ => true
  | '\r' :: '\n' :: _ => true
  | c :: _ => c == '#'

def isKeyChar (c : Char) : Bool :=
  c.isAlphanum || c == '_' || c == '-'

/-- A key without dots, bare or in quotes. -/
def simpleKey (s : List Char) : Option (String × List Char) :=
  match s with
  | '\x22' :: _ | '\x27' :: _ =>
    (Quoted.readLine? s).map fun p => (String.ofList p.1, p.2)
  | _ =>
    let word := s.takeWhile isKeyChar
    if word = [] then none else some (String.ofList word, s.dropWhile isKeyChar)

/-- Keys with dots between them, and the blanks behind them; there are at most `n`. -/
def keyPath : Nat → List Char → Option (List String × List Char)
  | 0, _ => none
  | n + 1, s => do
    let (k, r) ← simpleKey (skipBlanks s)
    match skipBlanks r with
    | '.' :: r => return ((← keyPath n r).map (k :: ·) id)
    | r => return ([k], r)

/-- How deep values nest, and how many parts a key has. -/
def maxDepth : Nat := 80

def key (s : List Char) : Option (List String × List Char) :=
  keyPath maxDepth s

/-- The elements of an array behind its bracket; there are at most `n`. -/
def elements (value : List Char → Option (Node × List Char)) :
    Nat → List Char → Option (List Node × List Char)
  | 0, _ => none
  | n + 1, s => do
    match ← skipLines false s with
    | ']' :: r => return ([], r)
    | s =>
      let (v, r) ← value s
      match ← skipLines false r with
      | ',' :: r => return ((← elements value n r).map (v :: ·) id)
      | ']' :: r => return ([v], r)
      | _ => none

/-- A key, an equals sign and a value, with what `gap` skips on both sides of the sign. -/
def keyValue (gap : List Char → Option (List Char))
    (value : List Char → Option (Node × List Char)) (s : List Char) :
    Option (List String × Node × List Char) := do
  let (path, r) ← key s
  match ← gap r with
  | '=' :: r => do
    let (v, r) ← value (← gap r)
    return (path, v, r)
  | _ => none

/-- The entries of a table behind its brace, added to those before; there are at most `n`. -/
def members (value : List Char → Option (Node × List Char)) :
    Nat → Entries → List Char → Option (Entries × List Char)
  | 0, _, _ => none
  | n + 1, es, s => do
    match ← skipLines false s with
    | '\x7d' :: r => return (es, r)
    | s =>
      let (path, v, r) ← keyValue (skipLines false) value s
      let es ← es.insert true path v
      match ← skipLines false r with
      | ',' :: r => members value n es r
      | '\x7d' :: r => return (es, r)
      | _ => none

/-- A value; arrays and tables in braces nest at most `depth` deep in it. -/
def value (depth : Nat) (s : List Char) : Option (Node × List Char) :=
  match s with
  | '\x22' :: _ | '\x27' :: _ => (Quoted.read? s).map fun p => (.string (String.ofList p.1), p.2)
  | '[' :: r =>
    match depth with
    | 0 => none
    | depth + 1 => (elements (value depth) (r.length + 1) r).map fun p => (.array p.1, p.2)
  | '\x7b' :: r =>
    match depth with
    | 0 => none
    | depth + 1 =>
      (members (value depth) (r.length + 1) [] r).map fun p => (.table .braces p.1, p.2)
  | _ => Scalar.read? s

/-- One statement. -/
def statement (s : List Char) : Option (Statement × List Char) :=
  match s with
  | '[' :: '[' :: r => do
    match ← key r with
    | (path, ']' :: ']' :: r) => return (.element path, r)
    | _ => none
  | '[' :: r => do
    match ← key r with
    | (path, ']' :: r) => return (.header path, r)
    | _ => none
  | _ => do
    let (path, v, r) ← keyValue (some ∘ skipBlanks) (value maxDepth) s
    return (.value path v, r)

/-- The statements of a document, of which there are fewer than `n`. -/
def statements : Nat → List Char → Option (List Statement)
  | 0, _ => none
  | n + 1, s => do
    match ← skipLines false s with
    | [] => return []
    | s =>
      let (st, r) ← statement s
      if endsLine r then return st :: (← statements n r) else none

/-- A byte order mark in front is skipped. -/
def dropMark : List Char → List Char
  | '\uFEFF' :: s => s
  | s => s

/-- The root table of a document. -/
def parse (s : String) : Option Entries := do
  let text := dropMark s.toList
  assemble [] [] (← statements (text.length + 1) text)

end GraphBlock.Toml
