import GraphBlock.Text.Decimal

/-!
# Strings in TOML

Four written forms, each read by a function over characters.  `write` takes the plainest form that
needs no escape: double quotes, single quotes, then the forms of several lines, and falls back to
escapes.
-/

namespace GraphBlock.Toml.Quoted

/-- A character that stands for itself, delimiters apart: a tab or no control character. -/
def isPlain (c : Char) : Bool :=
  c = '\t' || (32 ≤ c.toNat && c.toNat ≠ 127)

def hexValue? (c : Char) : Option Nat :=
  let n := c.toNat
  if 48 ≤ n && n ≤ 57 then some (n - 48)
  else if 65 ≤ n && n ≤ 70 then some (n - 55)
  else if 97 ≤ n && n ≤ 102 then some (n - 87)
  else none

/-- The character with a hexadecimal code; surrogates and larger numbers have none. -/
def unicode? (digits : List Char) : Option Char := do
  let n ← digits.foldlM (fun n c => (hexValue? c).map (16 * n + ·)) 0
  if n.isValidChar then some (Char.ofNat n) else none

/-- The character that a letter behind a backslash stands for. -/
def escape? : Char → Option Char
  | 'b' => some '\x08'
  | 'e' => some '\x1b'
  | 't' => some '\t'
  | 'n' => some '\n'
  | 'f' => some '\x0c'
  | 'r' => some '\r'
  | '\x22' => some '\x22'
  | '\\' => some '\\'
  | _ => none

abbrev Reading := Option (List Char × List Char)

/-- One more character in front of what was read. -/
def push (c : Char) (r : Reading) : Reading :=
  r.map fun p => (c :: p.1, p.2)

/-- One more character in front of what was read, if there is one. -/
def push? (c : Option Char) (r : Reading) : Reading :=
  match c with
  | some c => push c r
  | none => none

/-- Reads up to a double quote, with escapes. -/
def basic : List Char → Reading
  | '\x22' :: r => some ([], r)
  | '\\' :: 'x' :: a :: b :: r => push? (unicode? [a, b]) (basic r)
  | '\\' :: 'u' :: a :: b :: c :: d :: r => push? (unicode? [a, b, c, d]) (basic r)
  | '\\' :: 'U' :: a :: b :: c :: d :: e :: f :: g :: h :: r =>
    push? (unicode? [a, b, c, d, e, f, g, h]) (basic r)
  | '\\' :: c :: r => push? (escape? c) (basic r)
  | c :: r => if isPlain c && c ≠ '\\' then push c (basic r) else none
  | [] => none

/-- Reads up to a single quote, without escapes. -/
def literal : List Char → Reading
  | '\x27' :: r => some ([], r)
  | c :: r => if isPlain c then push c (literal r) else none
  | [] => none

def isLineBlank (c : Char) : Bool :=
  c = ' ' || c = '\t'

/-- Nothing but blanks up to the end of the line. -/
def lineEnds (s : List Char) : Bool :=
  match s.dropWhile isLineBlank with
  | '\n' :: _ => true
  | '\r' :: '\n' :: _ => true
  | _ => false

/-- Reads up to three double quotes, with escapes and line breaks; one or two more quotes belong to
the text.  After a backslash at the end of a line white space is skipped. -/
def basicLines (skip : Bool) : List Char → Reading
  | '\x22' :: '\x22' :: '\x22' :: '\x22' :: '\x22' :: r => some (['\x22', '\x22'], r)
  | '\x22' :: '\x22' :: '\x22' :: '\x22' :: r => some (['\x22'], r)
  | '\x22' :: '\x22' :: '\x22' :: r => some ([], r)
  | '\\' :: 'x' :: a :: b :: r => push? (unicode? [a, b]) (basicLines false r)
  | '\\' :: 'u' :: a :: b :: c :: d :: r => push? (unicode? [a, b, c, d]) (basicLines false r)
  | '\\' :: 'U' :: a :: b :: c :: d :: e :: f :: g :: h :: r =>
    push? (unicode? [a, b, c, d, e, f, g, h]) (basicLines false r)
  | '\\' :: c :: r =>
    if lineEnds (c :: r) then basicLines true (c :: r)
    else push? (escape? c) (basicLines false r)
  | '\r' :: '\n' :: r =>
    if skip then basicLines true r else push '\r' (push '\n' (basicLines false r))
  | c :: r =>
    if skip && (isLineBlank c || c = '\n') then basicLines true r
    else if (isPlain c && c ≠ '\\') || c = '\n' then push c (basicLines false r)
    else none
  | [] => none

/-- Reads up to three single quotes, with line breaks; one or two more quotes belong to the
text. -/
def literalLines : List Char → Reading
  | '\x27' :: '\x27' :: '\x27' :: '\x27' :: '\x27' :: r => some (['\x27', '\x27'], r)
  | '\x27' :: '\x27' :: '\x27' :: '\x27' :: r => some (['\x27'], r)
  | '\x27' :: '\x27' :: '\x27' :: r => some ([], r)
  | '\r' :: '\n' :: r => push '\r' (push '\n' (literalLines r))
  | c :: r => if isPlain c || c = '\n' then push c (literalLines r) else none
  | [] => none

/-- A line break directly behind an opening delimiter is not part of the text. -/
def dropNewline : List Char → List Char
  | '\n' :: r => r
  | '\r' :: '\n' :: r => r
  | s => s

/-- Reads a string in any form. -/
def read? : List Char → Reading
  | '\x22' :: '\x22' :: '\x22' :: r => basicLines false (dropNewline r)
  | '\x22' :: r => basic r
  | '\x27' :: '\x27' :: '\x27' :: r => literalLines (dropNewline r)
  | '\x27' :: r => literal r
  | _ => none

/-- Reads a string on one line. -/
def readLine? : List Char → Reading
  | '\x22' :: r => basic r
  | '\x27' :: r => literal r
  | _ => none

/-- The longest run of a character. -/
def longestRun (c : Char) (s : List Char) : Nat :=
  let r := s.foldl (fun (p : Nat × Nat) d =>
    let run := if d = c then p.2 + 1 else 0
    (max p.1 run, run)) (0, 0)
  r.1

/-- A control character that no form shows as it is. -/
def needsCode (c : Char) : Bool :=
  c ≠ '\n' && !isPlain c

def hexDigit (n : Nat) : Char :=
  if n < 10 then Char.ofNat (48 + n) else Char.ofNat (55 + n)

/-- How a character other than a double quote is written if it cannot stand for itself. -/
def escapeOf? (lines : Bool) (c : Char) : Option (List Char) :=
  if c = '\x08' then some ['\\', 'b']
  else if c = '\t' then some ['\\', 't']
  else if c = '\n' then (if lines then none else some ['\\', 'n'])
  else if c = '\x0c' then some ['\\', 'f']
  else if c = '\r' then some ['\\', 'r']
  else if c = '\\' then some ['\\', '\\']
  else if isPlain c then none
  else some ['\\', 'u', '0', '0', hexDigit (c.toNat / 16), hexDigit (c.toNat % 16)]

/-- Text between double quotes.  On several lines up to two quotes in a row stand for themselves;
`run` counts those just written. -/
def escaped (lines : Bool) (run : Nat) : List Char → List Char
  | [] => []
  | c :: s =>
    if c = '\x22' then
      if run < (if lines then 2 else 0) then c :: escaped lines (run + 1) s
      else '\\' :: '\x22' :: escaped lines 0 s
    else match escapeOf? lines c with
      | some e => e ++ escaped lines 0 s
      | none => c :: escaped lines 0 s

/-- A text of several lines begins on a line of its own. -/
def lead (s : List Char) : List Char :=
  if s.contains '\n' then ['\n'] else []

def writeBasic (s : List Char) : List Char :=
  '\x22' :: escaped false 0 s ++ ['\x22']

def writeLiteral (s : List Char) : List Char :=
  '\x27' :: s ++ ['\x27']

def writeBasicLines (s : List Char) : List Char :=
  ['\x22', '\x22', '\x22'] ++ lead s ++ escaped true 0 s ++ ['\x22', '\x22', '\x22']

def writeLiteralLines (s : List Char) : List Char :=
  ['\x27', '\x27', '\x27'] ++ lead s ++ s ++ ['\x27', '\x27', '\x27']

/-- The plainest form without escapes, or else double quotes with escapes. -/
def write (s : List Char) : List Char :=
  let codes := s.any needsCode
  let backslash := s.contains '\\'
  let newline := s.contains '\n'
  let double := longestRun '\x22' s
  let single := longestRun '\x27' s
  if !codes && !backslash && double == 0 && !newline then writeBasic s
  else if !codes && single == 0 && !newline then writeLiteral s
  else if !codes && !backslash && double ≤ 2 then writeBasicLines s
  else if !codes && single ≤ 2 then writeLiteralLines s
  else if newline then writeBasicLines s
  else writeBasic s

end GraphBlock.Toml.Quoted
