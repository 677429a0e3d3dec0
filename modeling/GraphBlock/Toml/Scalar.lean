import GraphBlock.Text.Pieces
import GraphBlock.Toml.Quoted
import GraphBlock.Toml.Table

/-!
# Values without quotes

Booleans, numbers and times.  How a text begins says what it has to be.  A time and the form of a
number are checked when the document is read.  Whether a number is in range, whether there are
digits behind the mark of a base, and what stands between the digits of a decimal number with
underscores, only matters to whoever asks for the number, and is kept in the node.
-/

namespace GraphBlock.Toml.Scalar

open Text

def isDigit (c : Char) : Bool :=
  Decimal.isDigit c

/-- A digit of some base up to sixteen. -/
def isHexDigit (c : Char) : Bool :=
  isDigit c || ('a' ≤ c && c ≤ 'f') || ('A' ≤ c && c ≤ 'F')

/-! ## Underscores -/

/-- What stands behind an underscore begins with a digit, and ends with one if another underscore
follows. -/
def isGroup (digit : Char → Bool) (followed : Bool) (w : List Char) : Bool :=
  w.head?.any digit && (!followed || w.getLast?.any digit)

/-- Each underscore stands between two digits. -/
def isGrouped (digit : Char → Bool) (s : List Char) : Bool :=
  match pieces (· == '_') s with
  | [] | [_] => true
  | w :: ws =>
    isGroup digit true w && ws.dropLast.all (isGroup digit true)
      && ws.getLast?.all (isGroup digit false)

def withoutUnderscores (s : List Char) : List Char :=
  s.filter (· ≠ '_')

/-! ## Whole numbers -/

def digitIn? (base : Nat) (c : Char) : Option Nat :=
  let n := c.toNat
  let digit := if isDigit c then n - 48 else if n ≤ 70 then n - 55 else n - 87
  if isHexDigit c && digit < base then some digit else none

/-- The number that a row of digits stands for; there has to be one at least. -/
def natIn? (base : Nat) (s : List Char) : Option Nat :=
  if s = [] then none
  else s.foldlM (fun n c => (digitIn? base c).map (base * n + ·)) 0

/-- Digits, for a number of at most 128 bits. -/
def fits (base : Nat) (negative : Bool) (s : List Char) : Bool :=
  (natIn? base s).any fun n => if negative then n ≤ Nat.pow 2 127 else n < Nat.pow 2 128

/-- The digits behind the mark of a base.  If there are none, the number cannot be read. -/
def inBase? (base : Nat) (s : List Char) : Option Node :=
  let digits := withoutUnderscores s
  if digits.all (fun c => (digitIn? base c).isSome) && isGrouped isHexDigit s then
    some (.number (fits base false digits))
  else none

/-! ## Numbers with a fraction or an exponent -/

/-- The number `digits · 10 ^ exponent` is too large for a double: it is past the middle between
the largest one and the next power of two. -/
def overflows (digits : List Char) (exponent : Int) : Bool :=
  let m := Decimal.value digits
  let places : Int := (digits.dropWhile (· == '0')).length + exponent
  if m = 0 then false
  else if 309 < places then true
  else if places < 309 then false
  else
    let limit := Nat.pow 2 1024 - Nat.pow 2 970
    if 0 ≤ exponent then limit ≤ m * Nat.pow 10 exponent.toNat
    else limit * Nat.pow 10 (-exponent).toNat ≤ m

def inRun (c : Char) : Bool :=
  isDigit c || c == '_'

/-- The digits of the run in front. -/
def runDigits (s : List Char) : List Char :=
  withoutUnderscores (s.takeWhile inRun)

def afterRun (s : List Char) : List Char :=
  s.dropWhile inRun

/-- The exponent with its letter, or nothing. -/
def exponent? : List Char → Option Int
  | [] => some 0
  | c :: s =>
    let digits := match s with
      | '+' :: r => r
      | '-' :: r => r
      | r => r
    if (c == 'e' || c == 'E') && runDigits digits ≠ [] && afterRun digits = [] then
      let n : Int := Decimal.value (runDigits digits)
      some (if s.head? == some '-' then -n else n)
    else none

/-- The digits of a number without its point, and the power of ten that they are multiplied by.
There are digits on both sides of a point, and no zero leads. -/
def float? (s : List Char) : Option (List Char × Int) :=
  let whole := runDigits s
  if whole = [] || (s.head? == some '0' && whole.length ≠ 1) then none
  else match afterRun s with
    | '.' :: r =>
      let fraction := runDigits r
      if fraction = [] then none
      else (exponent? (afterRun r)).map fun e => (whole ++ fraction, e - fraction.length)
    | r => (exponent? r).map fun e => (whole, e)

/-! ## Times -/

def twoDigits? (a b : Char) : Option Nat :=
  if isDigit a && isDigit b then some (Decimal.value [a, b]) else none

def isLeapYear (y : Nat) : Bool :=
  y % 4 == 0 && (y % 100 != 0 || y % 400 == 0)

def daysIn (year month : Nat) : Nat :=
  if month == 2 then (if isLeapYear year then 29 else 28)
  else if month == 4 || month == 6 || month == 9 || month == 11 then 30
  else 31

/-- A day of the calendar. -/
def isDate : List Char → Bool
  | [y₁, y₂, y₃, y₄, '-', m₁, m₂, '-', d₁, d₂] =>
    match twoDigits? y₁ y₂, twoDigits? y₃ y₄, twoDigits? m₁ m₂, twoDigits? d₁ d₂ with
    | some c, some y, some m, some d =>
      1 ≤ m && m ≤ 12 && 1 ≤ d && d ≤ daysIn (100 * c + y) m
    | _, _, _, _ => false
  | _ => false

/-- Hours and minutes. -/
def isClock (h₁ h₂ m₁ m₂ : Char) : Bool :=
  (twoDigits? h₁ h₂).any (· ≤ 23) && (twoDigits? m₁ m₂).any (· ≤ 59)

/-- The distance from universal time: none, or less than a day. -/
def isOffset : List Char → Bool
  | [] => true
  | ['Z'] => true
  | ['z'] => true
  | [sign, h₁, h₂, ':', m₁, m₂] => (sign == '+' || sign == '-') && isClock h₁ h₂ m₁ m₂
  | _ => false

/-- What stands behind the seconds. -/
def afterFraction? : List Char → Option (List Char)
  | '.' :: s => if s.takeWhile isDigit = [] then none else some (s.dropWhile isDigit)
  | s => some s

/-- The time of a day, with what may follow it.  Seconds may be left out. -/
def isTime (follows : List Char → Bool) : List Char → Bool
  | h₁ :: h₂ :: ':' :: m₁ :: m₂ :: ':' :: s₁ :: s₂ :: rest =>
    isClock h₁ h₂ m₁ m₂ && (twoDigits? s₁ s₂).any (· ≤ 60) && (afterFraction? rest).any follows
  | h₁ :: h₂ :: ':' :: m₁ :: m₂ :: rest => isClock h₁ h₂ m₁ m₂ && follows rest
  | _ => false

/-- A date, a time, or both with a letter or a blank between them and an offset behind. -/
def isMoment (s : List Char) : Bool :=
  isDate s || isTime (· == []) s ||
    (isDate (s.take 10) &&
      match s.drop 10 with
      | c :: time => (c == 'T' || c == 't' || c == ' ') && isTime isOffset time
      | [] => false)

/-! ## Values -/

/-- What stands behind a sign or without one: a decimal number, or without a sign a time. -/
def decimal? (sign : Option Char) (s : List Char) : Option Node :=
  let rest := s.dropWhile isDigit
  if rest.head? == some '-' || rest.head? == some ':' then
    if sign.isNone && isMoment s then some .time else none
  else if rest.contains ' ' then none
  else if rest.any fun c => c == '.' || c == 'e' || c == 'E' then
    match float? s with
    | some (digits, exponent) =>
      if isGrouped isDigit s then some (.number (!overflows digits exponent)) else none
    | none => none
  else if s ≠ [] && (rest = [] || rest.head? == some '_')
      && (s == ['0'] || s.head? ≠ some '0') && isGrouped isHexDigit s then
    some (.number (fits 10 (sign == some '-') (withoutUnderscores s)))
  else none

/-- A number that may have a sign in front. -/
def signed? (sign : Option Char) (s : List Char) : Option Node :=
  if s == "inf".toList || s == "nan".toList then some (.number true) else decimal? sign s

/-- The value that a text without quotes stands for. -/
def node? (s : List Char) : Option Node :=
  if s == "true".toList then some (.boolean true)
  else if s == "false".toList then some (.boolean false)
  else match s with
    | '+' :: r => signed? (some '+') r
    | '-' :: r => signed? (some '-') r
    | '0' :: 'x' :: r => inBase? 16 r
    | '0' :: 'o' :: r => inBase? 8 r
    | '0' :: 'b' :: r => inBase? 2 r
    | r => signed? none r

def isDelimiter (c : Char) : Bool :=
  ['=', ',', '[', ']', '\x7b', '\x7d', '#', '\r', '\n'].contains c

def isQuote (c : Char) : Bool :=
  c == '\x22' || c == '\x27'

/-- Some word begins here. -/
def beginsWord (s : List Char) : Bool :=
  s.head?.any fun c => !isDelimiter c && !isQuote c

/-- The text up to a delimiter, with the blanks between its words, and the rest.  A quote belongs
to the word that it stands in, but `fresh` it begins something else. -/
def unquoted (fresh : Bool) : List Char → List Char × List Char
  | [] => ([], [])
  | c :: s =>
    if Quoted.isLineBlank c then
      if beginsWord (s.dropWhile Quoted.isLineBlank) then
        let (word, rest) := unquoted true s
        (c :: word, rest)
      else ([], c :: s)
    else if isDelimiter c || (fresh && isQuote c) then ([], c :: s)
    else
      let (word, rest) := unquoted (c == '.') s
      (c :: word, rest)

/-- Reads a value without quotes. -/
def read? (s : List Char) : Option (Node × List Char) :=
  let (word, rest) := unquoted true s
  (node? word).map (·, rest)

end GraphBlock.Toml.Scalar
