/-!
# UTF-8

`encode` writes a text as bytes, one to four for each character.  `decode` reads bytes back and
says where the first fault is: the number of bytes before it, and how many bytes cannot be
continued, or that the bytes end within a character.
-/

namespace GraphBlock

/-- A row of bytes: an image, the contents of a file, an encoded text. -/
abbrev Bytes := List UInt8

namespace Text.Utf8

/-- Where bytes stop being text.  Without a length they end within a character. -/
structure Fault where
  index : Nat
  length : Option Nat
  deriving DecidableEq, Repr

def encode (s : List Char) : Bytes :=
  s.flatMap String.utf8EncodeChar

def isContinuation (b : UInt8) : Bool :=
  0x80 ≤ b && b ≤ 0xBF

/-- The second byte of a three-byte character: no longer form than needed and no surrogate. -/
def follows3 (a b : UInt8) : Bool :=
  (a == 0xE0 && 0xA0 ≤ b && b ≤ 0xBF) || (0xE1 ≤ a && a ≤ 0xEC && isContinuation b) ||
    (a == 0xED && 0x80 ≤ b && b ≤ 0x9F) || (0xEE ≤ a && a ≤ 0xEF && isContinuation b)

/-- The second byte of a four-byte character: no longer form than needed and no code point past
the last. -/
def follows4 (a b : UInt8) : Bool :=
  (a == 0xF0 && 0x90 ≤ b && b ≤ 0xBF) || (0xF1 ≤ a && a ≤ 0xF3 && isContinuation b) ||
    (a == 0xF4 && 0x80 ≤ b && b ≤ 0x8F)

/-- The six low bits that a continuation byte carries. -/
def low (b : UInt8) : Nat :=
  b.toNat % 64

def char2 (a b : UInt8) : Char :=
  Char.ofNat (a.toNat % 32 * 64 + low b)

def char3 (a b c : UInt8) : Char :=
  Char.ofNat (a.toNat % 16 * 4096 + low b * 64 + low c)

def char4 (a b c d : UInt8) : Char :=
  Char.ofNat (a.toNat % 8 * 262144 + low b * 4096 + low c * 64 + low d)

/-- Reads bytes that begin at position `i` of a longer row. -/
def decodeFrom (i : Nat) : Bytes → Except Fault (List Char)
  | [] => .ok []
  | a :: s =>
    if a < 0x80 then
      (decodeFrom (i + 1) s).map (Char.ofNat a.toNat :: ·)
    else if 0xC2 ≤ a && a ≤ 0xDF then
      match s with
      | [] => .error ⟨i, none⟩
      | b :: s =>
        if isContinuation b then (decodeFrom (i + 2) s).map (char2 a b :: ·)
        else .error ⟨i, some 1⟩
    else if 0xE0 ≤ a && a ≤ 0xEF then
      match s with
      | [] => .error ⟨i, none⟩
      | b :: s =>
        if follows3 a b then
          match s with
          | [] => .error ⟨i, none⟩
          | c :: s =>
            if isContinuation c then (decodeFrom (i + 3) s).map (char3 a b c :: ·)
            else .error ⟨i, some 2⟩
        else .error ⟨i, some 1⟩
    else if 0xF0 ≤ a && a ≤ 0xF4 then
      match s with
      | [] => .error ⟨i, none⟩
      | b :: s =>
        if follows4 a b then
          match s with
          | [] => .error ⟨i, none⟩
          | c :: s =>
            if isContinuation c then
              match s with
              | [] => .error ⟨i, none⟩
              | d :: s =>
                if isContinuation d then (decodeFrom (i + 4) s).map (char4 a b c d :: ·)
                else .error ⟨i, some 3⟩
            else .error ⟨i, some 2⟩
        else .error ⟨i, some 1⟩
    else .error ⟨i, some 1⟩

def decode (s : Bytes) : Except Fault (List Char) :=
  decodeFrom 0 s

theorem length_encode_cons (c : Char) (s : List Char) :
    (encode (c :: s)).length = c.utf8Size + (encode s).length := by
  simp [encode]

theorem encode_append (s t : List Char) : encode (s ++ t) = encode s ++ encode t := by
  simp [encode]

end Text.Utf8

end GraphBlock
