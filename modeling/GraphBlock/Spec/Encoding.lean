import GraphBlock.Digest.Sha256
import GraphBlock.Spec.Equation
import GraphBlock.Spec.Fields

/-!
# What is hashed

The canonical bytes of a graph.  A text stands behind its length in bytes and an optional text
behind a tag, so each part says itself where it ends.  The fingerprint is the SHA-256 digest of
these bytes in hexadecimal.
-/

namespace GraphBlock

namespace Encoding

/-- The low `n` bytes of a number, the low byte first. -/
def littleEndian : Nat → Nat → Bytes
  | 0, _ => []
  | n + 1, x => UInt8.ofNat x :: littleEndian n (x / 256)

def count (n : Nat) : Bytes :=
  littleEndian 8 n

def text (s : String) : Bytes :=
  let bytes := Text.Utf8.encode s.toList
  count bytes.length ++ bytes

def optional : Option String → Bytes
  | none => [0]
  | some s => 1 :: text s

/-- Eight bytes in two's complement. -/
def integer (i : Int64) : Bytes :=
  littleEndian 8 i.toUInt64.toNat

def equation (e : Equation) : Bytes :=
  text e.expression ++ optional (e.style.map Style.name) ++ optional (e.color.map Color.text)
    ++ optional e.restriction

def field (f : Fields) (k : FieldKey) : Bytes :=
  text k.name ++ integer (f.get k)

/-- Marks the format, and stands before everything else. -/
def version : Bytes :=
  Text.Utf8.encode "plotmark-spec-v1".toList

theorem length_littleEndian : ∀ n x : Nat, (littleEndian n x).length = n
  | 0, _ => rfl
  | n + 1, x => by simp [littleEndian, length_littleEndian n]

end Encoding

/-- The canonical bytes of equations and a render surface. -/
def encoding (equations : List Equation) (fields : Fields) : Bytes :=
  Encoding.version ++ Encoding.count equations.length ++ equations.flatMap Encoding.equation
    ++ FieldKey.all.flatMap (Encoding.field fields)

/-- The digest of the canonical bytes, in hexadecimal. -/
def fingerprintOf (equations : List Equation) (fields : Fields) : String :=
  String.ofList (Sha256.hex (Sha256.digest (encoding equations fields)))

end GraphBlock
