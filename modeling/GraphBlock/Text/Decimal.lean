/-!
# Whole numbers in decimal

`ofNat` and `ofInt` write a number, `toInt?` reads an optional sign and at least one digit.  A
number that was written is read back (`toInt?_ofInt`).
-/

namespace GraphBlock.Text.Decimal

def digit (n : Nat) : Char :=
  Char.ofNat (48 + n)

def isDigit (c : Char) : Bool :=
  48 ≤ c.toNat && c.toNat ≤ 57

def ofNat (n : Nat) : List Char :=
  if n < 10 then [digit n] else ofNat (n / 10) ++ [digit (n % 10)]
termination_by n

/-- A minus sign stands before a negative number and nothing before any other. -/
def ofInt : Int → List Char
  | .ofNat n => ofNat n
  | .negSucc n => '-' :: ofNat (n + 1)

/-- The number that a row of digits stands for, each character taken for a digit. -/
def value (s : List Char) : Nat :=
  s.foldl (fun n c => 10 * n + (c.toNat - 48)) 0

def toNat? (s : List Char) : Option Nat :=
  if s ≠ [] && s.all isDigit then some (value s) else none

/-- An optional sign and at least one digit, and nothing else. -/
def toInt? : List Char → Option Int
  | '-' :: s => (toNat? s).map fun n => -(n : Int)
  | '+' :: s => (toNat? s).map fun n => (n : Int)
  | s => (toNat? s).map fun n => (n : Int)

theorem toNat_digit {n : Nat} (h : n < 10) : (digit n).toNat = 48 + n := by
  have hv : (48 + n).isValidChar := Or.inl (by omega)
  rw [digit, Char.ofNat, dif_pos hv]
  rfl

theorem isDigit_digit {n : Nat} (h : n < 10) : isDigit (digit n) = true := by
  simp only [isDigit, toNat_digit h, Bool.and_eq_true, decide_eq_true_eq]
  omega

theorem ofNat_ne_nil (n : Nat) : ofNat n ≠ [] := by
  rw [ofNat]
  split <;> simp

theorem isDigit_of_mem_ofNat (n : Nat) : ∀ c ∈ ofNat n, isDigit c = true := by
  induction n using Nat.strongRecOn with
  | ind n ih =>
    intro c hc
    rw [ofNat] at hc
    split at hc
    · rename_i h
      simp only [List.mem_singleton] at hc
      subst hc
      exact isDigit_digit h
    · rename_i h
      simp only [List.mem_append, List.mem_singleton] at hc
      rcases hc with hc | rfl
      · exact ih _ (by omega) c hc
      · exact isDigit_digit (by omega)

theorem value_append_singleton (s : List Char) (c : Char) :
    value (s ++ [c]) = 10 * value s + (c.toNat - 48) := by
  simp [value]

theorem value_ofNat (n : Nat) : value (ofNat n) = n := by
  induction n using Nat.strongRecOn with
  | ind n ih =>
    rw [ofNat]
    split
    · rename_i h
      simp [value, toNat_digit h]
    · rename_i h
      rw [value_append_singleton, ih _ (by omega), toNat_digit (by omega)]
      omega

theorem toNat?_ofNat (n : Nat) : toNat? (ofNat n) = some n := by
  have h : (ofNat n).all isDigit = true := List.all_eq_true.2 (isDigit_of_mem_ofNat n)
  simp [toNat?, ofNat_ne_nil, h, value_ofNat]

theorem toInt?_ofInt (i : Int) : toInt? (ofInt i) = some i := by
  cases i with
  | negSucc n =>
    simp only [ofInt, toInt?, toNat?_ofNat]
    rfl
  | ofNat n =>
    simp only [ofInt]
    have hd := isDigit_of_mem_ofNat n
    have hn := toNat?_ofNat n
    generalize ofNat n = s at hd hn
    unfold toInt?
    split
    · exact absurd (hd '-' (by simp)) (by decide)
    · exact absurd (hd '+' (by simp)) (by decide)
    · simp [hn]

end GraphBlock.Text.Decimal
