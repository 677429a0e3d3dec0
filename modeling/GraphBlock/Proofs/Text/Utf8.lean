import GraphBlock.Text.Utf8
import Mathlib.Data.List.Basic

/-!
# A text that is encoded is read back

The bytes of a character are read as this character, whatever stands before and behind them
(`decodeFrom_encodeChar`, one case for each number of bytes), so the bytes of a text are read as
the text (`decode_encode`).
-/

namespace GraphBlock.Text.Utf8

variable {a b c d : UInt8} {s : Bytes} {i n : Nat}

section Bytes

theorem toNat_ofNat (h : n < 256) : (UInt8.ofNat n).toNat = n := by
  simp [Nat.mod_eq_of_lt h]

theorem decodeFrom_one (h : a.toNat < 128) :
    decodeFrom i (a :: s) = (decodeFrom (i + 1) s).map (Char.ofNat a.toNat :: ·) := by
  have ha : a < 0x80 := UInt8.lt_iff_toNat_lt.2 h
  rw [decodeFrom.eq_def]
  simp only [ha, if_true]

theorem decodeFrom_two (ha : 194 ≤ a.toNat ∧ a.toNat ≤ 223) (hb : isContinuation b = true) :
    decodeFrom i (a :: b :: s) = (decodeFrom (i + 2) s).map (char2 a b :: ·) := by
  have h1 : ¬ a < 0x80 := by simp [UInt8.lt_iff_toNat_lt]; omega
  have h2 : (0xC2 ≤ a && a ≤ 0xDF) = true := by simpa [UInt8.le_iff_toNat_le] using ha
  rw [decodeFrom.eq_def]
  simp only [h1, h2, hb, if_true, if_false]

theorem decodeFrom_three (ha : 224 ≤ a.toNat ∧ a.toNat ≤ 239) (hb : follows3 a b = true)
    (hc : isContinuation c = true) :
    decodeFrom i (a :: b :: c :: s) = (decodeFrom (i + 3) s).map (char3 a b c :: ·) := by
  have h1 : ¬ a < 0x80 := by simp [UInt8.lt_iff_toNat_lt]; omega
  have h2 : (0xC2 ≤ a && a ≤ 0xDF) = false := by simp [UInt8.le_iff_toNat_le]; omega
  have h3 : (0xE0 ≤ a && a ≤ 0xEF) = true := by simpa [UInt8.le_iff_toNat_le] using ha
  rw [decodeFrom.eq_def]
  simp only [h1, h2, h3, hb, hc, if_true, if_false, Bool.false_eq_true]

theorem decodeFrom_four (ha : 240 ≤ a.toNat ∧ a.toNat ≤ 244) (hb : follows4 a b = true)
    (hc : isContinuation c = true) (hd : isContinuation d = true) :
    decodeFrom i (a :: b :: c :: d :: s) = (decodeFrom (i + 4) s).map (char4 a b c d :: ·) := by
  have h1 : ¬ a < 0x80 := by simp [UInt8.lt_iff_toNat_lt]; omega
  have h2 : (0xC2 ≤ a && a ≤ 0xDF) = false := by simp [UInt8.le_iff_toNat_le]; omega
  have h3 : (0xE0 ≤ a && a ≤ 0xEF) = false := by simp [UInt8.le_iff_toNat_le]; omega
  have h4 : (0xF0 ≤ a && a ≤ 0xF4) = true := by simpa [UInt8.le_iff_toNat_le] using ha
  rw [decodeFrom.eq_def]
  simp only [h1, h2, h3, h4, hb, hc, hd, if_true, if_false, Bool.false_eq_true]

theorem follows3_iff : follows3 a b = true ↔ a.toNat = 224 ∧ 160 ≤ b.toNat ∧ b.toNat ≤ 191
    ∨ (225 ≤ a.toNat ∧ a.toNat ≤ 236 ∨ 238 ≤ a.toNat ∧ a.toNat ≤ 239) ∧ 128 ≤ b.toNat
      ∧ b.toNat ≤ 191
    ∨ a.toNat = 237 ∧ 128 ≤ b.toNat ∧ b.toNat ≤ 159 := by
  simp only [follows3, isContinuation, Bool.or_eq_true, Bool.and_eq_true, beq_iff_eq,
    decide_eq_true_eq, UInt8.le_iff_toNat_le, ← UInt8.toNat_inj, UInt8.reduceToNat]
  omega

theorem follows4_iff : follows4 a b = true ↔ a.toNat = 240 ∧ 144 ≤ b.toNat ∧ b.toNat ≤ 191
    ∨ (241 ≤ a.toNat ∧ a.toNat ≤ 243) ∧ 128 ≤ b.toNat ∧ b.toNat ≤ 191
    ∨ a.toNat = 244 ∧ 128 ≤ b.toNat ∧ b.toNat ≤ 143 := by
  simp only [follows4, isContinuation, Bool.or_eq_true, Bool.and_eq_true, beq_iff_eq,
    decide_eq_true_eq, UInt8.le_iff_toNat_le, ← UInt8.toNat_inj, UInt8.reduceToNat]
  omega

theorem isContinuation_low (n : Nat) : isContinuation (UInt8.ofNat (n % 64 + 128)) = true := by
  have h : n % 64 + 128 < 256 := by omega
  simp only [isContinuation, UInt8.le_iff_toNat_le, toNat_ofNat h, Bool.and_eq_true,
    decide_eq_true_eq]
  exact ⟨by simp, by simp; omega⟩

theorem low_low (n : Nat) : low (UInt8.ofNat (n % 64 + 128)) = n % 64 := by
  rw [low, toNat_ofNat (by omega)]
  omega

end Bytes

/-- The bytes of a character are read as the character. -/
theorem decodeFrom_encodeChar (c : Char) (i : Nat) (s : Bytes) :
    ∃ j, decodeFrom i (String.utf8EncodeChar c ++ s) = (decodeFrom j s).map (c :: ·) := by
  have hvalid : c.toNat < 55296 ∨ 57343 < c.toNat ∧ c.toNat < 1114112 := c.valid
  have hchar : ∀ n, n = c.toNat → Char.ofNat n = c := fun n hn => hn ▸ Char.ofNat_toNat c
  have hto : c.val.toNat = c.toNat := rfl
  simp only [String.utf8EncodeChar, hto]
  split_ifs with h1 h2 h3
  · refine ⟨i + 1, ?_⟩
    have ha := toNat_ofNat (n := c.toNat) (by omega)
    rw [List.singleton_append, decodeFrom_one (by omega), hchar _ ha]
  · refine ⟨i + 2, ?_⟩
    have ha := toNat_ofNat (n := c.toNat / 64 % 32 + 192) (by omega)
    have htwo : char2 (UInt8.ofNat (c.toNat / 64 % 32 + 192)) (UInt8.ofNat (c.toNat % 64 + 128))
        = c := hchar _ (by rw [ha, low_low]; omega)
    rw [List.cons_append, List.singleton_append,
      decodeFrom_two (by omega) (isContinuation_low _), htwo]
  · refine ⟨i + 3, ?_⟩
    have ha := toNat_ofNat (n := c.toNat / 4096 % 16 + 224) (by omega)
    have hb := toNat_ofNat (n := c.toNat / 64 % 64 + 128) (by omega)
    have hthree : char3 (UInt8.ofNat (c.toNat / 4096 % 16 + 224))
        (UInt8.ofNat (c.toNat / 64 % 64 + 128)) (UInt8.ofNat (c.toNat % 64 + 128)) = c :=
      hchar _ (by rw [ha, low_low, low_low]; omega)
    have hfollows : follows3 (UInt8.ofNat (c.toNat / 4096 % 16 + 224))
        (UInt8.ofNat (c.toNat / 64 % 64 + 128)) = true := by
      rw [follows3_iff, ha, hb]
      omega
    rw [List.cons_append, List.cons_append, List.singleton_append,
      decodeFrom_three (by omega) hfollows (isContinuation_low _), hthree]
  · refine ⟨i + 4, ?_⟩
    have ha := toNat_ofNat (n := c.toNat / 262144 % 8 + 240) (by omega)
    have hb := toNat_ofNat (n := c.toNat / 4096 % 64 + 128) (by omega)
    have hfour : char4 (UInt8.ofNat (c.toNat / 262144 % 8 + 240))
        (UInt8.ofNat (c.toNat / 4096 % 64 + 128)) (UInt8.ofNat (c.toNat / 64 % 64 + 128))
        (UInt8.ofNat (c.toNat % 64 + 128)) = c :=
      hchar _ (by rw [ha, low_low, low_low, low_low]; omega)
    have hfollows : follows4 (UInt8.ofNat (c.toNat / 262144 % 8 + 240))
        (UInt8.ofNat (c.toNat / 4096 % 64 + 128)) = true := by
      rw [follows4_iff, ha, hb]
      omega
    rw [List.cons_append, List.cons_append, List.cons_append, List.singleton_append,
      decodeFrom_four (by omega) hfollows (isContinuation_low _) (isContinuation_low _), hfour]

theorem decodeFrom_encode : ∀ (s : List Char) (i : Nat), decodeFrom i (encode s) = .ok s
  | [], _ => by rfl
  | c :: s, i => by
    obtain ⟨j, hj⟩ := decodeFrom_encodeChar c i (encode s)
    have hcons : encode (c :: s) = String.utf8EncodeChar c ++ encode s := List.flatMap_cons
    rw [hcons, hj, decodeFrom_encode s j]
    rfl

theorem decode_encode (s : List Char) : decode (encode s) = .ok s :=
  decodeFrom_encode s 0

end GraphBlock.Text.Utf8
