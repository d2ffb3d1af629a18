import Mathlib.Tactic.Ring
import TypedStack.Value.Arith
/-!
# What the operations on values compute

Integers and characters are words of 64 and of 16 bits, and the operations on them are those of
words. Here they are described by the integers that the words stand for.

* Arithmetic gives the exact result, wrapped to the width of the type, where a division drops the
  fraction (`ArithOp.onInt_eq`, `ArithOp.onChar_eq`). Of two numbers of one type only an integer or
  a character divided by zero has no result (`ArithOp.apply_divisionByZero_iff`).
* The amount of a shift counts modulo 64, also when it is negative. A shift to the left multiplies
  by a power of two and wraps, and one to the right divides the word as a number without sign
  (`ShiftKind.left_eq`, `ShiftKind.right_eq`).
* A conversion to a character keeps the lowest sixteen bits of an integer. One from a binary number
  drops the fraction and stops at the bounds of the type (`Value.toChar_int`, `Value.wholePart_eq`).
-/

set_option autoImplicit false

namespace TypedStack

open Binary

/-! ## Wrapping -/

/-- An integer of any size as a character: the remainder of a division by `2 ^ 16`. -/
theorem toNat_unit (n : Int) : ((UInt16.ofInt n).toNat : Int) = n % 2 ^ 16 := by
  have hnonneg : 0 ≤ n % 2 ^ 16 := Int.emod_nonneg n (by decide)
  have hlt : (n % 2 ^ 16).toNat < 2 ^ 16 := by omega
  show (((n % 2 ^ 16).toNat % 2 ^ 16 : Nat) : Int) = _
  rw [Nat.mod_eq_of_lt hlt, Int.toNat_of_nonneg hnonneg]

theorem unit_toNat (c : UInt16) : UInt16.ofInt c.toNat = c := by
  have hlt := c.toNat_lt
  have hvalue := toNat_unit c.toNat
  rw [← UInt16.toNat_inj]
  omega

/-- An integer of 64 bits as a number without sign. -/
theorem toNat_word (n : Int64) : (n.toUInt64.toNat : Int) = n.toInt % 2 ^ 64 := by
  have hsigned : n.toInt = (n.toUInt64.toNat : Int).bmod (2 ^ 64) := BitVec.toInt_eq_toNat_bmod _
  have hmod : (n.toUInt64.toNat : Int).bmod (2 ^ 64) % (2 ^ 64 : Nat) =
      n.toUInt64.toNat % (2 ^ 64 : Nat) := Int.bmod_emod
  have hlt := n.toUInt64.toNat_lt
  omega

theorem toNat_word_ofInt (n : Int) : ((Int64.ofInt n).toUInt64.toNat : Int) = n % 2 ^ 64 := by
  rw [toNat_word, Int64.toInt_ofInt]
  exact Int.bmod_emod

/-- Two integers of 64 bits are the same if they are as numbers without sign. -/
theorem eq_of_toNat_word {a b : Int64} (h : a.toUInt64.toNat = b.toUInt64.toNat) : a = b := by
  rw [← a.toInt64_toUInt64, ← b.toInt64_toUInt64, UInt64.toNat_inj.mp h]

/-! ## Arithmetic -/

namespace ArithOp

/-- The operation on integers of any size. Division goes towards zero. -/
def exact : ArithOp → Int → Int → Int
  | .add, a, b => a + b
  | .sub, a, b => a - b
  | .mul, a, b => a * b
  | .div, a, b => a.tdiv b

/-- Integers wrap around at 64 bits. The only quotient that has to is that of the least integer by
minus one. -/
theorem onInt_eq (op : ArithOp) (a b : Int64) :
    op.onInt a b =
      if op = .div ∧ b = 0 then .error .divisionByZero
      else .ok (Int64.ofInt (op.exact a.toInt b.toInt)) := by
  cases op with
  | add => simp [onInt, exact]
  | sub => simp [onInt, exact]
  | mul => simp [onInt, exact]
  | div =>
    have hquotient : Int64.ofInt (a.toInt.tdiv b.toInt) = a / b := by
      rw [Int64.ofInt_eq_iff_bmod_eq_toInt, Int64.toInt_div]
    simp [onInt, exact, hquotient]

/-- Characters wrap around at 16 bits. -/
theorem onChar_eq (op : ArithOp) (a b : UInt16) :
    op.onChar a b =
      if op = .div ∧ b = 0 then .error .divisionByZero
      else .ok (UInt16.ofInt (op.exact a.toNat b.toNat)) := by
  cases op with
  | add => simp [onChar, exact, unit_toNat]
  | sub =>
    have hdifference : UInt16.ofInt (a.toNat - b.toNat) = a - b := by
      rw [Int.sub_eq_add_neg, UInt16.ofInt_add, UInt16.ofInt_neg, unit_toNat, unit_toNat,
        UInt16.sub_eq_add_neg]
    simp [onChar, exact, hdifference]
  | mul => simp [onChar, exact, unit_toNat]
  | div =>
    have hquotient : UInt16.ofInt ((a.toNat : Int).tdiv b.toNat) = a / b := by
      rw [← Int.ofNat_tdiv, ← UInt16.toNat_div, unit_toNat]
    simp only [onChar, exact, hquotient, true_and]

/-- An integer or a character cannot be divided by zero. Every other operation on two numbers of one
type has a result, and so has a division of binary numbers by zero. -/
theorem apply_divisionByZero_iff (op : ArithOp) (v w : Value) :
    op.apply v w = .error .divisionByZero ↔
      op = .div ∧ ((∃ a, v = .int a ∧ w = .int 0) ∨ ∃ a, v = .char a ∧ w = .char 0) := by
  cases v with
  | int a =>
    cases w with
    | int b =>
      rw [apply, onInt_eq]
      split <;> simp_all [Except.map]
    | _ => simp [apply]
  | char a =>
    cases w with
    | char b =>
      rw [apply, onChar_eq]
      split <;> simp_all [Except.map]
    | _ => simp [apply]
  | float x | double x | bool b => cases w <;> simp [apply]

end ArithOp

/-! ## Shifts -/

namespace ShiftKind

/-- The lowest six bits of an amount are its remainder modulo 64, also when it is negative. -/
theorem amount_mod (amount : Int64) :
    amount.toUInt64.toNat % 64 = (amount.toInt % 64).toNat := by
  have hword := toNat_word amount
  omega

/-- A shift to the left multiplies by a power of two, and wraps. -/
theorem left_eq (n amount : Int64) :
    ShiftKind.left.apply n amount = Int64.ofInt (n.toInt * 2 ^ (amount.toInt % 64).toNat) := by
  apply eq_of_toNat_word
  rw [← Int.ofNat_inj, toNat_word_ofInt, Int.mul_emod, ← toNat_word n, ← amount_mod]
  show (((n.toUInt64 <<< amount.toUInt64).toNat : Nat) : Int) = _
  rw [UInt64.toNat_shiftLeft, Nat.shiftLeft_eq]
  simp [Int.natCast_emod, Int.mul_emod]

/-- A shift to the right divides by a power of two, after a negative integer has become the number
without sign that has the same bits. -/
theorem right_eq (n amount : Int64) :
    ShiftKind.right.apply n amount =
      Int64.ofInt (n.toInt % 2 ^ 64 / 2 ^ (amount.toInt % 64).toNat) := by
  apply eq_of_toNat_word
  rw [← Int.ofNat_inj, toNat_word_ofInt, ← toNat_word n, ← amount_mod]
  show (((n.toUInt64 >>> amount.toUInt64).toNat : Nat) : Int) = _
  rw [UInt64.toNat_shiftRight, Nat.shiftRight_eq_div_pow]
  have hlt : n.toUInt64.toNat / 2 ^ (amount.toUInt64.toNat % 64) < 2 ^ 64 :=
    Nat.lt_of_le_of_lt (Nat.div_le_self _ _) n.toUInt64.toNat_lt
  have hcast : ((n.toUInt64.toNat / 2 ^ (amount.toUInt64.toNat % 64) : Nat) : Int) =
      n.toUInt64.toNat / 2 ^ (amount.toUInt64.toNat % 64) := by simp
  rw [← hcast]
  generalize n.toUInt64.toNat / 2 ^ (amount.toUInt64.toNat % 64) = quotient at hlt
  omega

end ShiftKind

/-! ## Conversions -/

namespace Value

/-- An integer keeps its lowest sixteen bits as a character. -/
theorem toChar_int (n : Int64) : ((Value.int n).toChar.toNat : Int) = n.toInt % 2 ^ 16 := by
  have hword := toNat_word n
  show ((n.toUInt64.toUInt16.toNat : Nat) : Int) = _
  rw [UInt64.toNat_toUInt16]
  omega

/-- A character is an integer that is not negative. -/
theorem toInt_char (c : UInt16) : (Value.char c).toInt.toInt = c.toNat := by
  have hlt := c.toNat_lt
  show (Int64.ofNat c.toNat).toInt = _
  rw [← Int64.ofInt_eq_ofNat, Int64.toInt_ofInt_of_le (by omega) (by omega)]

/-- What is held inside bounds lies between them. -/
theorem toIntWithin_mem (f : Format) (low high : Int) (hlow : low ≤ 0) (hhigh : 0 ≤ high)
    (bits : Nat) : low ≤ f.toIntWithin low high bits ∧ f.toIntWithin low high bits ≤ high := by
  unfold Format.toIntWithin
  split
  · exact ⟨hlow, hhigh⟩
  · omega

/-- A binary number loses its fraction, and stops at the bounds of the 64-bit integers. -/
theorem wholePart_eq (f : Format) (bits : Nat) :
    (wholePart f bits).toInt = f.toIntWithin Int64.minValue.toInt Int64.maxValue.toInt bits := by
  obtain ⟨hlow, hhigh⟩ :=
    toIntWithin_mem f Int64.minValue.toInt Int64.maxValue.toInt (by decide) (by decide) bits
  have hmin : Int64.minValue.toInt = -2 ^ 63 := by decide
  have hmax : Int64.maxValue.toInt = 2 ^ 63 - 1 := by decide
  exact Int64.toInt_ofInt_of_le (by omega) (by omega)

/-- As a character it stops at the bounds of the 32-bit integers, and then only the lowest sixteen
bits are kept. -/
theorem wholeUnit_eq (f : Format) (bits : Nat) :
    ((wholeUnit f bits).toNat : Int) =
      f.toIntWithin Int32.minValue.toInt Int32.maxValue.toInt bits % 2 ^ 16 := by
  have hword := toNat_word_ofInt (f.toIntWithin Int32.minValue.toInt Int32.maxValue.toInt bits)
  unfold wholeUnit
  rw [UInt64.toNat_toUInt16]
  omega

end Value

end TypedStack
