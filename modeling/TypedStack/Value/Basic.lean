import TypedStack.Binary.Format
import TypedStack.ValueType
/-!
# Values

The values a program computes with. The binary numbers are kept as their bit patterns, so two
values are equal exactly when their patterns are; what the patterns stand for is the business of
`Binary.Format`.
-/

set_option autoImplicit false

namespace TypedStack

open Binary

inductive Value where
  | int (n : Int64)
  /-- A UTF-16 code unit. -/
  | char (codeUnit : UInt16)
  | float (bits : UInt32)
  | bool (b : Bool)
  | double (bits : UInt64)
  deriving DecidableEq, Repr

namespace Value

def type : Value → ValueType
  | .int _ => .int
  | .char _ => .char
  | .float _ => .float
  | .bool _ => .bool
  | .double _ => .double

/-- What a fresh slot of the type holds. -/
def zero : ValueType → Value
  | .int => .int 0
  | .char => .char 0
  | .float => .float 0
  | .bool => .bool false
  | .double => .double 0

@[simp] theorem type_zero (t : ValueType) : (zero t).type = t := by
  cases t <;> rfl

/-! ## Conversion -/

/-- A 32-bit number from the pattern that `Binary.Format` computes. -/
def ofSingle (bits : Nat) : Value := .float bits.toUInt32

/-- A 64-bit number from the pattern that `Binary.Format` computes. -/
def ofDouble (bits : Nat) : Value := .double bits.toUInt64

/-- The integer part of a binary number, held inside the 64-bit integers. -/
def wholePart (f : Format) (bits : Nat) : Int64 :=
  Int64.ofInt (f.toIntWithin Int64.minValue.toInt Int64.maxValue.toInt bits)

/-- The integer part of a binary number, held inside the 32-bit integers and then cut to the
lowest sixteen bits. -/
def wholeUnit (f : Format) (bits : Nat) : UInt16 :=
  (Int64.ofInt (f.toIntWithin Int32.minValue.toInt Int32.maxValue.toInt bits)).toUInt64.toUInt16

def toInt : Value → Int64
  | .int n => n
  | .char c => Int64.ofNat c.toNat
  | .float x => wholePart .single x.toNat
  | .bool b => if b then 1 else 0
  | .double x => wholePart .double x.toNat

def toChar : Value → UInt16
  | .int n => n.toUInt64.toUInt16
  | .char c => c
  | .float x => wholeUnit .single x.toNat
  | .bool b => if b then 1 else 0
  | .double x => wholeUnit .double x.toNat

/-- Zero is false and everything else, a NaN included, is true. -/
def toBool : Value → Bool
  | .int n => n != 0
  | .char c => c != 0
  | .float x => !Format.single.isZero x.toNat
  | .bool b => b
  | .double x => !Format.double.isZero x.toNat

def toFloat : Value → Value
  | .float x => .float x
  | .double x => ofSingle (Format.double.convert .single x.toNat)
  | v => ofSingle (Format.single.ofInt v.toInt.toInt)

def toDouble : Value → Value
  | .float x => ofDouble (Format.single.convert .double x.toNat)
  | .double x => .double x
  | v => ofDouble (Format.double.ofInt v.toInt.toInt)

/-- Conversion to a type. A narrower integer keeps the low bits, a binary number becomes an
integer by dropping its fraction and stopping at the bounds, and every rounding is done once. -/
def cast (target : ValueType) (v : Value) : Value :=
  match target with
  | .int => .int v.toInt
  | .char => .char v.toChar
  | .float => v.toFloat
  | .bool => .bool v.toBool
  | .double => v.toDouble

theorem type_cast (t : ValueType) (v : Value) : (v.cast t).type = t := by
  cases t <;> cases v <;> rfl

/-! ## Order -/

/-- The pattern that decides between numbers that are neither below nor above each other; all
NaNs share one, which lies above every other. -/
def orderKey (bits : UInt64) : Int64 :=
  if Format.double.isNaN bits.toNat then Format.double.nan.toUInt64.toInt64 else bits.toInt64

/-- The order of 64-bit numbers: by value, then negative zero below zero, and the NaNs, equal to
each other, above everything else. -/
def compareDouble (a b : UInt64) : Ordering :=
  if Format.double.below a.toNat b.toNat then .lt
  else if Format.double.below b.toNat a.toNat then .gt
  else compare (orderKey a) (orderKey b)

/-- A 32-bit number as a 64-bit one, which is exact. -/
def widen (bits : UInt32) : UInt64 := (Format.single.convert .double bits.toNat).toUInt64

/-- Orders two values of one type. -/
def order : Value → Value → Option Ordering
  | .int a, .int b => some (compare a b)
  | .char a, .char b => some (compare a b)
  | .float a, .float b => some (compareDouble (widen a) (widen b))
  | .bool a, .bool b => some (compare a b)
  | .double a, .double b => some (compareDouble a b)
  | _, _ => none

end Value

end TypedStack
