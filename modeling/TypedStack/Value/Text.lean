import TypedStack.Decimal.Shortest
import TypedStack.Value.Basic
/-!
# The printed form of values

What a program writes when it prints a value.
-/

set_option autoImplicit false

namespace TypedStack

open Binary Decimal

namespace Value

/-- Powers of ten are written `E7` or `E-7`, and a single digit is followed by `.0`. -/
def printStyle : Scientific.Style := { mark := 'E', signed := false, pointed := true }

/-- Whether a number is printed positionally: its absolute value is at least a thousandth and
less than ten million. -/
def printsPlain (f : Format) (bits : Nat) : Bool :=
  1 <<< f.scale ≤ f.units bits * 1000 && f.units bits < 10000000 <<< f.scale

/-- A binary number in print, given the decimal digits to use for a finite one. -/
def numberText (f : Format) (bits : Nat) (digits : Scientific) : String :=
  let sign := if f.isNegative bits then ['-'] else []
  if f.isNaN bits then "NaN"
  else if f.isInfinite bits then String.ofList (sign ++ "Infinity".toList)
  else if f.isZero bits then String.ofList (sign ++ "0.0".toList)
  else if printsPlain f bits then String.ofList (sign ++ digits.plain)
  else String.ofList (sign ++ digits.exponential printStyle)

/-- The fewest digits that read back; of two equally near decimals the greater. -/
def printDigits (f : Format) (bits : Nat) : Scientific := shortest f .up bits

/-- The character of a code unit; half of a surrogate pair has none and is replaced. -/
def unitChar (codeUnit : UInt16) : Char :=
  if h : codeUnit.toUInt32.isValidChar then ⟨codeUnit.toUInt32, h⟩ else '�'

/-- The printed form of a value. -/
def text : Value → String
  | .int n => toString n.toInt
  | .char c => String.singleton (unitChar c)
  | .float x => numberText .single x.toNat (printDigits .single x.toNat)
  | .bool b => if b then "true" else "false"
  | .double x => numberText .double x.toNat (printDigits .double x.toNat)

end Value

end TypedStack
