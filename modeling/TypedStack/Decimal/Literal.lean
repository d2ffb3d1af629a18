import TypedStack.Binary.Format
/-!
# Decimal literals

Digits, a fraction and a power of ten as they stand in a text, before they are rounded to a
binary number.
-/

set_option autoImplicit false

namespace TypedStack.Decimal

/-- The value of a run of decimal digits. -/
def digitsValue (cs : List Char) : Nat := Nat.ofDigitChars 10 cs 0

/-- The leading run of decimal digits, and what follows it. -/
def takeDigits (cs : List Char) : List Char × List Char := cs.span Char.isDigit

/-- The number `whole.fraction * 10 ^ exponent`. -/
structure Literal where
  whole : List Char
  fraction : List Char
  exponent : Int
  deriving DecidableEq, Repr

namespace Literal

/-- The magnitude nearest to the literal. -/
def nearest (l : Literal) (f : Binary.Format) : Nat :=
  f.ofDecimal (digitsValue (l.whole ++ l.fraction)) (l.exponent - l.fraction.length)

end Literal

end TypedStack.Decimal
