/-!
# Decimal numbers in scientific form

A positive decimal number is kept as its digits and the exponent of its leading digit. This file
writes such a number in the two usual ways, positionally (`Scientific.plain`) and with a power of
ten (`Scientific.exponential`). Which of the two is used, and the spelling of the exponent, is the
business of the format that prints the number.
-/

set_option autoImplicit false

namespace TypedStack.Decimal

/-- The number `lead.rest * 10 ^ exponent`, each digit a natural below ten. -/
structure Scientific where
  lead : Nat
  rest : List Nat
  exponent : Int
  deriving DecidableEq, Repr

namespace Scientific

def digits (s : Scientific) : List Nat := s.lead :: s.rest

def digitChars (digits : List Nat) : List Char := digits.map Nat.digitChar

/-- The digits before and after the point in positional form, at least one on each side. -/
def positional (s : Scientific) : List Nat × List Nat :=
  if 0 ≤ s.exponent then
    let point := s.exponent.toNat + 1
    if point < s.digits.length then (s.digits.take point, s.digits.drop point)
    else (s.digits ++ List.replicate (point - s.digits.length) 0, [0])
  else ([0], List.replicate ((-s.exponent).toNat - 1) 0 ++ s.digits)

/-- Positional form. -/
def plain (s : Scientific) : List Char :=
  let (whole, fraction) := s.positional
  digitChars whole ++ '.' :: digitChars fraction

/-- How a power of ten is spelled. -/
structure Style where
  /-- The character before the exponent. -/
  mark : Char
  /-- Whether a positive exponent carries its sign. -/
  signed : Bool
  /-- Whether a single digit is followed by `.0`. -/
  pointed : Bool

/-- The decimal text of an integer. -/
def intChars (signed : Bool) (n : Int) : List Char :=
  let ds := Nat.toDigits 10 n.natAbs
  if n < 0 then '-' :: ds
  else if signed then '+' :: ds
  else ds

/-- One digit, the point, the further digits, and the power of ten. -/
def exponential (style : Style) (s : Scientific) : List Char :=
  let fraction :=
    if s.rest.isEmpty then (if style.pointed then ['.', '0'] else [])
    else '.' :: digitChars s.rest
  Nat.digitChar s.lead :: (fraction ++ style.mark :: intChars style.signed s.exponent)

end Scientific

end TypedStack.Decimal
