/-!
# Binary floating-point formats

Every finite number of a binary format is a whole number of *units*, the unit being the format's
least positive number. So a bit pattern stands for an integer (`Format.signed`), and the nearest
bit pattern to an exact quotient of units is found by integer division (`Format.nearest`). No
floating-point operation is used: what holds of these definitions is a fact about integers.
-/

set_option autoImplicit false

namespace TypedStack.Binary

/-- The quotient of two naturals rounded to the nearest integer, a half to the even one. -/
def roundQuotient (num den : Nat) : Nat :=
  let down := num / den
  let twice := 2 * (num % den)
  if twice < den then down
  else if den < twice then down + 1
  else down + down % 2

/-- A binary interchange format: a sign bit, then the exponent field, then the fraction field. -/
structure Format where
  fractionBits : Nat
  exponentBits : Nat
  deriving DecidableEq, Repr

namespace Format

/-- The 32-bit format. -/
def single : Format := ⟨23, 8⟩

/-- The 64-bit format. -/
def double : Format := ⟨52, 11⟩

/-- One unit is `2 ^ (-scale)`. -/
def scale (f : Format) : Nat := (1 <<< (f.exponentBits - 1)) + f.fractionBits - 2

/-- The weight of the lowest bit of the exponent field. -/
def fractionSize (f : Format) : Nat := 1 <<< f.fractionBits

/-- The weight of the sign bit. -/
def signWeight (f : Format) : Nat := 1 <<< (f.fractionBits + f.exponentBits)

/-- The pattern of positive infinity: exponent field all ones, fraction zero. -/
def infinity (f : Format) : Nat := ((1 <<< f.exponentBits) - 1) * f.fractionSize

/-- The quiet NaN with an empty payload. -/
def nan (f : Format) : Nat := f.infinity + f.fractionSize / 2

/-! ## Reading a pattern -/

/-- The pattern without its sign bit. -/
def magnitude (f : Format) (bits : Nat) : Nat := bits % f.signWeight

def isNegative (f : Format) (bits : Nat) : Bool := f.signWeight ≤ bits

def isNaN (f : Format) (bits : Nat) : Bool := f.infinity < f.magnitude bits

def isInfinite (f : Format) (bits : Nat) : Bool := f.magnitude bits == f.infinity

def isZero (f : Format) (bits : Nat) : Bool := f.magnitude bits == 0

/-- How far the significand is shifted: one less than the exponent field, and zero for a
subnormal number. -/
def shift (f : Format) (bits : Nat) : Nat := f.magnitude bits / f.fractionSize - 1

/-- The significand; only a normal number has the hidden bit. -/
def significand (f : Format) (bits : Nat) : Nat :=
  let m := f.magnitude bits
  if m < f.fractionSize then m else f.fractionSize + m % f.fractionSize

/-- The absolute value in units. An infinity counts as the number that would follow the greatest
finite one, which keeps the order. -/
def units (f : Format) (bits : Nat) : Nat := f.significand bits <<< f.shift bits

/-- The value in units. -/
def signed (f : Format) (bits : Nat) : Int :=
  if f.isNegative bits then -(f.units bits : Int) else f.units bits

/-! ## Writing a pattern -/

/-- Sets the sign of a magnitude. -/
def withSign (f : Format) (negative : Bool) (magnitude : Nat) : Nat :=
  if negative then f.signWeight + magnitude else magnitude

/-- The pattern with the other sign. -/
def negate (f : Format) (bits : Nat) : Nat :=
  f.withSign (!f.isNegative bits) (f.magnitude bits)

/-- The magnitude nearest to `num / den` units, a half to the even one, and infinity from half a
unit of the last place above the greatest finite number.

With `k` the shift that leaves a significand of full width, consecutive patterns are consecutive
significands, so a significand that rounds up to the next power of two carries into the exponent
field by plain addition. -/
def nearest (f : Format) (num den : Nat) : Nat :=
  let k := (num / den).log2 - f.fractionBits
  min f.infinity (k * f.fractionSize + roundQuotient num (den <<< k))

/-- The number nearest to an integer. -/
def ofInt (f : Format) (n : Int) : Nat :=
  f.withSign (n < 0) (f.nearest (n.natAbs <<< f.scale) 1)

/-- The number of decimal digits of `n`. -/
def decimalLength (n : Nat) : Nat := (Nat.toDigits 10 n).length

/-- The magnitude nearest to `digits * 10 ^ exponent`. The two guards only spare the arithmetic:
a number of at least `2 ^ 2 ^ (exponentBits - 1)` is infinite and one below half a unit is zero. -/
def ofDecimal (f : Format) (digits : Nat) (exponent : Int) : Nat :=
  let top := decimalLength digits + exponent
  if digits = 0 then 0
  else if ((1 <<< (f.exponentBits - 1) : Nat) : Int) ≤ 3 * (top - 1) then f.infinity
  else if (f.scale + 1 : Int) ≤ 3 * (-top) then 0
  else if 0 ≤ exponent then f.nearest ((digits * Nat.pow 10 exponent.toNat) <<< f.scale) 1
  else f.nearest (digits <<< f.scale) (Nat.pow 10 (-exponent).toNat)

/-- The number of format `g` nearest to a number of format `f`. -/
def convert (f g : Format) (bits : Nat) : Nat :=
  if f.isNaN bits then g.nan
  else g.withSign (f.isNegative bits) <|
    if f.isInfinite bits then g.infinity
    else g.nearest (f.units bits <<< g.scale) (1 <<< f.scale)

/-- The integer part, towards zero, held inside `[low, high]`; a NaN gives zero. -/
def toIntWithin (f : Format) (low high : Int) (bits : Nat) : Int :=
  if f.isNaN bits then 0
  else max low (min high ((f.signed bits).tdiv (1 <<< f.scale : Nat)))

/-! ## Arithmetic

Each operation is the exact result, rounded once. -/

def add (f : Format) (a b : Nat) : Nat :=
  if f.isNaN a || f.isNaN b then f.nan
  else if f.isInfinite a then
    if f.isInfinite b && f.isNegative a != f.isNegative b then f.nan else a
  else if f.isInfinite b then b
  else
    let sum := f.signed a + f.signed b
    if sum = 0 then f.withSign (f.isNegative a && f.isNegative b) 0
    else f.withSign (sum < 0) (f.nearest sum.natAbs 1)

def sub (f : Format) (a b : Nat) : Nat := f.add a (f.negate b)

def mul (f : Format) (a b : Nat) : Nat :=
  let negative := f.isNegative a != f.isNegative b
  if f.isNaN a || f.isNaN b then f.nan
  else if f.isInfinite a || f.isInfinite b then
    if f.isZero a || f.isZero b then f.nan else f.withSign negative f.infinity
  else f.withSign negative (f.nearest (f.units a * f.units b) (1 <<< f.scale))

def div (f : Format) (a b : Nat) : Nat :=
  let negative := f.isNegative a != f.isNegative b
  if f.isNaN a || f.isNaN b then f.nan
  else if f.isInfinite a then
    if f.isInfinite b then f.nan else f.withSign negative f.infinity
  else if f.isInfinite b then f.withSign negative 0
  else if f.isZero b then
    if f.isZero a then f.nan else f.withSign negative f.infinity
  else f.withSign negative (f.nearest (f.units a <<< f.scale) (f.units b))

/-! ## Order -/

/-- The numeric order, in which a NaN is neither below nor above anything. -/
def below (f : Format) (a b : Nat) : Bool :=
  !f.isNaN a && !f.isNaN b && f.signed a < f.signed b

end Format

end TypedStack.Binary
