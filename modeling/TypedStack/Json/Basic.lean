import TypedStack.Decimal.Literal
import TypedStack.Decimal.Shortest
/-!
# JSON values

The data of a JSON text, with nothing decided yet about its meaning: a number keeps its digits, an
object keeps its fields in order and may name one twice, and a string with half of a surrogate pair
in it, which stands for no text, is told apart from the others.
-/

set_option autoImplicit false

namespace TypedStack

open Binary Decimal

namespace Json

/-- A number as it is written: `whole`, then `.fraction` and a power of ten if it has them. -/
structure Number where
  negative : Bool
  whole : List Char
  fraction : List Char := []
  exponent : Option Int := none
  deriving DecidableEq, Repr

namespace Number

/-- The integer that the number is written as. A fraction, a power of ten or a minus sign before
zero make it something else. -/
def int? (n : Number) : Option Int :=
  let value := digitsValue n.whole
  if n.fraction.isEmpty && n.exponent.isNone && !(n.negative && value == 0) then
    some (if n.negative then -(value : Int) else value)
  else none

/-! ### Rounding

A number is rounded in steps. Its digits are taken up into a significand of 64 bits, which is
rounded to a binary number and then multiplied or divided by a power of ten that is rounded itself.
So the result may miss the nearest binary number by a little. -/

/-- Appends digits to a significand for as long as 64 bits hold it. What is left begins with the
first digit that did not fit. -/
def absorb (significand : Nat) : List Char → Nat × List Char
  | [] => (significand, [])
  | c :: cs =>
    let longer := 10 * significand + (c.toNat - '0'.toNat)
    if longer < UInt64.size then absorb longer cs else (significand, c :: cs)

/-- The significand, and the power of ten that goes with it. A digit that does not fit before the
point still counts as a place, and behind the point it is dropped. -/
def parts (n : Number) : Nat × Int :=
  let (front, further) := absorb 0 n.whole
  let (significand, dropped) := absorb front n.fraction
  (significand, further.length - (n.fraction.length - dropped.length : Nat) + n.exponent.getD 0)

/-- The greatest power of ten that is a finite 64-bit binary number. -/
def greatestPower : Nat := 308

/-- The power of ten as a binary number. -/
def powerOfTen (e : Nat) : Nat := Format.double.ofDecimal 1 e

/-- Divides by the greatest power of ten so many times, or until nothing is left. -/
def shrink (magnitude : Nat) : Nat → Nat
  | 0 => magnitude
  | times + 1 =>
    if Format.double.isZero magnitude then magnitude
    else shrink (Format.double.div magnitude (powerOfTen greatestPower)) times

/-- A significand times a power of ten, unless that is too great for a binary number. -/
def scaled? (significand : Nat) (exponent : Int) : Option Nat :=
  let f := Format.double
  let magnitude := f.ofInt significand
  let places := exponent.natAbs
  if exponent < 0 then
    -- as many divisions as bring the places that remain down to a power that is finite
    let times := (places - 1) / greatestPower
    some (f.div (shrink magnitude times) (powerOfTen (places - times * greatestPower)))
  else if places ≤ greatestPower then
    let product := f.mul magnitude (powerOfTen places)
    if f.isInfinite product then none else some product
  else if f.isZero magnitude then some magnitude
  else none

/-- The 64-bit binary number that the number is read as, unless it is too great for one. -/
def double? (n : Number) : Option UInt64 :=
  let (significand, exponent) := n.parts
  (scaled? significand exponent).map fun magnitude =>
    (Format.double.withSign n.negative magnitude).toUInt64

/-! ### Writing -/

def ofInt (n : Int) : Number := { negative := n < 0, whole := Nat.toDigits 10 n.natAbs }

/-- A 64-bit binary number in the fewest digits that read back, an exact tie going to the even
one: positional from a hundred-thousandth up to ten to the sixteenth, and with a power of ten
otherwise. A NaN or an infinity has no number. -/
def ofDouble? (bits : UInt64) : Option Number :=
  let f := Format.double
  let negative := f.isNegative bits.toNat
  if f.isNaN bits.toNat || f.isInfinite bits.toNat then none
  else if f.isZero bits.toNat then some { negative, whole := ['0'], fraction := ['0'] }
  else
    let s := shortest f .even bits.toNat
    if -5 ≤ s.exponent && s.exponent < 16 then
      let (whole, fraction) := s.positional
      some { negative
             whole := Scientific.digitChars whole
             fraction := Scientific.digitChars fraction }
    else
      some { negative
             whole := Scientific.digitChars [s.lead]
             fraction := Scientific.digitChars s.rest
             exponent := s.exponent }

end Number

/-- A value without parts. -/
inductive Scalar where
  | null
  | bool (b : Bool)
  | number (n : Number)
  | text (s : String)
  /-- A string that stands for no text. -/
  | broken
  deriving DecidableEq, Repr

end Json

inductive Json where
  | scalar (s : Json.Scalar)
  | array (items : List Json)
  /-- The fields in order. A name is missing where it stands for no text. -/
  | object (fields : List (Option String × Json))

namespace Json

def text? : Json → Option String
  | .scalar (.text s) => some s
  | _ => none

def int? : Json → Option Int
  | .scalar (.number n) => n.int?
  | _ => none

def double? : Json → Option UInt64
  | .scalar (.number n) => n.double?
  | _ => none

def isNull : Json → Bool
  | .scalar .null => true
  | _ => false

/-- Every number is in range and every string a text, and at most `room` arrays and objects are
open at once. -/
def isSound : Nat → Json → Bool
  | _, .scalar .broken => false
  | _, .scalar (.number n) => n.double?.isSome
  | _, .scalar _ => true
  | 0, _ => false
  | room + 1, .array items => items.all (isSound room)
  | room + 1, .object fields => fields.all fun (name, v) => name.isSome && isSound room v

end Json

end TypedStack
