import TypedStack.Text.Quoted
import TypedStack.Value.Text
/-!
# Constants

An entry of a constant pool: a value that can be pushed, or the text of a message. Two constants
are the same only if they are of one kind and agree bit for bit.
-/

set_option autoImplicit false

namespace TypedStack

open Binary Decimal

inductive Constant where
  | value (v : Value)
  | message (text : String)
  deriving DecidableEq, Repr

namespace Constant

/-- The value that the constant pushes, if it can be pushed at all. -/
def value? : Constant → Option Value
  | .value v => some v
  | .message _ => none

/-- The type of what the constant pushes. -/
def type? (c : Constant) : Option ValueType := c.value?.map Value.type

/-- Powers of ten are written `e7` or `e-7`, without a point after a single digit. -/
def listingStyle : Scientific.Style := { mark := 'e', signed := false, pointed := false }

/-- A binary number in a listing: positional from a ten-thousandth up to ten to the sixteenth. -/
def numberText (f : Format) (bits : Nat) : String :=
  let sign := if f.isNegative bits then ['-'] else []
  if f.isNaN bits then "NaN"
  else if f.isInfinite bits then String.ofList (sign ++ "inf".toList)
  else if f.isZero bits then String.ofList (sign ++ "0.0".toList)
  else
    let digits := Value.printDigits f bits
    if -4 ≤ digits.exponent && digits.exponent < 16 then String.ofList (sign ++ digits.plain)
    else String.ofList (sign ++ digits.exponential listingStyle)

/-- The constant as a listing shows it. -/
def text : Constant → String
  | .value (.char c) => s!"char {c.toNat}"
  | .value (.float x) => numberText .single x.toNat ++ "f"
  | .value (.double x) => numberText .double x.toNat
  | .value v => v.text
  | .message s => Text.quoted s

end Constant

end TypedStack
