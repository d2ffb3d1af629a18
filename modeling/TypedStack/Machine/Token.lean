import TypedStack.Decimal.Literal
import TypedStack.Value.Basic
/-!
# Values in the input

How a word of the input is read as a value of a type.
-/

set_option autoImplicit false

namespace TypedStack.Token

open Binary Decimal

/-- An optional sign, and whether it is a minus. -/
def takeSign : List Char → Bool × List Char
  | '-' :: rest => (true, rest)
  | '+' :: rest => (false, rest)
  | rest => (false, rest)

/-- A whole number in decimal digits, with an optional sign. -/
def integer? (cs : List Char) : Option Int :=
  let (negative, digits) := takeSign cs
  if digits.isEmpty || !digits.all Char.isDigit then none
  else
    let n : Int := digitsValue digits
    some (if negative then -n else n)

/-- A 64-bit integer; there is none for a number out of range. -/
def int? (cs : List Char) : Option Int64 := do
  let n ← integer? cs
  if Int64.minValue.toInt ≤ n ∧ n ≤ Int64.maxValue.toInt then some (Int64.ofInt n) else none

/-- The power of ten after the digits, if there is one, up to the end of the word. -/
def exponent? : List Char → Option Int
  | [] => some 0
  | c :: rest => if c = 'e' ∨ c = 'E' then integer? rest else none

/-- Digits with at most one point among them, and an optional power of ten. At least one digit has
to stand before the power of ten. -/
def literal? (cs : List Char) : Option Literal := do
  let (whole, rest) := takeDigits cs
  let (fraction, rest) :=
    match rest with
    | '.' :: rest => takeDigits rest
    | rest => ([], rest)
  if whole.isEmpty && fraction.isEmpty then none
  else some { whole, fraction, exponent := ← exponent? rest }

/-- A binary number: a decimal one, or the names of the infinities and of NaN in any case. -/
def number? (f : Format) (cs : List Char) : Option Nat :=
  let (negative, body) := takeSign cs
  let name := String.ofList (body.map Char.toLower)
  if name = "nan" then some (f.withSign negative f.nan)
  else if name = "inf" ∨ name = "infinity" then some (f.withSign negative f.infinity)
  else (literal? body).map fun l => f.withSign negative (l.nearest f)

/-- The first UTF-16 code unit of a character. -/
def firstUnit (c : Char) : UInt16 :=
  if c.toNat < 0x10000 then UInt16.ofNat c.toNat
  else UInt16.ofNat (0xD800 + (c.toNat - 0x10000) / 0x400)

def bool? (cs : List Char) : Option Bool :=
  let name := String.ofList (cs.map Char.toLower)
  if name = "true" then some true
  else if name = "false" then some false
  else none

/-- The value of a type that a word stands for. A character is the first code unit of the word. -/
def value? (t : ValueType) (token : String) : Option Value :=
  let cs := token.toList
  match t with
  | .int => (int? cs).map .int
  | .char => cs.head?.map (fun c => .char (firstUnit c))
  | .float => (number? .single cs).map Value.ofSingle
  | .bool => (bool? cs).map .bool
  | .double => (number? .double cs).map Value.ofDouble

end TypedStack.Token
