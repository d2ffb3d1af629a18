import TypedStack.Json.Basic
/-!
# The tokens of a JSON text
-/

set_option autoImplicit false

namespace TypedStack.Json

open Decimal

inductive Token where
  | beginArray
  | endArray
  | beginObject
  | endObject
  | comma
  | colon
  | scalar (s : Scalar)
  deriving DecidableEq, Repr

/-! ## Strings -/

/-- A string while it is being read: the characters so far, backwards, and the first half of a
surrogate pair if one was just read. -/
structure PartialText where
  chars : List Char := []
  half : Option Nat := none
  broken : Bool := false

namespace PartialText

/-- Adds a character. A half that is waiting for its other half waits in vain. -/
def add (t : PartialText) (c : Char) : PartialText :=
  { chars := c :: t.chars, half := none, broken := t.broken || t.half.isSome }

/-- Adds a UTF-16 code unit, joining the two halves of a pair. -/
def addUnit (t : PartialText) (u : Nat) : PartialText :=
  if 0xD800 ≤ u ∧ u < 0xDC00 then
    { t with half := some u, broken := t.broken || t.half.isSome }
  else if 0xDC00 ≤ u ∧ u < 0xE000 then
    match t.half with
    | some high =>
      let c := Char.ofNat (0x10000 + (high - 0xD800) * 0x400 + (u - 0xDC00))
      { t with chars := c :: t.chars, half := none }
    | none => { t with broken := true }
  else t.add (Char.ofNat u)

def finish (t : PartialText) : Scalar :=
  if t.broken || t.half.isSome then .broken else .text (String.ofList t.chars.reverse)

end PartialText

/-- The value of a hexadecimal digit. -/
def hexValue? (c : Char) : Option Nat :=
  if '0' ≤ c ∧ c ≤ '9' then some (c.toNat - '0'.toNat)
  else if 'a' ≤ c ∧ c ≤ 'f' then some (c.toNat - 'a'.toNat + 10)
  else if 'A' ≤ c ∧ c ≤ 'F' then some (c.toNat - 'A'.toNat + 10)
  else none

def hexUnit? (a b c d : Char) : Option Nat := do
  some ((((← hexValue? a) * 16 + (← hexValue? b)) * 16 + (← hexValue? c)) * 16 + (← hexValue? d))

/-- The character of a two-character escape. -/
def simpleEscape? (c : Char) : Option Char :=
  match c with
  | '"' => some '"'
  | '\\' => some '\\'
  | '/' => some '/'
  | 'b' => some '\x08'
  | 'f' => some '\x0c'
  | 'n' => some '\n'
  | 'r' => some '\r'
  | 't' => some '\t'
  | _ => none

/-- Reads a string up to its closing quote; control characters have to be escaped. -/
def scanText (t : PartialText) : List Char → Option (Scalar × List Char)
  | [] => none
  | c :: rest =>
    if c = '"' then some (t.finish, rest)
    else if c = '\\' then
      match rest with
      | 'u' :: h₁ :: h₂ :: h₃ :: h₄ :: rest => do
        let u ← hexUnit? h₁ h₂ h₃ h₄
        scanText (t.addUnit u) rest
      | e :: rest => do
        let c ← simpleEscape? e
        scanText (t.add c) rest
      | [] => none
    else if c.toNat < 0x20 then none
    else scanText (t.add c) rest

/-! ## Numbers -/

/-- The digits after a point; there has to be one at least. -/
def scanFraction : List Char → Option (List Char × List Char)
  | '.' :: rest =>
    let (digits, rest) := takeDigits rest
    if digits.isEmpty then none else some (digits, rest)
  | rest => some ([], rest)

/-- The power of ten, with an optional sign and at least one digit. -/
def scanExponent : List Char → Option (Option Int × List Char)
  | [] => some (none, [])
  | c :: rest =>
    if c = 'e' ∨ c = 'E' then
      let (negative, rest) :=
        match rest with
        | '-' :: rest => (true, rest)
        | '+' :: rest => (false, rest)
        | rest => (false, rest)
      let (digits, rest) := takeDigits rest
      if digits.isEmpty then none
      else
        let n : Int := digitsValue digits
        some (some (if negative then -n else n), rest)
    else some (none, c :: rest)

/-- A number after its sign. No zero stands before other digits. -/
def scanNumber (negative : Bool) (cs : List Char) : Option (Scalar × List Char) := do
  let (whole, rest) := takeDigits cs
  if whole.isEmpty || (whole.head? == some '0' && 1 < whole.length) then none
  else
    let (fraction, rest) ← scanFraction rest
    let (exponent, rest) ← scanExponent rest
    some (.number { negative, whole, fraction, exponent }, rest)

/-! ## Texts -/

/-- Reads a word that has to stand at the front. -/
def scanWord (word : List Char) (s : Scalar) (cs : List Char) : Option (Scalar × List Char) :=
  if word.isPrefixOf cs then some (s, cs.drop word.length) else none

/-- A value without parts that starts with the character `c`. -/
def scanScalar (c : Char) (rest : List Char) : Option (Scalar × List Char) :=
  match c with
  | '"' => scanText {} rest
  | '-' => scanNumber true rest
  | 'n' => scanWord ['u', 'l', 'l'] .null rest
  | 't' => scanWord ['r', 'u', 'e'] (.bool true) rest
  | 'f' => scanWord ['a', 'l', 's', 'e'] (.bool false) rest
  | c => scanNumber false (c :: rest)

def isSpace (c : Char) : Bool := c == ' ' || c == '\t' || c == '\n' || c == '\r'

/-- The tokens up to the end of the text, after those already read. A token takes a character at
least, so as much fuel as there are characters is enough. -/
def scanFrom : Nat → List Char → Array Token → Option (Array Token)
  | _, [], done => some done
  | 0, _, _ => none
  | fuel + 1, c :: rest, done =>
    if isSpace c then scanFrom fuel rest done
    else match c with
      | '[' => scanFrom fuel rest (done.push .beginArray)
      | ']' => scanFrom fuel rest (done.push .endArray)
      | '\x7b' => scanFrom fuel rest (done.push .beginObject)
      | '\x7d' => scanFrom fuel rest (done.push .endObject)
      | ',' => scanFrom fuel rest (done.push .comma)
      | ':' => scanFrom fuel rest (done.push .colon)
      | c =>
        match scanScalar c rest with
        | none => none
        | some (s, rest) => scanFrom fuel rest (done.push (.scalar s))

/-- The tokens of a text. -/
def tokens? (cs : List Char) : Option (Array Token) := scanFrom cs.length cs #[]

end TypedStack.Json
