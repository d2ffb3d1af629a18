import TypedStack.Json.Basic
import TypedStack.Text.Quoted
/-!
# Writing JSON texts

One item or field a line, indented by two spaces for each array or object that is open.
-/

set_option autoImplicit false

namespace TypedStack.Json

open Decimal

/-- A character inside a string. Only quotes, backslashes and controls are escaped. -/
def escape (c : Char) : List Char :=
  match c with
  | '"' => ['\\', '"']
  | '\\' => ['\\', '\\']
  | '\x08' => ['\\', 'b']
  | '\t' => ['\\', 't']
  | '\n' => ['\\', 'n']
  | '\x0c' => ['\\', 'f']
  | '\r' => ['\\', 'r']
  | c => if c.toNat < 0x20 then '\\' :: 'u' :: Text.hexDigits 4 c.toNat else [c]

def quote (s : String) : List Char := '"' :: (s.toList.flatMap escape ++ ['"'])

/-- A power of ten carries its sign. -/
def Number.render (n : Number) : List Char :=
  let sign := if n.negative then ['-'] else []
  let fraction := if n.fraction.isEmpty then [] else '.' :: n.fraction
  let exponent :=
    match n.exponent with
    | none => []
    | some e => 'e' :: Scientific.intChars true e
  sign ++ n.whole ++ fraction ++ exponent

/-- A string that stands for no text is written as the empty one. -/
def Scalar.render : Scalar → List Char
  | .null => "null".toList
  | .bool b => if b then "true".toList else "false".toList
  | .number n => n.render
  | .text s => quote s
  | .broken => quote ""

/-- The start of a line inside `depth` open arrays and objects. -/
def newLine (depth : Nat) : List Char := '\n' :: List.replicate (2 * depth) ' '

mutual

/-- A value that stands inside `depth` open arrays and objects, in front of the rest of the text. -/
def renderAt (depth : Nat) : Json → List Char → List Char
  | .scalar s, rest => s.render ++ rest
  | .array [], rest => '[' :: ']' :: rest
  | .array (item :: items), rest =>
    '[' :: (newLine (depth + 1) ++ renderAt (depth + 1) item
      (renderItems (depth + 1) items (newLine depth ++ ']' :: rest)))
  | .object [], rest => '\x7b' :: '\x7d' :: rest
  | .object ((name, v) :: fields), rest =>
    '\x7b' :: (newLine (depth + 1) ++ quote (name.getD "") ++ ':' :: ' ' ::
      renderAt (depth + 1) v
        (renderFields (depth + 1) fields (newLine depth ++ '\x7d' :: rest)))

/-- The items after the first. -/
def renderItems (depth : Nat) : List Json → List Char → List Char
  | [], rest => rest
  | item :: items, rest =>
    ',' :: (newLine depth ++ renderAt depth item (renderItems depth items rest))

/-- The fields after the first. -/
def renderFields (depth : Nat) : List (Option String × Json) → List Char → List Char
  | [], rest => rest
  | (name, v) :: fields, rest =>
    ',' :: (newLine depth ++ quote (name.getD "") ++ ':' :: ' ' ::
      renderAt depth v (renderFields depth fields rest))

end

/-- The text of a value. -/
def render (v : Json) : String := String.ofList (renderAt 0 v [])

end TypedStack.Json
