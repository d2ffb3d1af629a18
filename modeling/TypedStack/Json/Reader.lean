import TypedStack.Json.Token
/-!
# Reading JSON texts

The tokens are taken one by one; the arrays and objects that are open wait on a stack. So the depth
of a text is not limited here.
-/

set_option autoImplicit false

namespace TypedStack.Json

/-- An array or object that is not closed yet, its parts backwards. -/
inductive Open where
  | array (items : List Json)
  | object (fields : List (Option String × Json))
  /-- An object whose last field has a name and no value yet. -/
  | field (fields : List (Option String × Json)) (name : Option String)

/-- What the next token may be. -/
inductive Expected where
  | value
  /-- The first item of an array, or its end. -/
  | firstItem
  /-- The first name in an object, or its end. -/
  | firstName
  | name
  | colon
  /-- What follows an item or field: a comma or the end. -/
  | separator
  /-- Nothing: the text is complete. -/
  | nothing (v : Json)

abbrev ReaderState := Expected × List Open

/-- Puts a complete value where it belongs. -/
def deliver (v : Json) : List Open → Option ReaderState
  | [] => some (.nothing v, [])
  | .array items :: rest => some (.separator, .array (v :: items) :: rest)
  | .field fields name :: rest => some (.separator, .object ((name, v) :: fields) :: rest)
  | .object _ :: _ => none

/-- Takes the first token of a value. -/
def beginValue (t : Token) (stack : List Open) : Option ReaderState :=
  match t with
  | .beginArray => some (.firstItem, .array [] :: stack)
  | .beginObject => some (.firstName, .object [] :: stack)
  | .scalar s => deliver (.scalar s) stack
  | _ => none

/-- Takes the name of a field. -/
def takeName (t : Token) (stack : List Open) : Option ReaderState :=
  match t, stack with
  | .scalar (.text s), .object fields :: rest => some (.colon, .field fields (some s) :: rest)
  | .scalar .broken, .object fields :: rest => some (.colon, .field fields none :: rest)
  | _, _ => none

/-- Closes the innermost array or object. -/
def close (t : Token) (stack : List Open) : Option ReaderState :=
  match t, stack with
  | .endArray, .array items :: rest => deliver (.array items.reverse) rest
  | .endObject, .object fields :: rest => deliver (.object fields.reverse) rest
  | _, _ => none

/-- Takes one token. -/
def advance (state : ReaderState) (t : Token) : Option ReaderState :=
  match state with
  | (.value, stack) => beginValue t stack
  | (.firstItem, stack) => if t = .endArray then close t stack else beginValue t stack
  | (.firstName, stack) => if t = .endObject then close t stack else takeName t stack
  | (.name, stack) => takeName t stack
  | (.colon, stack) => if t = .colon then some (.value, stack) else none
  | (.separator, stack) =>
    if t = .comma then
      match stack with
      | .array _ :: _ => some (.value, stack)
      | .object _ :: _ => some (.name, stack)
      | _ => none
    else close t stack
  | (.nothing _, _) => none

/-- The value that the tokens spell. -/
def ofTokens? (ts : Array Token) : Option Json := do
  match ← ts.foldlM advance (.value, []) with
  | (.nothing v, _) => some v
  | _ => none

/-- The value of a JSON text. -/
def parse? (s : String) : Option Json := tokens? s.toList >>= ofTokens?

end TypedStack.Json
