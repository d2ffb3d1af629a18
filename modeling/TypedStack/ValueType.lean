/-!
# Types of values

The five types that an operand, a local slot or a constant can have, and the signatures of blocks.
A result type may be missing: `none` is written `Void`.
-/

set_option autoImplicit false

namespace TypedStack

inductive ValueType where
  /-- 64-bit signed integer. -/
  | int
  /-- 16-bit character code unit. -/
  | char
  /-- 32-bit binary number. -/
  | float
  | bool
  /-- 64-bit binary number. -/
  | double
  deriving DecidableEq, Repr

namespace ValueType

def name : ValueType → String
  | .int => "Int"
  | .char => "Char"
  | .float => "Float"
  | .bool => "Bool"
  | .double => "Double"

/-- The byte that stands for the type in code and artifacts. -/
def tag : ValueType → UInt8
  | .int => 1
  | .char => 2
  | .float => 3
  | .bool => 4
  | .double => 5

def ofTag? (byte : UInt8) : Option ValueType :=
  if byte = 1 then some .int
  else if byte = 2 then some .char
  else if byte = 3 then some .float
  else if byte = 4 then some .bool
  else if byte = 5 then some .double
  else none

@[simp] theorem ofTag?_tag (t : ValueType) : ofTag? t.tag = some t := by
  cases t <;> rfl

/-- Whether arithmetic is defined on the type. -/
def isNumeric : ValueType → Bool
  | .bool => false
  | _ => true

/-- A list of types as messages show it. -/
def listText (types : List ValueType) : String :=
  "[" ++ ", ".intercalate (types.map name) ++ "]"

end ValueType

/-- What a block or function gives back; `none` for no value. -/
abbrev ResultType := Option ValueType

def ResultType.name : ResultType → String
  | some t => t.name
  | none => "Void"

/-- Parameter and result types of a block. -/
structure Signature where
  params : List ValueType := []
  result : ResultType := none
  deriving DecidableEq, Repr

namespace Signature

/-- The signature as messages show it, such as `(Int, Double) -> Bool`. -/
def text (s : Signature) : String :=
  "(" ++ ", ".intercalate (s.params.map ValueType.name) ++ ") -> " ++ ResultType.name s.result

end Signature

end TypedStack
