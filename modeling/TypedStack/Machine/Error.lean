import TypedStack.Artifact.Reader
import TypedStack.Verification.Error
/-!
# Why a program stops with an error
-/

set_option autoImplicit false

namespace TypedStack

inductive RuntimeError where
  | stackUnderflow
  | stackOverflow
  | callDepthExceeded
  /-- A value of another type was expected; without an expected type, any numeric one. -/
  | typeError (expected : Option ValueType) (got : ValueType)
  | arityMismatch (expected got : Nat)
  | divisionByZero
  | decode (cause : DecodeError)
  | badConstant (index : UInt16)
  | badSlot (slot : UInt16)
  | unknownBlock (name : String)
  | notExecutable
  | inputNotOpened
  | inputExhausted
  | inputMismatch (expected : ValueType) (token : String)
  /-- A line of the input is no UTF-8 text. -/
  | inputNotText
  /-- A called block ended the program. -/
  | exited (status : Int32)
  | load (cause : LoadError)
  | verify (cause : VerifyError)
  deriving DecidableEq, Repr

namespace RuntimeError

/-- What a type error says was expected. -/
def expectedText : Option ValueType → String
  | some t => t.name
  | none => "numeric"

def message : RuntimeError → String
  | .stackUnderflow => "stack underflow"
  | .stackOverflow => "stack overflow"
  | .callDepthExceeded => "maximum call depth exceeded"
  | .typeError expected got => s!"type error: expected {expectedText expected}, got {got.name}"
  | .arityMismatch expected got => s!"arity mismatch: expected {expected} arguments, got {got}"
  | .divisionByZero => "division by zero"
  | .decode cause => s!"invalid bytecode: {cause.message}"
  | .badConstant index => s!"constant #{index.toNat} cannot be used here"
  | .badSlot slot => s!"slot {slot.toNat} is out of range"
  | .unknownBlock name => s!"block not found: {name}"
  | .notExecutable => "artifact has no entry point"
  | .inputNotOpened => "input read before it was opened"
  | .inputExhausted => "no more input"
  | .inputMismatch expected token => s!"input mismatch: expected {expected.name}, found '{token}'"
  | .inputNotText => "i/o error: stream did not contain valid UTF-8"
  | .exited status => s!"program exited with status {status.toInt}"
  | .load cause => s!"cannot load artifact: {cause.message}"
  | .verify cause => s!"artifact failed verification: {cause.message}"

end RuntimeError

end TypedStack
