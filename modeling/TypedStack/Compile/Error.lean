import TypedStack.Assembly.Error
import TypedStack.SyntaxTree.Basic
/-!
# Why a module cannot be compiled
-/

set_option autoImplicit false

namespace TypedStack.Compile

open Assembly

/-- A rule of the language that a place in the module breaks. -/
inductive Violation where
  | undefinedFunction (name : String)
  | undefinedVariable (name : String)
  | redeclaration (name : String)
  | voidValueUsed
  /-- Both operands of an arithmetic operation are truth values. -/
  | boolArithmetic
  | arityMismatch (name : String) (expected got : Nat)
  | duplicateFunction (name : String)
  deriving DecidableEq, Repr

def Violation.message : Violation → String
  | .undefinedFunction name => s!"function '{name}' not found"
  | .undefinedVariable name => s!"variable '{name}' not found"
  | .redeclaration name => s!"variable '{name}' is already declared"
  | .voidValueUsed => "a Void value cannot be used here"
  | .boolArithmetic => "type mismatch: arithmetic on Bool operands"
  | .arityMismatch name expected got =>
    s!"function '{name}' takes {expected} arguments, {got} given"
  | .duplicateFunction name => s!"function '{name}' is declared more than once"

/-- Why generated code is not usable. -/
inductive InternalCause where
  /-- A function has more variables than slots can be numbered. -/
  | tooManyVariables
  | assembly (cause : AssembleError)
  deriving DecidableEq, Repr

def InternalCause.message : InternalCause → String
  | .tooManyVariables => "too many local variables in one function"
  | .assembly cause => cause.message

inductive CompileError where
  | broken (loc : Location) (rule : Violation)
  | invalidName (name : String)
  | internal (cause : InternalCause)
  | cannotWrite (reason : String)
  deriving DecidableEq, Repr

namespace CompileError

def message : CompileError → String
  | .broken _ rule => rule.message
  | .invalidName name => s!"'{name}' is not a valid artifact name"
  | .internal cause =>
    s!"generated code failed verification, this is a compiler bug: {cause.message}"
  | .cannotWrite reason => s!"cannot write artifact: {reason}"

/-- The place in the module that is at fault. -/
def location? : CompileError → Option Location
  | .broken loc _ => some loc
  | _ => none

/-- Whether the compiler is at fault and not the module. -/
def isInternal : CompileError → Bool
  | .internal _ => true
  | _ => false

end CompileError

end TypedStack.Compile
