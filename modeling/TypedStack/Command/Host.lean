import TypedStack.Machine.Error
import TypedStack.Machine.State
/-!
# What commands need of their surroundings
-/

set_option autoImplicit false

namespace TypedStack.Command

/-- The effects that a command may have. A failing one gives its reason as text. -/
structure Host (μ : Type → Type) where
  readFile : String → μ (Except String (List UInt8))
  /-- Puts a file in place as a whole: a reader finds the old content or the new one. -/
  replaceFile : String → List UInt8 → μ (Except String Unit)
  /-- Writes to the output. -/
  print : String → μ Unit
  /-- Writes to the error output. -/
  report : String → μ Unit
  /-- Runs a program on the input and both outputs. -/
  runProgram : Machine → μ (Except RuntimeError Int32)

end TypedStack.Command
