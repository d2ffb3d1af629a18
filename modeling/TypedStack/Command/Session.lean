import TypedStack.Command.Execute
import TypedStack.Command.Folder
/-!
# Commands without a file system

A session keeps files, input and outputs as plain data, so that what a command does to them is a
function.
-/

set_option autoImplicit false

namespace TypedStack.Command

structure Session where
  folder : Folder
  input : List UInt8 := []
  output : String := ""
  errors : String := ""

namespace Session

/-- A computation on a session; there is no result if a program does not end in time. -/
abbrev Action := StateT Session Option

/-- The effects of commands on a session. Programs run for at most `fuel` steps a block. -/
def host (fuel : Nat) : Host Action where
  readFile path := do pure (((← get).folder.read path).mapError FileError.message)
  replaceFile path bytes := do
    match (← get).folder.replace path bytes with
    | .ok folder =>
      modify fun s => { s with folder }
      pure (.ok ())
    | .error e => pure (.error e.message)
  print text := modify fun s => { s with output := s.output ++ text }
  report text := modify fun s => { s with errors := s.errors ++ text }
  runProgram machine := do
    match machine.runProgram fuel (.ofInput (← get).input) with
    | .unfinished _ => failure
    | .ended result console =>
      modify fun s =>
        { s with output := s.output ++ console.output, errors := s.errors ++ console.errors }
      pure (result.map Machine.statusOf)

/-- What a command does to a session, and its exit status. -/
def run (fuel : Nat) (arguments : List String) (s : Session) : Option (UInt8 × Session) :=
  (dispatch (host fuel) arguments).run s

end Session

end TypedStack.Command
