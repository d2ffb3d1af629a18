import TypedStack.Command.Execute
/-!
# The command line

The effects of commands on the files and streams of the process. Input is read line by line when
the running program asks for it, so that a program can be used in a dialogue.
-/

set_option autoImplicit false

namespace TypedStack

/-- The reason of a failure as the system words it. -/
def reasonText (e : IO.Error) : String :=
  match e with
  | .noFileOrDirectory _ code details | .permissionDenied _ code details
  | .inappropriateType _ code details | .resourceExhausted _ code details
  | .invalidArgument _ code details | .alreadyExists _ code details
  | .resourceBusy code details => s!"{details} (os error {code.toNat})"
  | e => toString e

def attempt {α : Type} (action : IO α) : IO (Except String α) := do
  try
    pure (.ok (← action))
  catch e => pure (.error (reasonText e))

/-- The bytes up to the next end of line, or up to the end of the input. -/
partial def readLine (stdin : IO.FS.Stream) (line : List UInt8) : IO (List UInt8) := do
  let bytes ← stdin.read 1
  match bytes.data.toList with
  | [] => pure line.reverse
  | byte :: _ =>
    if byte = 0x0A then pure (byte :: line).reverse else readLine stdin (byte :: line)

/-- Writes the lines of a console and forgets them. -/
def flushLines (console : Console) : IO Console := do
  unless console.outputLines.isEmpty do
    (← IO.getStdout).putStr console.output
    (← IO.getStdout).flush
  unless console.errorLines.isEmpty do (← IO.getStderr).putStr console.errors
  pure { console with outputLines := [], errorLines := [] }

/-- Runs a state to its end. A line of input is fetched whenever the next step would find none. -/
partial def converse (m : Machine) (s : State) : IO Execution := do
  let s ← if s.awaitsInput then fetch s else pure s
  match m.runState 1 s with
  | .ended result console => pure (.ended result (← flushLines console))
  | .unfinished s => converse m { s with console := ← flushLines s.console }
where
  fetch (s : State) : IO State := do
    let line ← readLine (← IO.getStdin) []
    let s := { s with console.input.rest := [line] }
    if line.isEmpty ∨ !s.awaitsInput then pure s else fetch s

/-- Runs a block on the streams of the process. -/
def invokeLive (m : Machine) (index : Nat) (console : Console) : IO Execution := do
  match m.begin index [] console with
  | .error e => pure (.ended (.error e) console)
  | .ok s => converse m s

/-- Runs a program on the streams of the process. -/
def runLive (m : Machine) : IO (Except RuntimeError Int32) := do
  match ← m.runStages (invokeLive m) (.ofInput []) with
  | .ended result _ => pure (result.map Machine.statusOf)
  | .unfinished _ => pure (.ok 0)

/-- A new file in the folder of the one to be replaced. -/
def writeDraft (path : String) (bytes : List UInt8) : IO String := do
  let folder := (Command.Path.ofString path).folderText
  let number := (← IO.monoNanosNow) % 1000000
  let draft := s!"{folder}/.tmp{number}"
  IO.FS.withFile draft .writeNew (·.write ⟨bytes.toArray⟩)
  pure draft

/-- Writes a draft and moves it into place. No draft stays behind if that fails. -/
def replaceFile (path : String) (bytes : List UInt8) : IO (Except String Unit) := do
  match ← attempt (writeDraft path bytes) with
  | .error reason =>
    let folder := (Command.Path.ofString path).folderText
    pure (.error s!"{reason} at path {folder}")
  | .ok draft =>
    let moved ← attempt (IO.FS.rename draft path)
    unless moved.isOk do IO.FS.removeFile draft
    pure moved

/-- The effects of commands on the process. -/
def processHost : Command.Host IO where
  readFile path := attempt do
    pure (← IO.FS.withFile path .read (·.readBinToEnd)).data.toList
  replaceFile := replaceFile
  print text := do
    (← IO.getStdout).putStr text
    (← IO.getStdout).flush
  report text := do (← IO.getStderr).putStr text
  runProgram := runLive

end TypedStack

def main (arguments : List String) : IO UInt32 := do
  pure (← TypedStack.Command.dispatch TypedStack.processHost arguments).toUInt32
