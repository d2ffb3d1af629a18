import Std.Data.HashMap
import TypedStack.Machine.Step
import TypedStack.Verification.Artifact
/-!
# Running programs

A run repeats the step of the machine. A program may run for ever, so the number of steps is
limited by a fuel argument, and a run whose fuel is used up has no result yet.
-/

set_option autoImplicit false

namespace TypedStack

/-- A run of at most a given number of steps. On an error the console is that of the state in which
the failing instruction began. -/
inductive Execution where
  | unfinished (s : State)
  | ended (result : Except RuntimeError Outcome) (console : Console)

namespace Machine

/-- Runs a state for at most `fuel` steps. -/
def runState (m : Machine) : Nat → State → Execution
  | 0, s => .unfinished s
  | fuel + 1, s =>
    let console := s.console
    match m.step s with
    | .error e => .ended (.error e) console
    | .ok (.finished o c) => .ended (.ok o) c
    | .ok (.running s) => m.runState fuel s

/-- The state in which the block of an index begins, as the only frame, with arguments. -/
def begin (m : Machine) (index : Nat) (arguments : List Value) (console : Console) :
    Except RuntimeError State := do
  let operands ← arguments.foldlM (fun operands v => m.push v operands) #[]
  let (frame, locals, operands) ← m.activate index 0 0 #[] operands
  pure { console, frame, callers := #[], locals, operands }

/-- Runs one block from its beginning. -/
def invoke (m : Machine) (fuel index : Nat) (arguments : List Value) (console : Console) :
    Execution :=
  match m.begin index arguments console with
  | .error e => .ended (.error e) console
  | .ok s => m.runState fuel s

/-- Where the machine finds the blocks of its artifact. A name that has an entry keeps it. -/
def blocksByName (m : Machine) : Std.HashMap String Nat :=
  m.artifact.blocks.zipIdx.foldl (fun found q => found.insertIfNew q.1.name q.2) ∅

/-- The status of a program whose starting block ended. -/
def statusOf : Outcome → Int32
  | .returned _ => 0
  | .exited status => status

/-- Runs the blocks of a program, each by `invoke`: first the one that prepares it, if there is one,
then the starting block. -/
def runStages {μ : Type → Type} [Monad μ] (m : Machine) (invoke : Nat → Console → μ Execution)
    (console : Console) : μ Execution :=
  match m.blocksByName[startName]? with
  | none => pure (.ended (.error .notExecutable) console)
  | some start =>
    match m.blocksByName[initName]? with
    | none => invoke start console
    | some init => do
      match ← invoke init console with
      | .ended (.ok (.returned _)) console => invoke start console
      | other => pure other

/-- Runs a program, each of its blocks for at most `fuel` steps. -/
def runProgram (m : Machine) (fuel : Nat) (console : Console) : Execution :=
  Id.run (m.runStages (fun index console => pure (m.invoke fuel index [] console)) console)

/-- Calls a block by name, with empty input. -/
def call (m : Machine) (fuel : Nat) (name : String) (arguments : List Value) : Execution :=
  let console := Console.ofInput []
  match m.blocksByName[name]? with
  | none => .ended (.error (.unknownBlock name)) console
  | some index =>
    let expected := (m.artifact.blocks[index]?.map (·.signature.params.length)).getD 0
    if arguments.length ≠ expected then
      .ended (.error (.arityMismatch expected arguments.length)) console
    else match m.invoke fuel index arguments console with
      | .ended (.ok (.exited status)) console => .ended (.error (.exited status)) console
      | other => other

end Machine

/-- Reads an artifact and verifies it. -/
def Artifact.loadVerified (bytes : List UInt8) : Except RuntimeError Artifact := do
  let artifact ← (Artifact.ofBytes bytes).mapError .load
  artifact.verify.mapError .verify
  pure artifact

end TypedStack
