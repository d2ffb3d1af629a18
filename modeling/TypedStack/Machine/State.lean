import TypedStack.Machine.Input
import TypedStack.Value.Text
/-!
# States of the machine

A machine runs one artifact under fixed limits. All frames share one operand stack and one array of
local slots; each frame knows where its part of either begins.
-/

set_option autoImplicit false

namespace TypedStack

/-- How much a run may use. -/
structure Limits where
  /-- The greatest number of operands. -/
  operands : Nat := 65536
  /-- The greatest number of frames. -/
  frames : Nat := 1000
  deriving DecidableEq, Repr

structure Machine where
  artifact : Artifact
  limits : Limits := {}

/-- What a program has read and written. Lines are kept latest first, without their ends. -/
structure Console where
  input : Input
  /-- Whether the program has made its input ready for reading. -/
  opened : Bool := false
  outputLines : List String := []
  errorLines : List String := []
  deriving DecidableEq, Repr

namespace Console

def ofInput (bytes : List UInt8) : Console := { input := .ofBytes bytes }

/-- Lines kept latest first, as one text. -/
def joinLines (lines : List String) : String :=
  lines.reverse.foldl (fun s line => s ++ line ++ "\n") ""

def output (c : Console) : String := joinLines c.outputLines

def errors (c : Console) : String := joinLines c.errorLines

end Console

/-- An activation of a block. -/
structure Frame where
  block : Block
  /-- The offset of the next instruction. -/
  ip : Nat
  /-- Where the local slots of the frame begin. -/
  localsBase : Nat
  /-- The number of operands below those of the frame. -/
  stackBase : Nat
  deriving DecidableEq, Repr

/-- A running program: the innermost frame, and those that wait for it, outermost first. -/
structure State where
  console : Console
  frame : Frame
  callers : Array Frame
  locals : Array Value
  /-- The operand stack, top last. -/
  operands : Array Value
  deriving DecidableEq, Repr

/-- How a run ends when no error stops it. -/
inductive Outcome where
  /-- The outermost block returned. -/
  | returned (v : Option Value)
  /-- The program ended with a status. -/
  | exited (status : Int32)
  deriving DecidableEq, Repr

/-- What one instruction leads to. -/
inductive Progress where
  | running (s : State)
  | finished (o : Outcome) (c : Console)

end TypedStack
