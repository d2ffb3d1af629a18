import Std.Data.HashSet
import TypedStack.Verification.Flow
/-!
# Verification of an artifact

All blocks are verified in order and the first fault is reported. Block names are distinct, and the
reserved blocks have the signatures that running a program relies on.
-/

set_option autoImplicit false

namespace TypedStack

/-- The signature that a reserved block has to have. -/
def requiredSignature? (name : String) : Option Signature :=
  if name == startName || name == initName then some {}
  else if name == mainName then some { result := some .int }
  else none

def checkReserved (b : Block) : Except VerifyFault Unit :=
  match requiredSignature? b.name with
  | none => .ok ()
  | some expected =>
    if b.signature = expected then .ok ()
    else .error (.reservedSignature expected b.signature)

namespace Artifact

/-- Verifies one block on its own. -/
def verifyBlock (a : Artifact) (b : Block) : Except VerifyError Unit := do
  (checkReserved b).mapError (⟨b.name, 0, ·⟩)
  discard <| (TypingContext.shapes ⟨a.blocks, b⟩).mapError fun e => ⟨b.name, e.offset, e.fault⟩

/-- Verifies a block whose name must not be among those seen before. -/
def verifyNext (a : Artifact) (seen : Std.HashSet String) (b : Block) :
    Except VerifyError (Std.HashSet String) := do
  if seen.contains b.name then throw ⟨b.name, 0, .duplicateBlock⟩
  a.verifyBlock b
  pure (seen.insert b.name)

def verify (a : Artifact) : Except VerifyError Unit := do
  discard (a.blocks.foldlM a.verifyNext ∅)

end Artifact

end TypedStack
