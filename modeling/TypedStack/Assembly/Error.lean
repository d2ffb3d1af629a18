import TypedStack.Assembly.Basic
import TypedStack.Verification.Error
/-!
# Why a program cannot be assembled
-/

set_option autoImplicit false

namespace TypedStack.Assembly

/-- What is wrong inside one block. -/
inductive BlockError where
  | unboundLabel (l : Label)
  | duplicateLabel (l : Label)
  | undefinedBlock (callee : String)
  | signatureMismatch (callee : String) (used declared : Signature)
  | codeTooLarge
  | tooManyConstants
  | tooManySlots
  | tooManyParams
  deriving DecidableEq, Repr

def BlockError.message : BlockError → String
  | .unboundLabel l => s!"label {l.text} is never marked"
  | .duplicateLabel l => s!"label {l.text} is marked twice"
  | .undefinedBlock callee => s!"call to undefined block '{callee}'"
  | .signatureMismatch callee used declared =>
    s!"call to '{callee}' with signature {used.text}, but it is declared {declared.text}"
  | .codeTooLarge => "code exceeds 65535 bytes"
  | .tooManyConstants => "too many constants"
  | .tooManySlots => "too many slots"
  | .tooManyParams => "more than 255 parameters"

inductive AssembleError where
  | inBlock (block : String) (cause : BlockError)
  | nameTooLong (bytes : Nat)
  | tooManyBlocks
  /-- The encoded artifact does not verify. -/
  | rejected (cause : VerifyError)
  deriving DecidableEq, Repr

def AssembleError.message : AssembleError → String
  | .inBlock block cause => s!"block '{block}': {cause.message}"
  | .nameTooLong bytes => s!"name of {bytes} bytes exceeds 65535"
  | .tooManyBlocks => "too many blocks in one artifact"
  | .rejected cause => s!"verification failed: {cause.message}"

end TypedStack.Assembly
