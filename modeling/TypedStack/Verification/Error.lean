import TypedStack.Artifact.Basic
/-!
# Why an artifact does not verify
-/

set_option autoImplicit false

namespace TypedStack

/-- The types on the operand stack, top first. -/
abbrev Shape := List ValueType

/-- The shape as messages show it, bottom first. -/
def Shape.text (s : Shape) : String := ValueType.listText s.reverse

inductive VerifyFault where
  | decode (cause : DecodeError)
  | duplicateBlock
  | reservedSignature (expected found : Signature)
  | paramSlot (slot : Nat) (expected found : ValueType)
  | stackUnderflow
  | operandType (expected found : ValueType)
  | nonNumeric (t : ValueType)
  | constantIndex (index : UInt16)
  | notPushable (index : UInt16)
  | notMessage (index : UInt16)
  | slotIndex (slot : UInt16) (count : Nat)
  | slotType (slot : UInt16) (declared used : ValueType)
  | jumpTarget (target : UInt16)
  | callTarget (block : UInt16)
  | returnType (expected found : ResultType)
  | stackMismatch (recorded incoming : Shape)
  | fallOffEnd
  deriving DecidableEq, Repr

def VerifyFault.message : VerifyFault → String
  | .decode cause => cause.message
  | .duplicateBlock => "duplicate block name"
  | .reservedSignature expected found =>
    s!"block must have signature {expected.text}, found {found.text}"
  | .paramSlot slot expected found =>
    s!"parameter slot {slot} declared {found.name}, signature says {expected.name}"
  | .stackUnderflow => "operand stack underflow"
  | .operandType expected found => s!"expected {expected.name} on the stack, found {found.name}"
  | .nonNumeric t => s!"arithmetic on {t.name}"
  | .constantIndex index => s!"constant index {index.toNat} out of range"
  | .notPushable index => s!"constant {index.toNat} cannot be pushed"
  | .notMessage index => s!"constant {index.toNat} is not a message"
  | .slotIndex slot count => s!"slot {slot.toNat} out of range ({count} slots)"
  | .slotType slot declared used =>
    s!"slot {slot.toNat} has type {declared.name}, accessed as {used.name}"
  | .jumpTarget target => s!"jump target {target.toNat} is not an instruction boundary"
  | .callTarget block => s!"call to unknown block {block.toNat}"
  | .returnType expected found =>
    s!"return of {ResultType.name found} from block returning {ResultType.name expected}"
  | .stackMismatch recorded incoming =>
    s!"stack shapes differ at merge: {recorded.text} vs {incoming.text}"
  | .fallOffEnd => "control falls off the end of the block"

/-- A fault at a code offset. -/
structure LocatedFault where
  offset : Nat
  fault : VerifyFault
  deriving DecidableEq, Repr

/-- A fault at a code offset of a block. -/
structure VerifyError where
  block : String
  offset : Nat
  fault : VerifyFault
  deriving DecidableEq, Repr

def VerifyError.message (e : VerifyError) : String :=
  s!"block '{e.block}' pc={e.offset}: {e.fault.message}"

end TypedStack
