import TypedStack.Verification.Typing
/-!
# Verification of a block

Every reachable instruction of a block is checked by following the control flow with the shape of
the operand stack: operands have to fit, all ways to an instruction have to agree on the shape, and
no way may run off the end. Code that cannot be reached is decoded but not typed.
-/

set_option autoImplicit false

namespace TypedStack

/-- The decoded instructions of a segment by offset, each with the offset of the next one. -/
abbrev OpTable := Array (Option (EncodedOp × Nat))

namespace OpTable

/-- Decodes from an offset to the end and enters what is found. -/
def fill (code : Array UInt8) (offset : Nat) (table : OpTable) : Except LocatedFault OpTable :=
  if offset < code.size then
    match _h : Segment.decodeAt code offset with
    | .error e => .error ⟨offset, .decode e⟩
    | .ok (op, next) => fill code next (table.setIfInBounds offset (some (op, next)))
  else .ok table
termination_by code.size - offset
decreasing_by
  have := Segment.decodeAt_bounds _h
  omega

/-- The table of a whole segment. -/
def ofCode (code : Array UInt8) : Except LocatedFault OpTable :=
  fill code 0 (Array.replicate code.size none)

/-- The instruction that starts at an offset. -/
def at? (table : OpTable) (offset : Nat) : Option (EncodedOp × Nat) := (table[offset]?).join

end OpTable

/-- An instruction still to be checked, with the shape in which it is entered. -/
structure Visit where
  offset : Nat
  op : EncodedOp
  next : Nat
  shape : Shape

/-- How far the check has come: the shapes recorded so far, by offset, and the instructions found
but not yet checked, the latest first. -/
structure Flow where
  shapes : Array (Option Shape)
  pending : List Visit

namespace Flow

/-- Takes one edge out of the instruction at `source`. An instruction entered for the first time
records its shape and becomes pending; later entries have to bring the same shape. -/
def follow (table : OpTable) (source : Nat) (flow : Flow) (edge : Edge) :
    Except LocatedFault Flow :=
  let (target, shape) := edge
  if target = table.size then .error ⟨source, .fallOffEnd⟩
  else match table.at? target with
    | none => .error ⟨source, .jumpTarget (UInt16.ofNat target)⟩
    | some (op, next) =>
      match (flow.shapes[target]?).join with
      | some recorded =>
        if recorded = shape then .ok flow else .error ⟨target, .stackMismatch recorded shape⟩
      | none =>
        .ok { shapes := flow.shapes.setIfInBounds target (some shape)
              pending := ⟨target, op, next, shape⟩ :: flow.pending }

/-- Checks one instruction and takes its edges. -/
def check (c : TypingContext) (table : OpTable) (flow : Flow) (v : Visit) :
    Except LocatedFault Flow := do
  let edges ← (c.edges v.op v.next v.shape).mapError (⟨v.offset, ·⟩)
  edges.foldlM (follow table v.offset) flow

/-- Checks pending instructions until none is left, at most `fuel` of them. An instruction becomes
pending only once, so one unit of fuel for each code byte is enough. -/
def settle (c : TypingContext) (table : OpTable) : Nat → Flow → Except LocatedFault Flow
  | 0, flow => .ok flow
  | fuel + 1, flow =>
    match flow.pending with
    | [] => .ok flow
    | v :: rest =>
      match check c table { flow with pending := rest } v with
      | .error e => .error e
      | .ok flow => settle c table fuel flow

end Flow

/-- The first slots hold the parameters. -/
def checkParams (slots : Array ValueType) : List ValueType → Nat → Except VerifyFault Unit
  | [], _ => .ok ()
  | expected :: rest, i =>
    match slots[i]? with
    | none => .error (.slotIndex (UInt16.ofNat i) slots.size)
    | some found =>
      if found = expected then checkParams slots rest (i + 1)
      else .error (.paramSlot i expected found)

/-- The shapes in which the reachable instructions of a block are entered. -/
def TypingContext.shapes (c : TypingContext) : Except LocatedFault (Array (Option Shape)) := do
  let block := c.block
  (checkParams block.slots block.signature.params 0).mapError (⟨0, ·⟩)
  let table ← OpTable.ofCode block.segment.code
  let start ← Flow.follow table 0 ⟨Array.replicate table.size none, []⟩ (0, [])
  let flow ← Flow.settle c table table.size start
  pure flow.shapes

end TypedStack
