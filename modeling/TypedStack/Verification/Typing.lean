import TypedStack.Verification.Error
/-!
# Typing rules of instructions

What each instruction demands of the operand stack and of its block, and with which stack shape
control goes where afterwards.
-/

set_option autoImplicit false

namespace TypedStack

/-- What the rules look at: the blocks of the artifact and the block being checked. -/
structure TypingContext where
  blocks : Array Block
  block : Block

/-- A way on from an instruction: the offset and the shape there. -/
abbrev Edge := Nat × Shape

namespace TypingContext

/-- Takes one operand of a type from the stack. -/
def pop (expected : ValueType) : Shape → Except VerifyFault Shape
  | [] => .error .stackUnderflow
  | found :: rest => if found = expected then .ok rest else .error (.operandType expected found)

/-- Takes operands of several types, the first from the top. -/
def popAll : List ValueType → Shape → Except VerifyFault Shape
  | [], shape => .ok shape
  | t :: rest, shape => do popAll rest (← pop t shape)

/-- The slot exists and has the type. -/
def checkSlot (c : TypingContext) (slot : UInt16) (used : ValueType) : Except VerifyFault Unit :=
  match c.block.slots[slot.toNat]? with
  | none => .error (.slotIndex slot c.block.slots.size)
  | some declared => if declared = used then .ok () else .error (.slotType slot declared used)

def constantAt (c : TypingContext) (index : UInt16) : Except VerifyFault Constant :=
  match c.block.segment.pool[index.toNat]? with
  | some k => .ok k
  | none => .error (.constantIndex index)

/-- The block gives back what its signature says. -/
def checkResult (c : TypingContext) (found : ResultType) : Except VerifyFault Unit :=
  let expected := c.block.signature.result
  if expected = found then .ok () else .error (.returnType expected found)

/-- The ways on from an instruction that is followed by the offset `next`, entered with a shape.
A jump comes before falling through. -/
def edges (c : TypingContext) (op : EncodedOp) (next : Nat) (shape : Shape) :
    Except VerifyFault (List Edge) :=
  match op with
  | .const i => do
    match (← c.constantAt i).type? with
    | some t => pure [(next, t :: shape)]
    | none => throw (.notPushable i)
  | .pop t => do pure [(next, ← pop t shape)]
  | .load t slot => do
    c.checkSlot slot t
    pure [(next, t :: shape)]
  | .store t slot => do
    c.checkSlot slot t
    pure [(next, ← pop t shape)]
  | .arith _ t => do
    unless t.isNumeric do throw (.nonNumeric t)
    pure [(next, t :: (← popAll [t, t] shape))]
  | .cast source target => do pure [(next, target :: (← pop source shape))]
  | .shift _ => do pure [(next, .int :: (← popAll [.int, .int] shape))]
  | .compare t => do pure [(next, .int :: (← popAll [t, t] shape))]
  | .jump target => pure [(target.toNat, shape)]
  | .jumpIf _ target => do
    let shape ← pop .int shape
    pure [(target.toNat, shape), (next, shape)]
  | .jumpIfTrue target => do
    let shape ← pop .bool shape
    pure [(target.toNat, shape), (next, shape)]
  | .call i => do
    match c.blocks[i.toNat]? with
    | none => throw (.callTarget i)
    | some callee =>
      let shape ← popAll callee.signature.params.reverse shape
      pure [(next, callee.signature.result.toList ++ shape)]
  | .ret t => do
    c.checkResult (some t)
    discard (pop t shape)
    pure []
  | .retVoid => do
    c.checkResult none
    pure []
  | .openInput => pure [(next, shape)]
  | .read t => pure [(next, t :: shape)]
  | .print t => do pure [(next, ← pop t shape)]
  | .printError i => do
    match ← c.constantAt i with
    | .message _ => pure [(next, shape)]
    | .value _ => throw (.notMessage i)
  | .exit => do
    discard (pop .int shape)
    pure []

end TypingContext

end TypedStack
