import TypedStack.Machine.State
import TypedStack.Value.Arith
/-!
# One step of the machine

Code is not trusted here: every operand is taken with a check of its type, and a frame never takes
operands that were there before it began.
-/

set_option autoImplicit false

namespace TypedStack

namespace Machine

/-- Pushes an operand. -/
def push (m : Machine) (v : Value) (operands : Array Value) :
    Except RuntimeError (Array Value) :=
  if m.limits.operands ≤ operands.size then .error .stackOverflow else .ok (operands.push v)

/-- Takes the top operand, which has to be of a type and to lie above the floor. -/
def pop (floor : Nat) (t : ValueType) (operands : Array Value) :
    Except RuntimeError (Value × Array Value) :=
  if operands.size ≤ floor then .error .stackUnderflow
  else match operands.back? with
    | none => .error .stackUnderflow
    | some v => if v.type = t then .ok (v, operands.pop) else .error (.typeError (some t) v.type)

def popInt (floor : Nat) (operands : Array Value) :
    Except RuntimeError (Int64 × Array Value) :=
  (pop floor .int operands).map fun (v, rest) => (v.toInt, rest)

def popBool (floor : Nat) (operands : Array Value) :
    Except RuntimeError (Bool × Array Value) :=
  (pop floor .bool operands).map fun (v, rest) => (v.toBool, rest)

/-- Two operands of a type, the lower one first. -/
def popPair (floor : Nat) (t : ValueType) (operands : Array Value) :
    Except RuntimeError (Value × Value × Array Value) := do
  let (b, operands) ← pop floor t operands
  let (a, operands) ← pop floor t operands
  pure (a, b, operands)

/-- Where a slot of a frame is among the locals. -/
def slotIndex (frame : Frame) (locals : Array Value) (slot : UInt16) :
    Except RuntimeError (Fin locals.size) :=
  let index := frame.localsBase + slot.toNat
  if frame.block.slots.size ≤ slot.toNat then .error (.badSlot slot)
  else if h : index < locals.size then .ok ⟨index, h⟩
  else .error (.badSlot slot)

/-- A new frame for the block of an index, with its locals and what is left of the operands. The
arguments move from the stack into the first slots and the other slots are zeroed. `depth` frames
are there already, and the caller owns the operands above `floor`. -/
def activate (m : Machine) (index depth floor : Nat) (locals operands : Array Value) :
    Except RuntimeError (Frame × Array Value × Array Value) :=
  if m.limits.frames ≤ depth then .error .callDepthExceeded
  else match m.artifact.blocks[index]? with
    | none => .error (.unknownBlock s!"#{index}")
    | some block =>
      let count := block.signature.params.length
      if operands.size < floor + count then .error .stackUnderflow
      else
        let base := operands.size - count
        let localsBase := locals.size
        let arguments := operands.extract base operands.size
        let zeros := (block.slots.extract count block.slots.size).map Value.zero
        .ok ({ block, ip := 0, localsBase, stackBase := base },
          locals ++ arguments ++ zeros, operands.shrink base)

/-- Leaves the innermost frame: its locals and operands are gone, and a result goes to the caller,
or out of the machine if there is none. -/
def leave (m : Machine) (s : State) (result : Option Value) : Except RuntimeError Progress :=
  let ⟨console, frame, callers, locals, operands⟩ := s
  let locals := locals.shrink frame.localsBase
  let operands := operands.shrink frame.stackBase
  match callers.back? with
  | none => .ok (.finished (.returned result) console)
  | some caller =>
    let callers := callers.pop
    match result with
    | none => .ok (.running ⟨console, caller, callers, locals, operands⟩)
    | some v => do
      let operands ← m.push v operands
      pure (.running ⟨console, caller, callers, locals, operands⟩)

/-- Executes an instruction that is followed by the offset `next`. -/
def execute (m : Machine) (op : EncodedOp) (next : Nat) (s : State) :
    Except RuntimeError Progress :=
  let ⟨console, frame, callers, locals, operands⟩ := s
  let pool := frame.block.segment.pool
  let floor := frame.stackBase
  let frame := { frame with ip := next }
  match op with
  | .const i =>
    match pool[i.toNat]?.bind Constant.value? with
    | none => .error (.badConstant i)
    | some v => do
      let operands ← m.push v operands
      pure (.running ⟨console, frame, callers, locals, operands⟩)
  | .pop t => do
    let (_, operands) ← pop floor t operands
    pure (.running ⟨console, frame, callers, locals, operands⟩)
  | .load t slot => do
    let index ← slotIndex frame locals slot
    let v := locals[index]
    if v.type = t then
      let operands ← m.push v operands
      pure (.running ⟨console, frame, callers, locals, operands⟩)
    else throw (.typeError (some t) v.type)
  | .store t slot => do
    let (v, operands) ← pop floor t operands
    let index ← slotIndex frame locals slot
    pure (.running ⟨console, frame, callers, locals.set index v index.isLt, operands⟩)
  | .arith op t => do
    let (a, b, operands) ← popPair floor t operands
    match op.apply a b with
    | .error .divisionByZero => throw .divisionByZero
    | .error (.notNumeric got) => throw (.typeError none got)
    | .ok v =>
      let operands ← m.push v operands
      pure (.running ⟨console, frame, callers, locals, operands⟩)
  | .cast source target => do
    let (v, operands) ← pop floor source operands
    let operands ← m.push (v.cast target) operands
    pure (.running ⟨console, frame, callers, locals, operands⟩)
  | .shift kind => do
    let (amount, operands) ← popInt floor operands
    let (n, operands) ← popInt floor operands
    let operands ← m.push (.int (kind.apply n amount)) operands
    pure (.running ⟨console, frame, callers, locals, operands⟩)
  | .compare t => do
    let (a, b, operands) ← popPair floor t operands
    match a.order b with
    | none => throw (.typeError (some a.type) b.type)
    | some ordering =>
      let operands ← m.push (.int (orderingSignal ordering)) operands
      pure (.running ⟨console, frame, callers, locals, operands⟩)
  | .jump target =>
    .ok (.running ⟨console, { frame with ip := target.toNat }, callers, locals, operands⟩)
  | .jumpIf relation target => do
    let (signal, operands) ← popInt floor operands
    let ip := if relation.holds signal then target.toNat else next
    pure (.running ⟨console, { frame with ip }, callers, locals, operands⟩)
  | .jumpIfTrue target => do
    let (b, operands) ← popBool floor operands
    let ip := if b then target.toNat else next
    pure (.running ⟨console, { frame with ip }, callers, locals, operands⟩)
  | .call i => do
    let (callee, locals, operands) ←
      m.activate i.toNat (callers.size + 1) floor locals operands
    pure (.running ⟨console, callee, callers.push frame, locals, operands⟩)
  | .ret t => do
    let (v, operands) ← pop floor t operands
    m.leave ⟨console, frame, callers, locals, operands⟩ (some v)
  | .retVoid => m.leave ⟨console, frame, callers, locals, operands⟩ none
  | .openInput =>
    .ok (.running ⟨{ console with opened := true }, frame, callers, locals, operands⟩)
  | .read t =>
    if console.opened then
      match console.input.read t with
      | (.error e, _) => .error e
      | (.ok v, input) => do
        let operands ← m.push v operands
        pure (.running ⟨{ console with input }, frame, callers, locals, operands⟩)
    else .error .inputNotOpened
  | .print t => do
    let (v, operands) ← pop floor t operands
    let console := { console with outputLines := v.text :: console.outputLines }
    pure (.running ⟨console, frame, callers, locals, operands⟩)
  | .printError i =>
    match pool[i.toNat]? with
    | some (.message text) =>
      let console := { console with errorLines := text :: console.errorLines }
      .ok (.running ⟨console, frame, callers, locals, operands⟩)
    | _ => .error (.badConstant i)
  | .exit => do
    let (status, _) ← popInt floor operands
    pure (.finished (.exited status.toInt32) console)

/-- Decodes the next instruction and executes it. -/
def step (m : Machine) (s : State) : Except RuntimeError Progress :=
  match s.frame.block.segment.decode s.frame.ip with
  | .error e => .error (.decode e)
  | .ok (op, next) => m.execute op next s

end Machine

/-- Whether the next instruction reads from the input and no word is left there. -/
def State.awaitsInput (s : State) : Bool :=
  match s.frame.block.segment.decode s.frame.ip, s.console.input.next with
  | .ok (.read _, _), (.ok none, _) => s.console.opened
  | _, _ => false

end TypedStack
