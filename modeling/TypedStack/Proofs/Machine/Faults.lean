import TypedStack.Proofs.Machine.Frames
/-!
# Nothing is missing

A machine that does not know its frames to be in order has to look before it takes anything: whether
a frame is there at all, whether the index that it keeps is that of a block, whether an operand is
what its type says, whether a slot lies among the locals. Such a machine is `Loose`, and a `Fault`
is what it reports where something is missing. From every state that a program comes to, it does
what `Machine.step` does (`Machine.frames_stay_in_order`): it never reports more than an error of
the program. What holds of one step holds of a run (`Loose.Lays.run_agrees`), and so what is known
of the ends of a run says which errors a loose machine can end with.
-/

set_option autoImplicit false

namespace TypedStack

/-! ## Machines that look

The loose machine is written down in full, since what it can miss depends on when it looks. It
shares with the machine proper what needs no look: the operations on operands, the limits, and the
effects of most instructions. -/

/-- Why a loose machine stops. -/
inductive Fault where
  /-- The program is at fault. -/
  | runtime (e : RuntimeError)
  /-- Something is not there that has to be. -/
  | internal (text : String)
  | outOfRange (index : Nat)

/-- A frame that knows its block by an index only. -/
structure LooseFrame where
  block : Nat
  ip : Nat
  localsBase : Nat
  stackBase : Nat

/-- A state whose frames are all on one stack, the innermost last. There may be none. -/
structure Loose where
  console : Console
  frames : Array LooseFrame
  locals : Array Value
  operands : Array Value

/-- What one instruction of a loose machine leads to. -/
inductive LooseProgress where
  | running (l : Loose)
  | finished (o : Outcome) (c : Console)

namespace Loose

/-- The program answers for an error of the machine proper. -/
def lift {α : Type} (x : Except RuntimeError α) : Except Fault α := x.mapError .runtime

/-- The innermost frame, or a fault that says what is missing. -/
def top (l : Loose) (missing : String) : Except Fault LooseFrame :=
  match l.frames.back? with
  | none => .error (.internal missing)
  | some a => .ok a

/-- The block of an index, which may be out of range. -/
def blockAt (m : Machine) (index : Nat) : Except Fault Block :=
  match m.artifact.blocks[index]? with
  | none => .error (.outOfRange index)
  | some block => .ok block

/-- The number of operands that were there before the innermost frame. -/
def floor (l : Loose) : Nat := (l.frames.back?.map (·.stackBase)).getD 0

/-- Takes an integer. That an operand of this type is one is looked at a second time. -/
def popInt (floor : Nat) (operands : Array Value) : Except Fault (Int64 × Array Value) := do
  let (v, rest) ← lift (Machine.pop floor .int operands)
  match v with
  | .int n => pure (n, rest)
  | _ => throw (.internal "Int expected")

/-- Takes a truth value, in the same way. -/
def popBool (floor : Nat) (operands : Array Value) : Except Fault (Bool × Array Value) := do
  let (v, rest) ← lift (Machine.pop floor .bool operands)
  match v with
  | .bool b => pure (b, rest)
  | _ => throw (.internal "Bool expected")

/-- Where a slot that the block declares has to be. -/
def slotAt (a : LooseFrame) (block : Block) (slot : UInt16) : Except Fault Nat :=
  if block.slots.size ≤ slot.toNat then .error (.runtime (.badSlot slot))
  else .ok (a.localsBase + slot.toNat)

/-- The value of a slot, which may be out of range. -/
def readLocal (locals : Array Value) (index : Nat) : Except Fault Value :=
  match locals[index]? with
  | none => .error (.outOfRange index)
  | some v => .ok v

/-- Writes a slot, which may be out of range. -/
def writeLocal (locals : Array Value) (index : Nat) (v : Value) : Except Fault (Array Value) :=
  if h : index < locals.size then .ok (locals.set index v h) else .error (.outOfRange index)

/-- What an instruction comes to. Those that need nothing but the type of an operand and what their
block holds are as in `Machine.effect`. -/
def effect (a : LooseFrame) (block : Block) (op : EncodedOp) (next : Nat) (l : Loose) :
    Except Fault Effect :=
  let goOn := Effect.goOn next l.console l.locals
  match op with
  | .load t slot => do
    let v ← readLocal l.locals (← slotAt a block slot)
    if v.type = t then pure (goOn l.operands (some v))
    else throw (.runtime (.typeError (some t) v.type))
  | .store t slot => do
    let (v, operands) ← lift (Machine.pop l.floor t l.operands)
    let locals ← writeLocal l.locals (← slotAt a block slot) v
    pure (.goOn next l.console locals operands none)
  | .shift kind => do
    let (amount, operands) ← popInt l.floor l.operands
    let (n, operands) ← popInt l.floor operands
    pure (goOn operands (some (.int (kind.apply n amount))))
  | .jumpIf relation target => do
    let (signal, operands) ← popInt l.floor l.operands
    let ip := if relation.holds signal then target.toNat else next
    pure (.goOn ip l.console l.locals operands none)
  | .jumpIfTrue target => do
    let (b, operands) ← popBool l.floor l.operands
    pure (.goOn (if b then target.toNat else next) l.console l.locals operands none)
  | .exit => do
    let (status, _) ← popInt l.floor l.operands
    pure (.finish status.toInt32)
  | op =>
    lift (Machine.effect op next
      ⟨l.console, ⟨block, a.ip, a.localsBase, l.floor⟩, #[], l.locals, l.operands⟩)

/-- What the machine makes of an effect. -/
def perform (m : Machine) (next : Nat) (l : Loose) : Effect → Except Fault LooseProgress
  | .goOn ip console locals operands pushed => do
    let operands ← lift (m.pushAny operands pushed)
    let a ← l.top "no active frame"
    pure (.running ⟨console, l.frames.pop.push { a with ip }, locals, operands⟩)
  | .call index => do
    let a ← l.top "no active frame"
    let (callee, locals, operands) ←
      lift (m.activate index l.frames.size l.floor l.locals l.operands)
    let frames := (l.frames.pop.push { a with ip := next }).push
      ⟨index, callee.ip, callee.localsBase, callee.stackBase⟩
    pure (.running ⟨l.console, frames, locals, operands⟩)
  | .leave operands result => do
    let a ← l.top "no frame to return from"
    let frames := l.frames.pop
    let operands := operands.shrink a.stackBase
    if frames.isEmpty then pure (.finished (.returned result) l.console)
    else
      let operands ← lift (m.pushAny operands result)
      pure (.running ⟨l.console, frames, l.locals.shrink a.localsBase, operands⟩)
  | .finish status => .ok (.finished (.exited status) l.console)

/-- One step of a loose machine. Each of its parts can find something missing. -/
def step (m : Machine) (l : Loose) : Except Fault LooseProgress := do
  let a ← l.top "no active frame"
  let block ← blockAt m a.block
  let (op, next) ← lift ((block.segment.decode a.ip).mapError .decode)
  let e ← l.effect a block op next
  l.perform m next e

end Loose

/-- A run of a loose machine. -/
inductive LooseExecution where
  | unfinished (l : Loose)
  | ended (result : Except Fault Outcome) (console : Console)

namespace Loose

/-- Runs a loose machine for at most `fuel` steps. -/
def run (m : Machine) : Nat → Loose → LooseExecution
  | 0, l => .unfinished l
  | fuel + 1, l =>
    match l.step m with
    | .error f => .ended (.error f) l.console
    | .ok (.finished o c) => .ended (.ok o) c
    | .ok (.running l) => l.run m fuel

/-! ## A loose machine beside the machine proper

A loose state is laid out beside a proper one: frames with indices where the other has blocks, and
the innermost frame on the stack with the others. From there each look of the loose machine finds
what the proper machine has without looking. -/

theorem lift_bind {α β : Type} (x : Except RuntimeError α) (f : α → Except RuntimeError β) :
    lift (x >>= f) = lift x >>= fun a => lift (f a) := by
  cases x <;> rfl

/-- An operand that has passed for a number is one. -/
theorem popInt_eq (floor : Nat) (operands : Array Value) :
    popInt floor operands = lift (Machine.popInt floor operands) := by
  unfold popInt Machine.popInt
  cases hpop : Machine.pop floor .int operands with
  | error e => rfl
  | ok r =>
    obtain ⟨v, rest⟩ := r
    obtain ⟨-, -, htype, -⟩ := Machine.pop_ok hpop
    cases v <;> first | rfl | cases htype

/-- An operand that has passed for a truth value is one. -/
theorem popBool_eq (floor : Nat) (operands : Array Value) :
    popBool floor operands = lift (Machine.popBool floor operands) := by
  unfold popBool Machine.popBool
  cases hpop : Machine.pop floor .bool operands with
  | error e => rfl
  | ok r =>
    obtain ⟨v, rest⟩ := r
    obtain ⟨-, -, htype, -⟩ := Machine.pop_ok hpop
    cases v <;> first | rfl | cases htype

end Loose

/-- A loose frame keeps the index of the block of a frame, and all else alike. -/
structure LooseFrame.Stands (m : Machine) (a : LooseFrame) (f : Frame) : Prop where
  block : m.artifact.blocks[a.block]? = some f.block
  ip : a.ip = f.ip
  localsBase : a.localsBase = f.localsBase
  stackBase : a.stackBase = f.stackBase

/-- A loose state holds the frames of a state, and all else alike. -/
inductive Loose.Lays (m : Machine) : Loose → State → Prop where
  | mk {console : Console} {below : Array LooseFrame} {a : LooseFrame} {frame : Frame}
      {callers : Array Frame} {locals operands : Array Value}
      (hbelow : List.Forall₂ (LooseFrame.Stands m) below.toList callers.toList)
      (htop : a.Stands m frame) :
      Loose.Lays m ⟨console, below.push a, locals, operands⟩
        ⟨console, frame, callers, locals, operands⟩

/-- Both machines go the same way, and the loose one finds nothing missing. -/
inductive LooseProgress.Agrees (m : Machine) :
    Except Fault LooseProgress → Except RuntimeError Progress → Prop where
  | error (e : RuntimeError) : Agrees m (.error (.runtime e)) (.error e)
  | finished (o : Outcome) (c : Console) : Agrees m (.ok (.finished o c)) (.ok (.finished o c))
  | running {l : Loose} {s : State} (h : l.Lays m s) :
      Agrees m (.ok (.running l)) (.ok (.running s))

/-- Both runs are as far, or have ended alike. An end of a loose run that has no counterpart, where
something is missing, agrees with nothing. -/
inductive LooseExecution.Agrees (m : Machine) : LooseExecution → Execution → Prop where
  | unfinished {l : Loose} {s : State} (h : l.Lays m s) : Agrees m (.unfinished l) (.unfinished s)
  | ended (result : Except RuntimeError Outcome) (c : Console) :
      Agrees m (.ended (Loose.lift result) c) (.ended result c)

namespace Loose

variable {m : Machine} {console : Console} {below : Array LooseFrame} {a : LooseFrame}
  {frame : Frame} {callers : Array Frame} {locals operands : Array Value}

/-- The floor is that of the innermost frame. -/
theorem floor_push (h : a.Stands m frame) :
    floor ⟨console, below.push a, locals, operands⟩ = frame.stackBase := by
  simp [floor, h.stackBase]

/-- A slot that is not declared is refused by both machines, and one that is declared is found by
both. -/
theorem slot_cases (h : State.WellFramed m ⟨console, frame, callers, locals, operands⟩)
    (htop : a.Stands m frame) (slot : UInt16) :
    (slotAt a frame.block slot = .error (.runtime (.badSlot slot)) ∧
      Machine.slotIndex frame locals slot = .error (.badSlot slot)) ∨
    ∃ index : Fin locals.size, slotAt a frame.block slot = .ok index.val ∧
      Machine.slotIndex frame locals slot = .ok index := by
  unfold slotAt Machine.slotIndex
  by_cases hslot : frame.block.slots.size ≤ slot.toNat
  · left
    simp [hslot]
  · right
    have hlt : frame.localsBase + slot.toNat < locals.size := h.slot_lt (Nat.lt_of_not_le hslot)
    exact ⟨⟨_, hlt⟩, by simp [hslot, htop.localsBase], by simp [hslot, hlt]⟩

/-- **The same effect.** Only slots, integers and truth values are looked at twice. A slot that a
block declares is among the locals because the frames are in order. -/
theorem effect_eq (h : State.WellFramed m ⟨console, frame, callers, locals, operands⟩)
    (htop : a.Stands m frame) (op : EncodedOp) (next : Nat) :
    effect a frame.block op next ⟨console, below.push a, locals, operands⟩ =
      lift (Machine.effect op next ⟨console, frame, callers, locals, operands⟩) := by
  have hfloor : floor ⟨console, below.push a, locals, operands⟩ = frame.stackBase :=
    floor_push htop
  cases op with
  | load t slot =>
    unfold effect Machine.effect
    dsimp only
    rcases slot_cases h htop slot with ⟨hloose, hproper⟩ | ⟨index, hloose, hproper⟩
    · rw [hloose, hproper]
      rfl
    · have hread : readLocal locals index.val = .ok locals[index] := by
        simp [readLocal]
      rw [hloose, hproper]
      simp only [bind, Except.bind, hread]
      split <;> rfl
  | store t slot =>
    unfold effect Machine.effect
    simp only [hfloor, lift_bind]
    congr 1
    funext r
    rcases slot_cases h htop slot with ⟨hloose, hproper⟩ | ⟨index, hloose, hproper⟩
    · rw [hloose, hproper]
      rfl
    · have hwrite : writeLocal locals index.val r.1 = .ok (locals.set index r.1 index.isLt) := by
        simp [writeLocal]
      rw [hloose, hproper]
      simp only [bind, Except.bind, hwrite]
      rfl
  | shift kind =>
    unfold effect Machine.effect
    simp only [hfloor, popInt_eq, lift_bind]
    rfl
  | jumpIf relation target | exit =>
    unfold effect Machine.effect
    simp only [hfloor, popInt_eq, lift_bind]
    rfl
  | jumpIfTrue target =>
    unfold effect Machine.effect
    simp only [hfloor, popBool_eq, lift_bind]
    rfl
  | const i | pop t | arith o t | cast source target | compare t | jump target | call i | ret t
  | retVoid | openInput | read t | print t | printError i =>
    unfold effect Machine.effect
    simp only [hfloor]

/-- What is made of an effect by the one machine is made of it by the other. -/
theorem perform_agrees (hbelow : List.Forall₂ (LooseFrame.Stands m) below.toList callers.toList)
    (htop : a.Stands m frame) (next : Nat) (e : Effect) :
    LooseProgress.Agrees m (perform m next ⟨console, below.push a, locals, operands⟩ e)
      (m.perform next ⟨console, frame, callers, locals, operands⟩ e) := by
  have hsize : below.size = callers.size := hbelow.length_eq
  -- the same frame at another instruction
  have hmoves : ∀ ip, { a with ip }.Stands m { frame with ip } := fun ip =>
    ⟨htop.block, rfl, htop.localsBase, htop.stackBase⟩
  cases e with
  | goOn ip console' locals' operands' pushed =>
    simp only [perform, Machine.perform, top, Array.back?_push, Array.pop_push]
    cases m.pushAny operands' pushed with
    | error e => exact .error e
    | ok operands'' => exact .running (.mk hbelow (hmoves ip))
  | call index =>
    simp only [perform, Machine.perform, top, Array.back?_push, Array.pop_push, Array.size_push,
      floor_push htop, hsize]
    cases hactivate : m.activate index (callers.size + 1) frame.stackBase locals operands with
    | error e => exact .error e
    | ok r =>
      obtain ⟨f, locals', operands'⟩ := r
      have hb := Machine.activate_ok hactivate
      refine .running (.mk ?_ ⟨hb.block, rfl, rfl, rfl⟩)
      simp only [Array.toList_push]
      exact List.rel_append hbelow (.cons (hmoves next) .nil)
  | leave operands' result =>
    simp only [perform, Machine.perform, Machine.leave, top, Array.back?_push, Array.pop_push]
    rcases forall₂_back hbelow with ⟨rfl, rfl⟩ | ⟨below', b, callers', caller, rfl, rfl, hrest, hb⟩
    · exact .finished _ _
    · have hsome : (below'.push b).isEmpty = false := by simp
      simp only [bind, Except.bind, Array.back?_push, Array.pop_push, hsome, htop.stackBase,
        htop.localsBase, Bool.false_eq_true, if_false]
      cases result with
      | none => exact .running (.mk hrest hb)
      | some v =>
        simp only [Machine.pushAny]
        cases m.push v (operands'.shrink frame.stackBase) with
        | error e => exact .error e
        | ok operands'' => exact .running (.mk hrest hb)
  | finish status => exact .finished _ _

/-- From a state whose frames are in order, the loose machine finds nothing missing. -/
theorem Lays.step_agrees {l : Loose} {s : State} (h : s.WellFramed m) (hl : l.Lays m s) :
    LooseProgress.Agrees m (l.step m) (m.step s) := by
  cases hl with
  | mk hbelow htop =>
    rename_i console below a frame callers locals operands
    simp only [step, bind, Except.bind, top, Array.back?_push, blockAt, htop.block, htop.ip,
      Machine.step]
    cases hdecode : frame.block.segment.decode frame.ip with
    | error e => exact .error _
    | ok r =>
      obtain ⟨op, next⟩ := r
      show LooseProgress.Agrees m (effect a frame.block op next _ >>= perform m next _)
        (m.execute op next _)
      rw [effect_eq h htop, Machine.execute_eq]
      cases Machine.effect op next ⟨console, frame, callers, locals, operands⟩ with
      | error e => exact .error e
      | ok e => exact perform_agrees hbelow htop next e

theorem Lays.console_eq {l : Loose} {s : State} (h : l.Lays m s) : l.console = s.console := by
  cases h
  rfl

/-- So it finds nothing missing however long it runs. By induction on the steps, since a step keeps
the frames in order. -/
theorem Lays.run_agrees (n : Nat) {l : Loose} {s : State} (h : s.WellFramed m) (hl : l.Lays m s) :
    LooseExecution.Agrees m (l.run m n) (m.runState n s) := by
  induction n generalizing l s with
  | zero => exact .unfinished hl
  | succ n ih =>
    have hstep := hl.step_agrees h
    have hnext : ∀ {s'}, m.step s = .ok (.running s') → s'.WellFramed m := Machine.step_wellFramed h
    simp only [run, Machine.runState]
    generalize l.step m = loose, m.step s = proper at hstep hnext
    cases hstep with
    | error e =>
      rw [hl.console_eq]
      exact .ended (.error e) _
    | finished o c => exact .ended (.ok o) c
    | running hrest => exact ih (hnext rfl) hrest

/-- The frames of a state whose blocks are all those of indices can be laid out. -/
theorem exists_lays {s : State} (h : s.WellFramed m) : ∃ l : Loose, l.Lays m s := by
  obtain ⟨console, frame, callers, locals, operands⟩ := s
  have each : ∀ frames : List Frame,
      (∀ f ∈ frames, ∃ i : Nat, m.artifact.blocks[i]? = some f.block) →
      ∃ loose : List LooseFrame, List.Forall₂ (LooseFrame.Stands m) loose frames := by
    intro frames hframes
    induction frames with
    | nil => exact ⟨[], .nil⟩
    | cons f rest ih =>
      obtain ⟨i, hi⟩ := hframes f List.mem_cons_self
      obtain ⟨loose, hrest⟩ := ih fun g hg => hframes g (List.mem_cons_of_mem _ hg)
      exact ⟨⟨i, f.ip, f.localsBase, f.stackBase⟩ :: loose, .cons ⟨hi, rfl, rfl, rfl⟩ hrest⟩
  obtain ⟨below, hbelow⟩ := each callers.toList fun f hf =>
    h.blocks f (List.mem_append_left _ hf)
  obtain ⟨i, hi⟩ := h.blocks frame (List.mem_append_right _ (List.mem_singleton_self _))
  exact ⟨⟨console, below.toArray.push ⟨i, frame.ip, frame.localsBase, frame.stackBase⟩, locals,
    operands⟩, .mk hbelow ⟨hi, rfl, rfl, rfl⟩⟩

end Loose

namespace Machine

/-- **The frames stay in order**, whatever the code and the arguments are: in every state that a
program or the call of a block comes to, the frames lie one above the other on the operand stack and
among the slots, each with as many slots as its block asks for, and keep to the limits. So the slots
that a block declares are always there, and a machine that looks before it takes anything finds
nothing missing: it goes on, ends, or stops with an error of the program. -/
theorem frames_stay_in_order (m : Machine) (s : State) (h : m.Visits s) :
    s.WellFramed m ∧
    (s.frames.map (·.localsBase)).Pairwise (· ≤ ·) ∧
    (∀ slot : UInt16, slot.toNat < s.frame.block.slots.size →
      s.frame.localsBase + slot.toNat < s.locals.size) ∧
    (∃ l : Loose, l.Lays m s) ∧
    ∀ l : Loose, l.Lays m s → LooseProgress.Agrees m (l.step m) (m.step s) := by
  have hframed := h.wellFramed
  refine ⟨hframed, (Frame.Tile.bases_le hframed.locals).2, fun _ => hframed.slot_lt,
    Loose.exists_lays hframed, ?_⟩
  intro l hl
  exact hl.step_agrees hframed

/-- A starting block that calls a block whose two parameters have no slots, and which then asks for
the first of them. -/
def slotlessArtifact : Artifact where
  name := "slotless"
  blocks := #[
    { name := startName, signature := {}, slots := #[.bool],
      segment := {
        code := #[0x00, 0, 0, 0x00, 0, 0, 0x50, 1, 0, 0x53], pool := #[.value (.int 7)] } },
    { name := "other", signature := { params := [.int, .int] }, slots := #[],
      segment := { code := #[0x10, 1, 0, 0], pool := #[] } }]

/-- The state after the call. -/
def slotlessState : State where
  console := .ofInput []
  frame := {
    block := {
      name := "other", signature := { params := [.int, .int] }, slots := #[],
      segment := { code := #[0x10, 1, 0, 0], pool := #[] } }
    ip := 0, localsBase := 1, stackBase := 0 }
  callers := #[{
    block := {
      name := startName, signature := {}, slots := #[.bool],
      segment := {
        code := #[0x00, 0, 0, 0x00, 0, 0, 0x50, 1, 0, 0x53], pool := #[.value (.int 7)] } }
    ip := 9, localsBase := 0, stackBase := 0 }]
  locals := #[.bool false, .int 7, .int 7]
  operands := #[]

/-- The parameters have taken their places behind the slot of the caller, although the block
declares none. A loose machine refuses the slot, and finds nothing missing. -/
theorem frames_stay_in_order_slotless :
    ((Machine.mk slotlessArtifact {}).after (.ofInput []) 3).execution = .unfinished slotlessState ∧
    slotlessState.WellFramed (.mk slotlessArtifact {}) ∧
    ∃ l : Loose, l.Lays (.mk slotlessArtifact {}) slotlessState ∧
      LooseProgress.Agrees (.mk slotlessArtifact {}) (l.step (.mk slotlessArtifact {}))
        (.error (.badSlot 0)) := by
  have hstart : slotlessArtifact.blockIndex? startName = some 0 := by decide +kernel
  have hinit : slotlessArtifact.blockIndex? initName = none := by decide +kernel
  obtain ⟨s, hvisits, rfl⟩ : ∃ s,
      ((Machine.mk slotlessArtifact {}).after (.ofInput []) 3).execution = .unfinished s ∧
      s = slotlessState := by
    simp only [after, launch, hstart, hinit]
    exact ⟨_, rfl, by decide +kernel⟩
  obtain ⟨hframed, -, -, ⟨l, hl⟩, hagrees⟩ :=
    frames_stay_in_order _ slotlessState (.inl ⟨[], 3, hvisits⟩)
  exact ⟨hvisits, hframed, l, hl, hagrees l hl⟩

end Machine

end TypedStack
