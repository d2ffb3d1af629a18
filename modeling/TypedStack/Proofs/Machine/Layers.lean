import TypedStack.Machine.Run
import TypedStack.Proofs.Inversion
/-!
# The machine in layers

The machine keeps the operands of all frames in one array and their slots in another. Here a state
is a stack of activations that each own their operands and slots, and a step knows no limits.
`Machine.step_flatten` ties the two together: on the flattened state the machine does what the
layered step does, unless it stops at a limit that the state has reached. What the checks of the
machine guard, and what a run does as long as it stays within its limits, can then be said of one
activation at a time.

The layered step is a definition of its own and not a view of the other, because no instruction of
it can reach below its activation: there is nothing there. That the machine, which could, never does
is the content of the theorem. Its states are not all flattened ones, but those that a run comes to
are.
-/

set_option autoImplicit false

namespace TypedStack

/-! ## Activations

What belongs to one call of a block: where it is in its code, its slots and its operands. The
machine keeps the same data in two arrays and a list of frames, which say where the part of each
begins. -/

/-- A frame with its own part of the operands, top first, and of the slots. There is no base in it,
since there is nothing below that could be reached. -/
structure Activation where
  block : Block
  ip : Nat
  slots : List Value
  operands : List Value

namespace Activation

/-- The operands of several activations, the innermost coming first, from the bottom up. -/
def stackOf : List Activation → List Value
  | [] => []
  | x :: outer => stackOf outer ++ x.operands.reverse

/-- The slots of several activations, in the same order as their operands. -/
def slotsOf : List Activation → List Value
  | [] => []
  | x :: outer => slotsOf outer ++ x.slots

/-- The frame of an activation that lies above others. -/
def frame (outer : List Activation) (x : Activation) : Frame :=
  ⟨x.block, x.ip, (slotsOf outer).length, (stackOf outer).length⟩

/-- The frames of several activations, the outermost first, as the machine keeps its callers. -/
def framesOf : List Activation → List Frame
  | [] => []
  | x :: outer => framesOf outer ++ [x.frame outer]

@[simp] theorem length_framesOf : ∀ xs : List Activation, (framesOf xs).length = xs.length
  | [] => rfl
  | x :: outer => by simp [framesOf, length_framesOf outer]

/-- The value of a slot. -/
def slot (x : Activation) (n : UInt16) : Except RuntimeError Value :=
  if x.block.slots.size ≤ n.toNat then .error (.badSlot n)
  else match x.slots[n.toNat]? with
    | some v => .ok v
    | none => .error (.badSlot n)

/-- The activation of a block that begins with arguments. -/
def enter (b : Block) (arguments : List Value) : Activation where
  block := b
  ip := 0
  slots := arguments ++ (b.slots.toList.drop b.signature.params.length).map Value.zero
  operands := []

end Activation

/-- A state of the machine, activation by activation. -/
structure Layered where
  console : Console
  current : Activation
  /-- The activations that wait for the current one, innermost first. -/
  waiting : List Activation

/-- What a step of a layered state leads to. -/
inductive Layered.Next where
  | running (l : Layered)
  | finished (o : Outcome) (c : Console)

/-- Takes the top operand, which has to be of a type. -/
def takeOperand (t : ValueType) : List Value → Except RuntimeError (Value × List Value)
  | [] => .error .stackUnderflow
  | v :: rest => if v.type = t then .ok (v, rest) else .error (.typeError (some t) v.type)

namespace Layered

/-- All activations, innermost first. -/
def activations (l : Layered) : List Activation := l.current :: l.waiting

/-- The state as the machine keeps it, with all operands in one array and all slots in another. -/
def flatten (l : Layered) : State where
  console := l.console
  frame := l.current.frame l.waiting
  callers := (Activation.framesOf l.waiting).toArray
  locals := (Activation.slotsOf l.activations).toArray
  operands := (Activation.stackOf l.activations).toArray

def Next.flatten : Next → Progress
  | .running l => .running l.flatten
  | .finished o c => .finished o c

/-- The number of operands of all activations. -/
def height (l : Layered) : Nat := (Activation.stackOf l.activations).length

/-- Control goes on to an offset, with new operands. -/
def goTo (l : Layered) (ip : Nat) (operands : List Value) : Next :=
  .running { l with current := { l.current with ip, operands } }

/-- The current activation is left, and its result goes to the one that waits for it. -/
def leave (l : Layered) (result : Option Value) : Next :=
  match l.waiting with
  | [] => .finished (.returned result) l.console
  | caller :: outer =>
    .running { l with
      current := { caller with operands := result.toList ++ caller.operands }
      waiting := outer }

/-- Executes an instruction that is followed by the offset `next`. Line by line what the machine
does, but that operands are taken from a list which ends where the activation ends. -/
def execute (blocks : Array Block) (op : EncodedOp) (next : Nat) (l : Layered) :
    Except RuntimeError Next :=
  let operands := l.current.operands
  let pool := l.current.block.segment.pool
  match op with
  | .const i =>
    match pool[i.toNat]?.bind Constant.value? with
    | none => .error (.badConstant i)
    | some v => .ok (l.goTo next (v :: operands))
  | .pop t => do
    let (_, operands) ← takeOperand t operands
    pure (l.goTo next operands)
  | .load t n => do
    let v ← l.current.slot n
    if v.type = t then pure (l.goTo next (v :: operands)) else throw (.typeError (some t) v.type)
  | .store t n => do
    let (v, operands) ← takeOperand t operands
    let _ ← l.current.slot n
    let slots := l.current.slots.set n.toNat v
    pure ({ l with current := { l.current with slots } }.goTo next operands)
  | .arith op t => do
    let (b, operands) ← takeOperand t operands
    let (a, operands) ← takeOperand t operands
    match op.apply a b with
    | .error .divisionByZero => throw .divisionByZero
    | .error (.notNumeric got) => throw (.typeError none got)
    | .ok v => pure (l.goTo next (v :: operands))
  | .cast source target => do
    let (v, operands) ← takeOperand source operands
    pure (l.goTo next (v.cast target :: operands))
  | .shift kind => do
    let (amount, operands) ← takeOperand .int operands
    let (n, operands) ← takeOperand .int operands
    pure (l.goTo next (.int (kind.apply n.toInt amount.toInt) :: operands))
  | .compare t => do
    let (b, operands) ← takeOperand t operands
    let (a, operands) ← takeOperand t operands
    match a.order b with
    | none => throw (.typeError (some a.type) b.type)
    | some ordering => pure (l.goTo next (.int (orderingSignal ordering) :: operands))
  | .jump target => .ok (l.goTo target.toNat operands)
  | .jumpIf relation target => do
    let (signal, operands) ← takeOperand .int operands
    pure (l.goTo (if relation.holds signal.toInt then target.toNat else next) operands)
  | .jumpIfTrue target => do
    let (b, operands) ← takeOperand .bool operands
    pure (l.goTo (if b.toBool then target.toNat else next) operands)
  | .call i =>
    match blocks[i.toNat]? with
    | none => .error (.unknownBlock s!"#{i.toNat}")
    | some block =>
      let count := block.signature.params.length
      if operands.length < count then .error .stackUnderflow
      else .ok (.running { l with
        current := .enter block (operands.take count).reverse
        waiting := { l.current with ip := next, operands := operands.drop count } :: l.waiting })
  | .ret t => do
    let (v, _) ← takeOperand t operands
    pure (l.leave (some v))
  | .retVoid => .ok (l.leave none)
  | .openInput =>
    .ok ({ l with console := { l.console with opened := true } }.goTo next operands)
  | .read t =>
    if l.console.opened then
      match l.console.input.read t with
      | (.error e, _) => .error e
      | (.ok v, input) =>
        .ok ({ l with console := { l.console with input } }.goTo next (v :: operands))
    else .error .inputNotOpened
  | .print t => do
    let (v, operands) ← takeOperand t operands
    let console := { l.console with outputLines := v.text :: l.console.outputLines }
    pure ({ l with console }.goTo next operands)
  | .printError i =>
    match pool[i.toNat]? with
    | some (.message text) =>
      let console := { l.console with errorLines := text :: l.console.errorLines }
      .ok ({ l with console }.goTo next operands)
    | _ => .error (.badConstant i)
  | .exit => do
    let (status, _) ← takeOperand .int operands
    pure (.finished (.exited status.toInt.toInt32) l.console)

/-- One step, without limits. -/
def advance (blocks : Array Block) (l : Layered) : Except RuntimeError Next :=
  match l.current.block.segment.decode l.current.ip with
  | .error e => .error (.decode e)
  | .ok (op, next) => l.execute blocks op next

end Layered

/-! ## Operands and slots of the flat state

What the machine finds in its arrays, for a state whose operands are stacked and whose slots come
last. The operations of the machine are matched with those of an activation one by one, so that an
instruction is a matter of putting a few of them in a row. -/

namespace Machine

variable {m : Machine}

/-- The operands of an activation above those of others, as the machine keeps them. -/
def stacked (below : List Value) (operands : List Value) : Array Value :=
  (below ++ operands.reverse).toArray

@[simp] theorem size_stacked (below operands : List Value) :
    (stacked below operands).size = below.length + operands.length := by
  simp [stacked]

@[simp] theorem push_stacked (below operands : List Value) (v : Value) :
    (stacked below operands).push v = stacked below (v :: operands) := by
  simp [stacked]

/-- An operand is taken from the innermost activation. The floor is where that begins, and the
machine stops there with the error with which the list ends. -/
theorem pop_stacked (below : List Value) (t : ValueType) (operands : List Value) :
    pop below.length t (stacked below operands) =
      (takeOperand t operands).map fun r => (r.1, stacked below r.2) := by
  cases operands with
  | nil => simp [pop, takeOperand, Except.map]
  | cons v rest =>
    have hback : (stacked below (v :: rest)).back? = some v := by simp [stacked]
    have hpop : (stacked below (v :: rest)).pop = stacked below rest := by
      simp [stacked, ← List.append_assoc]
    unfold pop
    rw [if_neg (by simp), hback, hpop]
    simp only [takeOperand]
    split <;> rfl

theorem extract_stacked (below : List Value) {operands : List Value} {count : Nat}
    (h : count ≤ operands.length) :
    (stacked below operands).extract (below.length + operands.length - count)
      (below.length + operands.length) = (operands.take count).reverse.toArray := by
  have hbase : below.length + operands.length - count =
      below.length + (operands.drop count).length := by
    simp only [List.length_drop]
    omega
  apply Array.toList_inj.mp
  rw [hbase]
  simp only [stacked, List.extract_toArray, List.extract_eq_take_drop]
  simp only [List.drop_append, List.drop_of_length_le (Nat.le_add_right _ _), List.nil_append,
    Nat.add_sub_cancel_left, List.drop_reverse, List.length_drop]
  rw [List.take_of_length_le]
  · congr 2
    omega
  · simp
    omega

theorem shrink_stacked (below : List Value) {operands : List Value} {count : Nat}
    (h : count ≤ operands.length) :
    (stacked below operands).shrink (below.length + operands.length - count) =
      stacked below (operands.drop count) := by
  have hbase : below.length + operands.length - count =
      below.length + (operands.drop count).length := by
    simp only [List.length_drop]
    omega
  have hdrop : operands.length - (operands.length - count) = count := by omega
  apply Array.toList_inj.mp
  rw [hbase]
  simp [stacked, List.take_append, List.take_reverse, hdrop, List.take_of_length_le]

theorem takeOperand_ok {t : ValueType} {operands : List Value} {r : Value × List Value} :
    takeOperand t operands = .ok r ↔ operands = r.1 :: r.2 ∧ r.1.type = t := by
  cases operands with
  | nil => simp [takeOperand]
  | cons v rest =>
    obtain ⟨w, tail⟩ := r
    simp only [takeOperand, List.cons.injEq]
    split
    · next h =>
      simp only [Except.ok.injEq, Prod.mk.injEq]
      constructor
      · rintro ⟨rfl, rfl⟩
        exact ⟨⟨rfl, rfl⟩, h⟩
      · rintro ⟨⟨rfl, rfl⟩, _⟩
        exact ⟨rfl, rfl⟩
    · next h =>
      constructor
      · intro hr
        cases hr
      · rintro ⟨⟨rfl, rfl⟩, ht⟩
        exact absurd ht h

/-- A frame whose slots lie last among the locals finds them there. -/
theorem slotIndex_append {f : Frame} {x : Activation} {under : List Value}
    (hblock : f.block = x.block) (hbase : f.localsBase = under.length) (n : UInt16) :
    (∃ (v : Value) (index : Fin (under ++ x.slots).toArray.size), x.slot n = .ok v ∧
      slotIndex f (under ++ x.slots).toArray n = .ok index ∧
      (under ++ x.slots).toArray[index] = v ∧
      ∀ w, (under ++ x.slots).toArray.set index w index.isLt =
        (under ++ x.slots.set n.toNat w).toArray) ∨
    ∃ e, x.slot n = .error e ∧ slotIndex f (under ++ x.slots).toArray n = .error e := by
  have hsize : (under ++ x.slots).toArray.size = under.length + x.slots.length := by simp
  unfold slotIndex Activation.slot
  rw [hblock]
  -- the block has to declare the slot, and the frame has to have it
  by_cases hdeclared : x.block.slots.size ≤ n.toNat
  · exact .inr ⟨.badSlot n, by rw [if_pos hdeclared], by simp only [if_pos hdeclared]⟩
  · simp only [if_neg hdeclared]
    by_cases hin : n.toNat < x.slots.length
    · refine .inl ⟨x.slots[n.toNat], ⟨under.length + n.toNat, by omega⟩, by simp [hin], ?_, ?_, ?_⟩
      · simp only [hbase]
        rw [dif_pos (by omega)]
      · simp
      · intro w
        simp
    · refine .inr ⟨.badSlot n, by simp [hin], ?_⟩
      rw [dif_neg (by omega)]

/-- Up to the limits, the machine comes to what the layered state comes to. A limit is only reached
where the state has as many operands or frames as it allows. These are the only two ways in which
the machine differs from its layers, and a caller who can rule them out has an equation. -/
def Matches (m : Machine) (l : Layered) (r : Except RuntimeError Progress)
    (r' : Except RuntimeError Layered.Next) : Prop :=
  r = r'.map Layered.Next.flatten ∨
    (r = .error .stackOverflow ∧ m.limits.operands ≤ l.height) ∨
    (r = .error .callDepthExceeded ∧ m.limits.frames ≤ l.activations.length)

namespace Matches

variable {l : Layered}

theorem of_eq {r : Except RuntimeError Progress} {r' : Except RuntimeError Layered.Next}
    (h : r = r'.map Layered.Next.flatten) : Matches m l r r' :=
  .inl h

theorem error (e : RuntimeError) : Matches m l (.error e) (.error e) := of_eq rfl

theorem ite {p : Prop} [Decidable p] {r s : Except RuntimeError Progress}
    {r' s' : Except RuntimeError Layered.Next} (hr : p → Matches m l r r')
    (hs : ¬ p → Matches m l s s') :
    Matches m l (if p then r else s) (if p then r' else s') := by
  by_cases hp : p
  · simpa only [if_pos hp] using hr hp
  · simpa only [if_neg hp] using hs hp

theorem pop {below operands : List Value} {t : ValueType}
    {k : Value × Array Value → Except RuntimeError Progress}
    {k' : Value × List Value → Except RuntimeError Layered.Next}
    (h : ∀ v rest, rest.length < operands.length →
      Matches m l (k (v, stacked below rest)) (k' (v, rest))) :
    Matches m l (Machine.pop below.length t (stacked below operands) >>= k)
      (takeOperand t operands >>= k') := by
  rw [pop_stacked]
  cases hr : takeOperand t operands with
  | error e => exact of_eq rfl
  | ok r =>
    obtain ⟨hops, _⟩ := takeOperand_ok.mp hr
    exact h r.1 r.2 (by simp [hops])

/-- Both take an operand, of which the machine keeps what it stands for. -/
theorem popAs {α : Type} {view : Value → α} {below operands : List Value} {t : ValueType}
    {k : α × Array Value → Except RuntimeError Progress}
    {k' : Value × List Value → Except RuntimeError Layered.Next}
    (h : ∀ v rest, rest.length < operands.length →
      Matches m l (k (view v, stacked below rest)) (k' (v, rest))) :
    Matches m l
      ((Machine.pop below.length t (stacked below operands)).map
        (fun (v, rest) => (view v, rest)) >>= k)
      (takeOperand t operands >>= k') := by
  have hbind : ∀ r : Except RuntimeError (Value × Array Value),
      (r.map (fun (v, rest) => (view v, rest)) >>= k) = r >>= fun r => k (view r.1, r.2) := by
    intro r
    cases r <;> rfl
  rw [hbind]
  exact pop h

/-- The machine pushes an operand, if it may. What was popped before makes room, so a stack that is
full now was as high when the instruction began. -/
theorem push {below rest : List Value} {v : Value} {c : Console} {f : Frame}
    {callers : Array Frame} {locals : Array Value} {n : Layered.Next}
    (hsize : below.length + rest.length ≤ l.height)
    (h : n.flatten = .running ⟨c, f, callers, locals, stacked below (v :: rest)⟩) :
    Matches m l
      (m.push v (stacked below rest) >>= fun operands =>
        pure (.running ⟨c, f, callers, locals, operands⟩))
      (.ok n) := by
  unfold Machine.push
  split
  · next hlimit => exact .inr (.inl ⟨rfl, Nat.le_trans hlimit (size_stacked _ _ ▸ hsize)⟩)
  · refine of_eq ?_
    rw [push_stacked]
    exact congrArg Except.ok h.symm

theorem slot {f : Frame} {x : Activation} {under : List Value} {n : UInt16}
    {k : Fin (under ++ x.slots).toArray.size → Except RuntimeError Progress}
    {k' : Value → Except RuntimeError Layered.Next}
    (hblock : f.block = x.block) (hbase : f.localsBase = under.length)
    (h : ∀ index : Fin (under ++ x.slots).toArray.size,
      (∀ w, (under ++ x.slots).toArray.set index w index.isLt =
        (under ++ x.slots.set n.toNat w).toArray) →
      Matches m l (k index) (k' (under ++ x.slots).toArray[index])) :
    Matches m l (slotIndex f (under ++ x.slots).toArray n >>= k) (x.slot n >>= k') := by
  rcases slotIndex_append hblock hbase n with ⟨v, index, hv, hi, hget, hset⟩ | ⟨e, he, hi⟩
  · rw [hv, hi]
    exact hget ▸ h index hset
  · rw [he, hi]
    exact error e

end Matches

/-! ## The step

Calls and returns change the activations, and each has a lemma. The other instructions stay within
one. -/

/-- Leaving a frame uncovers what lies below it: its slots and its operands were the last ones, and
the result goes on top of the operands of the caller. -/
theorem leave_flatten (m : Machine) (l : Layered) (f : Frame) (rest : List Value)
    (result : Option Value) (hlocals : f.localsBase = (Activation.slotsOf l.waiting).length)
    (hstack : f.stackBase = (Activation.stackOf l.waiting).length) :
    Matches m l
      (m.leave ⟨l.console, f, (Activation.framesOf l.waiting).toArray,
        (Activation.slotsOf l.activations).toArray, stacked (Activation.stackOf l.waiting) rest⟩
        result)
      (.ok (l.leave result)) := by
  obtain ⟨console, x, waiting⟩ := l
  have hslots : (Activation.slotsOf (x :: waiting)).toArray.shrink f.localsBase =
      (Activation.slotsOf waiting).toArray := by
    simp [hlocals, Activation.slotsOf]
  have hoperands : (stacked (Activation.stackOf waiting) rest).shrink f.stackBase =
      (Activation.stackOf waiting).toArray := by
    simp [hstack, stacked]
  cases waiting with
  | nil => exact .of_eq rfl
  | cons caller outer =>
    -- the caller is the last of the frames, and its result goes on top of its own operands
    have hback : (Activation.framesOf (caller :: outer)).toArray.back? =
        some (caller.frame outer) := by
      simp [Activation.framesOf]
    have hpop : (Activation.framesOf (caller :: outer)).toArray.pop =
        (Activation.framesOf outer).toArray := by
      simp [Activation.framesOf]
    simp only [leave, Layered.activations, hslots, hoperands, hback, hpop]
    cases result with
    | none => exact .of_eq rfl
    | some v =>
      refine .push ?_ rfl
      simp only [Layered.height, Layered.activations, Activation.stackOf, List.length_append,
        List.length_reverse]
      omega

/-- The arguments of a new frame are the topmost operands of its caller. The machine cuts them out
of the array of all operands, and the floor keeps it from cutting deeper than the caller's own. -/
theorem activate_stacked (m : Machine) (i depth : Nat) (locals : Array Value)
    (below operands : List Value) :
    m.activate i depth below.length locals (stacked below operands) =
      if m.limits.frames ≤ depth then .error .callDepthExceeded
      else match m.artifact.blocks[i]? with
        | none => .error (.unknownBlock s!"#{i}")
        | some b =>
          let count := b.signature.params.length
          if operands.length < count then .error .stackUnderflow
          else .ok (⟨b, 0, locals.size, below.length + (operands.drop count).length⟩,
            locals ++ (Activation.enter b (operands.take count).reverse).slots.toArray,
            stacked below (operands.drop count)) := by
  unfold activate
  split
  · rfl
  · cases m.artifact.blocks[i]? with
    | none => rfl
    | some b =>
      simp only [size_stacked, Nat.add_lt_add_iff_left]
      split
      · rfl
      · next hcount =>
        have hle : b.signature.params.length ≤ operands.length := Nat.le_of_not_lt hcount
        have hzeros : (b.slots.extract b.signature.params.length b.slots.size).map Value.zero =
            ((b.slots.toList.drop b.signature.params.length).map Value.zero).toArray := by
          apply Array.toList_inj.mp
          simp [List.take_of_length_le]
        have hbase : below.length + operands.length - b.signature.params.length =
            below.length + (operands.drop b.signature.params.length).length := by
          simp only [List.length_drop]
          omega
        rw [extract_stacked below hle, hzeros, shrink_stacked below hle, hbase]
        simp [Activation.enter]

/-- A call takes its arguments from the operands of the caller. -/
theorem call_flatten (m : Machine) (i : UInt16) (next : Nat) (l : Layered) :
    Matches m l (m.execute (.call i) next l.flatten)
      (l.execute m.artifact.blocks (.call i) next) := by
  have hactivate := activate_stacked m i.toNat (l.flatten.callers.size + 1) l.flatten.locals
    (Activation.stackOf l.waiting) l.current.operands
  simp only [execute, Layered.execute]
  rw [show l.flatten.frame.stackBase = (Activation.stackOf l.waiting).length from rfl,
    show l.flatten.operands = stacked (Activation.stackOf l.waiting) l.current.operands from rfl,
    hactivate]
  -- the limit on frames is looked at before the block is looked for
  by_cases hdepth : m.limits.frames ≤ l.flatten.callers.size + 1
  · rw [if_pos hdepth]
    refine .inr (.inr ⟨rfl, ?_⟩)
    simpa [Layered.flatten, Layered.activations] using hdepth
  · rw [if_neg hdepth]
    cases m.artifact.blocks[i.toNat]? with
    | none => exact .error _
    | some b =>
      simp only
      split
      · exact .error _
      · refine .of_eq ?_
        simp [Except.map, Layered.Next.flatten, Layered.flatten, Layered.activations,
          Activation.slotsOf, Activation.stackOf, Activation.framesOf, Activation.frame,
          stacked, Activation.enter, bind, Except.bind, pure, Except.pure]

/-- **One instruction.** One case per instruction, each of which goes along both definitions at
once: what the machine pops the activation pops, and a push at the end is where a limit can come in
between. -/
theorem execute_flatten (m : Machine) (op : EncodedOp) (next : Nat) (l : Layered) :
    Matches m l (m.execute op next l.flatten) (l.execute m.artifact.blocks op next) := by
  -- no instruction pushes before it has popped what it needs, so a full stack was full before
  have hheight : ∀ {rest : List Value}, rest.length ≤ l.current.operands.length →
      (Activation.stackOf l.waiting).length + rest.length ≤ l.height := by
    intro rest hrest
    simp only [Layered.height, Layered.activations, Activation.stackOf, List.length_append,
      List.length_reverse]
    omega
  cases op with
  | const i =>
    simp only [execute, Layered.execute, Layered.flatten, Activation.frame]
    cases l.current.block.segment.pool[i.toNat]?.bind Constant.value? with
    | none => exact .error _
    | some v => exact .push (hheight (Nat.le_refl _)) rfl
  | pop t => exact .pop fun v rest _ => .of_eq rfl
  | load t n =>
    refine .slot (f := { l.current.frame l.waiting with ip := next }) rfl rfl fun index _ => ?_
    exact .ite (fun _ => .push (hheight (Nat.le_refl _)) rfl) (fun _ => .error _)
  | store t n =>
    refine .pop fun v rest _ => ?_
    refine .slot (f := { l.current.frame l.waiting with ip := next }) rfl rfl fun index hset => ?_
    refine .of_eq (congrArg (fun x => Except.ok (Progress.running ⟨l.console, _, _, x, _⟩)) ?_)
    exact hset v
  | arith o t =>
    simp only [execute, Layered.execute, popPair, bind_assoc]
    refine .pop fun b rest hb => .pop fun a rest' ha => ?_
    simp only [pure_bind]
    rcases o.apply a b with (_ | got) | v
    · exact .error _
    · exact .error _
    · have hle : rest'.length ≤ l.current.operands.length := by omega
      exact .push (hheight hle) rfl
  | cast source target => exact .pop fun v rest hv => .push (hheight (by omega)) rfl
  | shift kind =>
    exact .popAs fun amount rest hb => .popAs fun v rest' ha => .push (hheight (by omega)) rfl
  | compare t =>
    simp only [execute, Layered.execute, popPair, bind_assoc]
    refine .pop fun b rest hb => .pop fun a rest' ha => ?_
    simp only [pure_bind]
    cases a.order b with
    | none => exact .error _
    | some ordering =>
      have hle : rest'.length ≤ l.current.operands.length := by omega
      exact .push (hheight hle) rfl
  | jump target => exact .of_eq rfl
  | jumpIf relation target => exact .popAs fun v rest _ => .of_eq rfl
  | jumpIfTrue target => exact .popAs fun v rest _ => .of_eq rfl
  | call i => exact call_flatten m i next l
  | ret t =>
    exact .pop fun v rest _ =>
      leave_flatten m l { l.current.frame l.waiting with ip := next } rest (some v) rfl rfl
  | retVoid =>
    exact leave_flatten m l { l.current.frame l.waiting with ip := next } l.current.operands none
      rfl rfl
  | openInput => exact .of_eq rfl
  | read t =>
    refine .ite (fun _ => ?_) (fun _ => .error _)
    show Matches m l
      (match l.console.input.read t with | (.error e, _) => _ | (.ok v, input) => _) _
    rcases l.console.input.read t with ⟨e | v, input⟩
    · exact .error _
    · exact .push (hheight (Nat.le_refl _)) rfl
  | print t => exact .pop fun v rest _ => .of_eq rfl
  | printError i =>
    simp only [execute, Layered.execute, Layered.flatten, Activation.frame]
    rcases l.current.block.segment.pool[i.toNat]? with _ | (v | text)
    · exact .error _
    · exact .error _
    · exact .of_eq rfl
  | exit => exact .popAs fun v rest _ => .of_eq rfl

/-- **The layers are what the machine does.** Decoding is the same in both, and then comes the
instruction. -/
theorem step_flatten (m : Machine) (l : Layered) :
    Matches m l (m.step l.flatten) (l.advance m.artifact.blocks) := by
  unfold step Layered.advance
  rw [show l.flatten.frame.block = l.current.block from rfl,
    show l.flatten.frame.ip = l.current.ip from rfl]
  cases l.current.block.segment.decode l.current.ip with
  | error e => exact .error _
  | ok r => exact execute_flatten m r.1 r.2 l

theorem pushAll_stacked (m : Machine) (below : List Value) :
    ∀ (arguments operands : List Value),
      arguments.foldlM (fun operands v => m.push v operands) (stacked below operands) =
          .ok (stacked below (arguments.reverse ++ operands)) ∨
        arguments.foldlM (fun operands v => m.push v operands) (stacked below operands) =
            .error .stackOverflow ∧
          m.limits.operands < below.length + operands.length + arguments.length
  | [], operands => .inl rfl
  | v :: arguments, operands => by
    -- the first argument that finds no room ends it
    by_cases hlimit : m.limits.operands ≤ (stacked below operands).size
    · refine .inr ⟨?_, ?_⟩
      · rw [List.foldlM_cons, push, if_pos hlimit]
        rfl
      · simp only [size_stacked] at hlimit
        simp only [List.length_cons]
        omega
    · have hpush : m.push v (stacked below operands) = .ok (stacked below (v :: operands)) := by
        rw [push, if_neg hlimit, push_stacked]
      have hcons : (v :: arguments).foldlM (fun operands v => m.push v operands)
          (stacked below operands) =
          arguments.foldlM (fun operands v => m.push v operands)
            (stacked below (v :: operands)) := by
        rw [List.foldlM_cons, hpush]
        rfl
      rw [hcons]
      rcases pushAll_stacked m below arguments (v :: operands) with h | ⟨h, hlt⟩
      · exact .inl (by rw [h]; simp)
      · refine .inr ⟨h, ?_⟩
        simp only [List.length_cons] at hlt ⊢
        omega

/-- The state in which a block begins, as the only frame. The arguments are pushed and then become
its slots. -/
theorem begin_flatten (m : Machine) {index : Nat} {b : Block}
    (hb : m.artifact.blocks[index]? = some b) {arguments : List Value}
    (hlen : arguments.length = b.signature.params.length) (console : Console) :
    m.begin index arguments console =
        .ok (Layered.flatten ⟨console, .enter b arguments, []⟩) ∨
      (m.begin index arguments console = .error .stackOverflow ∧
        m.limits.operands < arguments.length) ∨
      (m.begin index arguments console = .error .callDepthExceeded ∧ m.limits.frames = 0) := by
  have hpush : arguments.foldlM (fun operands v => m.push v operands) #[] =
        .ok (stacked [] (arguments.reverse ++ [])) ∨
      arguments.foldlM (fun operands v => m.push v operands) #[] = .error .stackOverflow ∧
        m.limits.operands < [].length + [].length + arguments.length :=
    pushAll_stacked m [] arguments []
  have hactivate : m.activate index 0 0 #[] (stacked [] arguments.reverse) = _ :=
    activate_stacked m index 0 #[] [] arguments.reverse
  unfold begin
  rcases hpush with h | ⟨h, hlt⟩
  · rw [h, List.append_nil]
    -- only a machine that allows no frames at all cannot begin
    by_cases hframes : m.limits.frames ≤ 0
    · rw [if_pos hframes] at hactivate
      refine .inr (.inr ⟨?_, by omega⟩)
      show (m.activate index 0 0 #[] (stacked [] arguments.reverse) >>= _) = _
      exact except_bind_error hactivate
    · have hall : b.signature.params.length = arguments.reverse.length := by simp [hlen]
      rw [if_neg hframes, hb] at hactivate
      simp only [hall, Nat.lt_irrefl, if_false, List.take_length, List.drop_length,
        List.reverse_reverse] at hactivate
      refine .inl (except_bind_ok.mpr ⟨_, rfl, except_bind_ok.mpr ⟨_, hactivate, ?_⟩⟩)
      simp [Layered.flatten, Layered.activations, Activation.frame, Activation.framesOf,
        Activation.stackOf, Activation.slotsOf, Activation.enter, stacked, pure, Except.pure]
  · rw [h]
    exact .inr (.inl ⟨rfl, by simpa using hlt⟩)

end Machine

end TypedStack
