import TypedStack.Proofs.Machine.Runs
/-!
# What an instruction does

An instruction decides by itself what it takes from the operands and the slots of its frame and what
it would have the machine do, an `Effect`. Only then do the limits and the other blocks come in
(`Machine.perform`). `Machine.execute_eq` splits the step at this place. So what depends on the
limits or on the blocks is looked for among four effects, and what an instruction may touch is said
once for all of them (`effect_spares`).

Nineteen instructions become four effects, and a property of steps that is about frames, limits or
results needs four cases and not nineteen.
-/

set_option autoImplicit false

namespace TypedStack

/-! ## Effects

An effect is all that the rest of the machine has to know of an instruction. -/

/-- What an instruction would have the machine do. -/
inductive Effect where
  /-- Go on in the same frame, with a value to push if there is one. -/
  | goOn (ip : Nat) (console : Console) (locals operands : Array Value) (pushed : Option Value)
  /-- Begin the block of an index. -/
  | call (index : Nat)
  /-- Leave the frame, with a result if there is one. -/
  | leave (operands : Array Value) (result : Option Value)
  /-- End the program. -/
  | finish (status : Int32)

namespace Machine

/-- What an instruction that is followed by the offset `next` comes to in its own frame. It is the
body of `Machine.execute` with every use of the machine taken out: where that pushes, calls or
leaves, this says so. -/
def effect (op : EncodedOp) (next : Nat) (s : State) : Except RuntimeError Effect :=
  let floor := s.frame.stackBase
  let pool := s.frame.block.segment.pool
  let goOn := Effect.goOn next s.console s.locals
  match op with
  | .const i =>
    match pool[i.toNat]?.bind Constant.value? with
    | none => .error (.badConstant i)
    | some v => .ok (goOn s.operands (some v))
  | .pop t => do
    let (_, operands) ← pop floor t s.operands
    pure (goOn operands none)
  | .load t slot => do
    let index ← slotIndex s.frame s.locals slot
    let v := getElem s.locals index index.isLt
    if v.type = t then pure (goOn s.operands (some v)) else throw (.typeError (some t) v.type)
  | .store t slot => do
    let (v, operands) ← pop floor t s.operands
    let index ← slotIndex s.frame s.locals slot
    pure (.goOn next s.console (s.locals.set index v index.isLt) operands none)
  | .arith op t => do
    let (a, b, operands) ← popPair floor t s.operands
    match op.apply a b with
    | .error .divisionByZero => throw .divisionByZero
    | .error (.notNumeric got) => throw (.typeError none got)
    | .ok v => pure (goOn operands (some v))
  | .cast source target => do
    let (v, operands) ← pop floor source s.operands
    pure (goOn operands (some (v.cast target)))
  | .shift kind => do
    let (amount, operands) ← popInt floor s.operands
    let (n, operands) ← popInt floor operands
    pure (goOn operands (some (.int (kind.apply n amount))))
  | .compare t => do
    let (a, b, operands) ← popPair floor t s.operands
    match a.order b with
    | none => throw (.typeError (some a.type) b.type)
    | some ordering => pure (goOn operands (some (.int (orderingSignal ordering))))
  | .jump target => .ok (.goOn target.toNat s.console s.locals s.operands none)
  | .jumpIf relation target => do
    let (signal, operands) ← popInt floor s.operands
    let ip := if relation.holds signal then target.toNat else next
    pure (.goOn ip s.console s.locals operands none)
  | .jumpIfTrue target => do
    let (b, operands) ← popBool floor s.operands
    pure (.goOn (if b then target.toNat else next) s.console s.locals operands none)
  | .call i => .ok (.call i.toNat)
  | .ret t => do
    let (v, operands) ← pop floor t s.operands
    pure (.leave operands (some v))
  | .retVoid => .ok (.leave s.operands none)
  | .openInput => .ok (.goOn next { s.console with opened := true } s.locals s.operands none)
  | .read t =>
    if s.console.opened then
      match s.console.input.read t with
      | (.error e, _) => .error e
      | (.ok v, input) => .ok (.goOn next { s.console with input } s.locals s.operands (some v))
    else .error .inputNotOpened
  | .print t => do
    let (v, operands) ← pop floor t s.operands
    let console := { s.console with outputLines := v.text :: s.console.outputLines }
    pure (.goOn next console s.locals operands none)
  | .printError i =>
    match pool[i.toNat]? with
    | some (.message text) =>
      let console := { s.console with errorLines := text :: s.console.errorLines }
      .ok (.goOn next console s.locals s.operands none)
    | _ => .error (.badConstant i)
  | .exit => do
    let (status, _) ← popInt floor s.operands
    pure (.finish status.toInt32)

/-- Pushes a value that may be there. -/
def pushAny (m : Machine) (operands : Array Value) :
    Option Value → Except RuntimeError (Array Value)
  | none => .ok operands
  | some v => m.push v operands

/-- What the machine makes of the effect of an instruction that is followed by the offset `next`.
The limits are looked at here and nowhere else, that on operands where a value is pushed and that on
frames where a block begins. -/
def perform (m : Machine) (next : Nat) (s : State) : Effect → Except RuntimeError Progress
  | .goOn ip console locals operands pushed => do
    let operands ← m.pushAny operands pushed
    pure (.running ⟨console, { s.frame with ip }, s.callers, locals, operands⟩)
  | .call index => do
    let (callee, locals, operands) ←
      m.activate index (s.callers.size + 1) s.frame.stackBase s.locals s.operands
    pure (.running
      ⟨s.console, callee, s.callers.push { s.frame with ip := next }, locals, operands⟩)
  | .leave operands result =>
    m.leave { s with frame := { s.frame with ip := next }, operands } result
  | .finish status => .ok (.finished (.exited status) s.console)

/-- **A step splits at its effect.** The order of checks is the same: an instruction first takes
what it needs and fails for want of it, and then the machine pushes, calls or leaves and fails for
its own reasons. -/
theorem execute_eq (m : Machine) (op : EncodedOp) (next : Nat) (s : State) :
    m.execute op next s = effect op next s >>= m.perform next s := by
  obtain ⟨console, frame, callers, locals, operands⟩ := s
  cases op with
  | const i =>
    simp only [execute, effect]
    cases frame.block.segment.pool[i.toNat]?.bind Constant.value? <;> rfl
  | pop t | cast source target | print t | ret t =>
    simp only [execute, effect, bind_assoc]
    rfl
  | load t slot =>
    simp only [execute, effect, bind_assoc]
    congr 1
    funext index
    split <;> rfl
  | store t slot =>
    simp only [execute, effect, bind_assoc]
    rfl
  | arith o t =>
    simp only [execute, effect, bind_assoc]
    congr 1
    funext r
    rcases o.apply r.1 r.2.1 with (_ | _) | _ <;> rfl
  | shift kind =>
    simp only [execute, effect, bind_assoc]
    rfl
  | compare t =>
    simp only [execute, effect, bind_assoc]
    congr 1
    funext r
    cases r.1.order r.2.1 <;> rfl
  | jump target => rfl
  | jumpIf relation target | jumpIfTrue target | exit =>
    simp only [execute, effect, bind_assoc]
    rfl
  | call i => rfl
  | retVoid => rfl
  | openInput => rfl
  | read t =>
    simp only [execute, effect]
    split
    · rcases console.input.read t with ⟨_ | _, _⟩ <;> rfl
    · rfl
  | printError i =>
    simp only [execute, effect]
    rcases frame.block.segment.pool[i.toNat]? with _ | (_ | _) <;> rfl

/-! ## What an instruction leaves alone

Frame lemmas in the literal sense. Below the floor of its operands and below the base of its slots
an instruction finds what belongs to other frames. -/

/-- An operand is taken from the top, and lies above the floor. -/
theorem pop_ok {floor : Nat} {t : ValueType} {operands rest : Array Value} {v : Value}
    (h : pop floor t operands = .ok (v, rest)) :
    floor < operands.size ∧ operands.back? = some v ∧ v.type = t ∧ rest = operands.pop := by
  unfold pop at h
  split at h
  · cases h
  · next hfloor =>
    cases hback : operands.back? with
    | none =>
      rw [hback] at h
      cases h
    | some w =>
      simp only [hback] at h
      split at h
      · next ht =>
        cases h
        exact ⟨Nat.lt_of_not_le hfloor, rfl, ht, rfl⟩
      · cases h

/-- Operands were taken from the top, and none of those up to the floor. The stack may be lower than
the floor to begin with, in a state that no run comes to; it is then as high as before. -/
structure Taken (floor : Nat) (operands rest : Array Value) : Prop where
  above : ∀ n ≤ floor, n ≤ operands.size → n ≤ rest.size
  left : rest.toList <+: operands.toList

namespace Taken

variable {floor : Nat} {operands rest rest' : Array Value}

theorem refl (floor : Nat) (operands : Array Value) : Taken floor operands operands :=
  ⟨fun _ _ hle => hle, List.prefix_rfl⟩

theorem trans (h : Taken floor operands rest) (h' : Taken floor rest rest') :
    Taken floor operands rest' :=
  ⟨fun n hn hle => h'.above n hn (h.above n hn hle), h'.left.trans h.left⟩

theorem size_le (h : Taken floor operands rest) : rest.size ≤ operands.size := by
  simpa using h.left.length_le

/-- What lies below the floor stays. -/
theorem keeps (h : Taken floor operands rest) {below : List Value}
    (hbelow : below <+: operands.toList) (hle : below.length ≤ floor) : below <+: rest.toList := by
  refine List.prefix_of_prefix_length_le hbelow h.left ?_
  rw [Array.length_toList]
  exact h.above _ hle hbelow.length_le

theorem pop {t : ValueType} {v : Value} (h : Machine.pop floor t operands = .ok (v, rest)) :
    Taken floor operands rest := by
  obtain ⟨hfloor, -, -, rfl⟩ := pop_ok h
  constructor
  · intro n hn _
    rw [Array.size_pop]
    omega
  · rw [Array.toList_pop]
    exact List.dropLast_prefix _

theorem popAs {α : Type} {view : Value → α} {t : ValueType} {a : α}
    (h : (Machine.pop floor t operands).map (fun (v, rest) => (view v, rest)) = .ok (a, rest)) :
    Taken floor operands rest := by
  obtain ⟨⟨v, tail⟩, hpop, heq⟩ := except_map_ok.mp h
  cases heq
  exact pop hpop

theorem popPair {t : ValueType} {a b : Value}
    (h : Machine.popPair floor t operands = .ok (a, b, rest)) : Taken floor operands rest := by
  obtain ⟨⟨_, mid⟩, hfirst, h⟩ := except_bind_ok.mp h
  obtain ⟨⟨_, last⟩, hsecond, h⟩ := except_bind_ok.mp h
  cases h
  exact (pop hfirst).trans (pop hsecond)

end Taken

/-- Slots were written, and none of those up to the base. -/
structure Written (base : Nat) (locals locals' : Array Value) : Prop where
  size_eq : locals'.size = locals.size
  below : locals'.toList.take base = locals.toList.take base

namespace Written

variable {base : Nat} {locals locals' : Array Value}

theorem refl (base : Nat) (locals : Array Value) : Written base locals locals := ⟨rfl, rfl⟩

/-- A slot of the frame lies at its base or above. -/
theorem set {frame : Frame} {slot : UInt16} {index : Fin locals.size} (v : Value)
    (h : slotIndex frame locals slot = .ok index) :
    Written frame.localsBase locals (locals.set index v index.isLt) := by
  have hindex : frame.localsBase ≤ index.val := by
    simp only [slotIndex] at h
    split at h
    · cases h
    · split at h
      · cases h
        exact Nat.le_add_right _ _
      · cases h
  refine ⟨Array.size_set _, ?_⟩
  rw [Array.toList_set]
  exact List.take_set_of_le hindex

/-- What lies below the base stays. -/
theorem keeps (h : Written base locals locals') {below : List Value}
    (hbelow : below <+: locals.toList) (hle : below.length ≤ base) : below <+: locals'.toList := by
  have htake : below <+: locals.toList.take base := List.prefix_take_iff.mpr ⟨hbelow, hle⟩
  rw [← h.below] at htake
  exact htake.trans (List.take_prefix _ _)

end Written

/-- What a return gives back: the top operand, or nothing. -/
def Gives (op : EncodedOp) (operands : Array Value) (result : Option Value) : Prop :=
  (∃ t v, op = .ret t ∧ operands.back? = some v ∧ v.type = t ∧ result = some v) ∨
    op = .retVoid ∧ result = none

/-- An effect in the frame of a state writes lines only behind those written before, writes slots of
the frame only, and takes operands of the frame only. Nothing is said of a call or of the end of a
program: the one takes its arguments when the machine performs it, and behind the other there is no
state. -/
def Spares (op : EncodedOp) (s : State) : Effect → Prop
  | .goOn _ console locals operands _ =>
    s.console.Continues console ∧ Written s.frame.localsBase s.locals locals ∧
      Taken s.frame.stackBase s.operands operands
  | .leave operands result =>
    Taken s.frame.stackBase s.operands operands ∧ Gives op s.operands result
  | .call _ | .finish _ => True

/-- **What an instruction spares.** One case per instruction. Most of them take operands and change
nothing else; one writes a slot, two write a line, two leave the frame. -/
theorem effect_spares {op : EncodedOp} {next : Nat} {s : State} {e : Effect}
    (h : effect op next s = .ok e) : Spares op s e := by
  have quiet : ∀ {op : EncodedOp} {ip : Nat} {rest : Array Value} {pushed : Option Value},
      Taken s.frame.stackBase s.operands rest →
      Spares op s (.goOn ip s.console s.locals rest pushed) :=
    fun htaken => ⟨.refl _, .refl _ _, htaken⟩
  cases op with
  | const i =>
    simp only [effect] at h
    split at h
    · cases h
    · cases h
      exact quiet (.refl _ _)
  | pop t | cast source target =>
    obtain ⟨⟨v, rest⟩, hpop, h⟩ := except_bind_ok.mp h
    cases h
    exact quiet (.pop hpop)
  | load t slot =>
    obtain ⟨index, -, h⟩ := except_bind_ok.mp h
    simp only at h
    split at h
    · cases h
      exact quiet (.refl _ _)
    · cases h
  | store t slot =>
    obtain ⟨⟨v, rest⟩, hpop, h⟩ := except_bind_ok.mp h
    obtain ⟨index, hindex, h⟩ := except_bind_ok.mp h
    cases h
    exact ⟨.refl _, .set v hindex, .pop hpop⟩
  | arith o t =>
    obtain ⟨⟨a, b, rest⟩, hpop, h⟩ := except_bind_ok.mp h
    simp only at h
    split at h
    · cases h
    · cases h
    · cases h
      exact quiet (.popPair hpop)
  | shift kind =>
    obtain ⟨⟨amount, mid⟩, hfirst, h⟩ := except_bind_ok.mp h
    obtain ⟨⟨n, rest⟩, hsecond, h⟩ := except_bind_ok.mp h
    cases h
    exact quiet ((Taken.popAs hfirst).trans (.popAs hsecond))
  | compare t =>
    obtain ⟨⟨a, b, rest⟩, hpop, h⟩ := except_bind_ok.mp h
    simp only at h
    split at h
    · cases h
    · cases h
      exact quiet (.popPair hpop)
  | jump target =>
    cases h
    exact quiet (.refl _ _)
  | jumpIf relation target | jumpIfTrue target =>
    obtain ⟨⟨a, rest⟩, hpop, h⟩ := except_bind_ok.mp h
    cases h
    exact quiet (.popAs hpop)
  | call i =>
    cases h
    trivial
  | ret t =>
    obtain ⟨⟨v, rest⟩, hpop, h⟩ := except_bind_ok.mp h
    cases h
    obtain ⟨-, hback, htype, -⟩ := pop_ok hpop
    exact ⟨.pop hpop, .inl ⟨t, v, rfl, hback, htype, rfl⟩⟩
  | retVoid =>
    cases h
    exact ⟨.refl _ _, .inr ⟨rfl, rfl⟩⟩
  | openInput =>
    cases h
    exact ⟨⟨List.suffix_rfl, List.suffix_rfl⟩, .refl _ _, .refl _ _⟩
  | read t =>
    simp only [effect] at h
    split at h
    · split at h
      · cases h
      · cases h
        exact ⟨⟨List.suffix_rfl, List.suffix_rfl⟩, .refl _ _, .refl _ _⟩
    · cases h
  | print t =>
    obtain ⟨⟨v, rest⟩, hpop, h⟩ := except_bind_ok.mp h
    cases h
    exact ⟨⟨List.suffix_cons _ _, List.suffix_rfl⟩, .refl _ _, .pop hpop⟩
  | printError i =>
    simp only [effect] at h
    split at h
    · cases h
      exact ⟨⟨List.suffix_rfl, List.suffix_cons _ _⟩, .refl _ _, .refl _ _⟩
    · cases h
  | exit =>
    obtain ⟨⟨n, rest⟩, hpop, h⟩ := except_bind_ok.mp h
    cases h
    trivial

/-! ## Successful steps

A step that succeeds, taken apart. -/

/-- The first state of a block: its only frame, above what the arguments leave. -/
theorem begin_ok {m : Machine} {index : Nat} {arguments : List Value} {console : Console}
    {s : State} (h : m.begin index arguments console = .ok s) :
    ∃ operands frame locals rest,
      arguments.foldlM (fun operands v => m.push v operands) #[] = .ok operands ∧
      m.activate index 0 0 #[] operands = .ok (frame, locals, rest) ∧
      s = ⟨console, frame, #[], locals, rest⟩ := by
  obtain ⟨operands, hpush, h⟩ := except_bind_ok.mp h
  obtain ⟨⟨frame, locals, rest⟩, hactivate, h⟩ := except_bind_ok.mp h
  cases h
  exact ⟨operands, frame, locals, rest, hpush, hactivate, rfl⟩

theorem step_ok {m : Machine} {s : State} {p : Progress} (h : m.step s = .ok p) :
    ∃ op next e, s.frame.block.segment.decode s.frame.ip = .ok (op, next) ∧
      effect op next s = .ok e ∧ m.perform next s e = .ok p := by
  unfold step at h
  split at h
  · cases h
  · next op next hdecode =>
    rw [execute_eq] at h
    obtain ⟨e, he, hp⟩ := except_bind_ok.mp h
    exact ⟨op, next, e, hdecode, he, hp⟩

/-- A frame that is left and is not the last one gives way to its caller. -/
theorem perform_leave_running {m : Machine} {next : Nat} {s s' : State} {operands : Array Value}
    {result : Option Value} (h : m.perform next s (.leave operands result) = .ok (.running s')) :
    ∃ caller operands', s.callers.back? = some caller ∧
      m.pushAny (operands.shrink s.frame.stackBase) result = .ok operands' ∧
      s' = ⟨s.console, caller, s.callers.pop, s.locals.shrink s.frame.localsBase, operands'⟩ := by
  simp only [perform, leave] at h
  cases hcaller : s.callers.back? with
  | none =>
    rw [hcaller] at h
    cases h
  | some caller =>
    rw [hcaller] at h
    cases result with
    | none =>
      cases h
      exact ⟨caller, _, rfl, rfl, rfl⟩
    | some v =>
      obtain ⟨operands', hpush, hpure⟩ := except_bind_ok.mp h
      cases hpure
      exact ⟨caller, operands', rfl, hpush, rfl⟩

end Machine

end TypedStack
