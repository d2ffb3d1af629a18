import TypedStack.Proofs.Simulation.Basic
/-!
# Single instructions

What the machine does on each symbolic instruction, in its place in a block, and on the few pieces
of code that stand for no part of the tree. The operands that an instruction takes are there and of
its types, so none of its checks fails.

These lemmas are about the machine without limits (`Layered`), whose steps are fetching an
instruction and executing it. Offsets and operands in bytes do not appear in them: an instruction
stands between two offsets, and execution goes on at the second unless it jumps.
-/

set_option autoImplicit false

namespace TypedStack

theorem Value.toBool_cast (v : Value) : (v.cast .bool).toBool = v.toBool := rfl

theorem Value.map_type_zero (t : ResultType) : (t.map Value.zero).map Value.type = t := by
  cases t with
  | none => rfl
  | some t => rw [Option.map_some, Option.map_some, Value.type_zero]

namespace Simulation

open Assembly Compile Evaluation

namespace Site.Spans

variable {x : Site} {i j : Nat}

/-- The instruction that is executed at an offset. The machine decodes it from the bytes of the
block, and what it finds is the symbolic instruction in its placed form. -/
theorem execute {o : SymbolicOp} (h : x.Spans i [.op o] j) :
    ∃ op, Placed x.directory x.block.segment.pool (fun l t => MarkedAt x.instrs l t.toNat) o op ∧
      ∀ c slots operands waiting, (x.state c i slots operands waiting).advance x.blocks =
        (x.state c i slots operands waiting).execute x.blocks op j := by
  obtain ⟨op, k, hdecode, hop, rfl⟩ := h
  refine ⟨op, hop, fun c slots operands waiting => ?_⟩
  unfold Layered.advance
  rw [hdecode]

theorem resolved {callee : Callee} (h : x.Spans i [.op (.call callee)] j) :
    ∃ n, x.directory.resolve callee = .ok n := by
  obtain ⟨op, hop, -⟩ := h.execute
  cases hop with
  | call hr => exact ⟨_, hr⟩

section

variable (c : Console) (slots operands : List Value) (waiting : List Activation)

theorem const {v : Value} (h : x.Spans i [.op (.const (.value v))] j) :
    (x.state c i slots operands waiting).advance x.blocks =
      .ok (.running (x.state c j slots (v :: operands) waiting)) := by
  obtain ⟨op, hop, hstep⟩ := h.execute
  cases hop with
  | const hk =>
    rw [hstep]
    simp [Layered.execute, Layered.goTo, hk, Constant.value?]

theorem pop {t : ValueType} {v : Value} (hv : v.type = t) (h : x.Spans i [.op (.pop t)] j) :
    (x.state c i slots (v :: operands) waiting).advance x.blocks =
      .ok (.running (x.state c j slots operands waiting)) := by
  obtain ⟨op, hop, hstep⟩ := h.execute
  cases hop
  rw [hstep]
  simp [Layered.execute, Layered.goTo, takeOperand, hv, bind, Except.bind, pure, Except.pure]

/-- The slot is there and holds a value of the type that is asked for. -/
theorem load {t : ValueType} {n : UInt16} {v : Value} (hn : n.toNat < x.block.slots.size)
    (hv : slots[n.toNat]? = some v) (ht : v.type = t) (h : x.Spans i [.op (.load t n)] j) :
    (x.state c i slots operands waiting).advance x.blocks =
      .ok (.running (x.state c j slots (v :: operands) waiting)) := by
  obtain ⟨op, hop, hstep⟩ := h.execute
  cases hop
  rw [hstep]
  simp [Layered.execute, Layered.goTo, Activation.slot, hv, ht, Nat.not_le_of_lt hn, bind,
    Except.bind, pure, Except.pure]

/-- The slot is there, and what it held before is lost. -/
theorem store {t : ValueType} {n : UInt16} {v old : Value} (hn : n.toNat < x.block.slots.size)
    (hold : slots[n.toNat]? = some old) (ht : v.type = t) (h : x.Spans i [.op (.store t n)] j) :
    (x.state c i slots (v :: operands) waiting).advance x.blocks =
      .ok (.running (x.state c j (slots.set n.toNat v) operands waiting)) := by
  obtain ⟨op, hop, hstep⟩ := h.execute
  cases hop
  rw [hstep]
  simp [Layered.execute, Layered.goTo, Activation.slot, takeOperand, hold, ht,
    Nat.not_le_of_lt hn, bind, Except.bind, pure, Except.pure]

/-- Both operands have the type of the instruction. The one on top is the right operand. -/
theorem arith {o : ArithOp} {t : ValueType} {a b v : Value} (ha : a.type = t) (hb : b.type = t)
    (hv : o.apply a b = .ok v) (h : x.Spans i [.op (.arith o t)] j) :
    (x.state c i slots (b :: a :: operands) waiting).advance x.blocks =
      .ok (.running (x.state c j slots (v :: operands) waiting)) := by
  obtain ⟨op, hop, hstep⟩ := h.execute
  cases hop
  rw [hstep]
  simp [Layered.execute, Layered.goTo, takeOperand, ha, hb, hv, bind, Except.bind, pure,
    Except.pure]

/-- Of the errors that arithmetic can end with only a division by zero is left, since the types are
right. -/
theorem arith_zero {o : ArithOp} {t : ValueType} {a b : Value} (ha : a.type = t)
    (hb : b.type = t) (hv : o.apply a b = .error .divisionByZero)
    (h : x.Spans i [.op (.arith o t)] j) :
    (x.state c i slots (b :: a :: operands) waiting).advance x.blocks =
      .error .divisionByZero := by
  obtain ⟨op, hop, hstep⟩ := h.execute
  cases hop
  rw [hstep]
  simp [Layered.execute, takeOperand, ha, hb, hv, bind, Except.bind, throw, throwThe,
    MonadExceptOf.throw]

theorem cast {source target : ValueType} {v : Value} (hv : v.type = source)
    (h : x.Spans i [.op (.cast source target)] j) :
    (x.state c i slots (v :: operands) waiting).advance x.blocks =
      .ok (.running (x.state c j slots (v.cast target :: operands) waiting)) := by
  obtain ⟨op, hop, hstep⟩ := h.execute
  cases hop
  rw [hstep]
  simp [Layered.execute, Layered.goTo, takeOperand, hv, bind, Except.bind, pure, Except.pure]

theorem shift {kind : ShiftKind} {a b : Value} (ha : a.type = .int) (hb : b.type = .int)
    (h : x.Spans i [.op (.shift kind)] j) :
    (x.state c i slots (b :: a :: operands) waiting).advance x.blocks =
      .ok (.running
        (x.state c j slots (.int (kind.apply a.toInt b.toInt) :: operands) waiting)) := by
  obtain ⟨op, hop, hstep⟩ := h.execute
  cases hop
  rw [hstep]
  simp [Layered.execute, Layered.goTo, takeOperand, ha, hb, bind, Except.bind, pure, Except.pure]

/-- Values of one type are comparable, and their order is pushed as a signal. -/
theorem compare {t : ValueType} {a b : Value} {ordering : Ordering} (ha : a.type = t)
    (hb : b.type = t) (ho : a.order b = some ordering) (h : x.Spans i [.op (.compare t)] j) :
    (x.state c i slots (b :: a :: operands) waiting).advance x.blocks =
      .ok (.running (x.state c j slots (.int (orderingSignal ordering) :: operands) waiting)) := by
  obtain ⟨op, hop, hstep⟩ := h.execute
  cases hop
  rw [hstep]
  simp [Layered.execute, Layered.goTo, takeOperand, ha, hb, ho, bind, Except.bind, pure,
    Except.pure]

theorem target_eq {l : Label} {t : UInt16} {k : Nat} (ht : MarkedAt x.instrs l t.toNat)
    (hk : MarkedAt x.instrs l k) : t.toNat = k :=
  MarkedAt.unique x.encodes.distinct ht hk

theorem jump {l : Label} {k : Nat} (hk : MarkedAt x.instrs l k)
    (h : x.Spans i [.op (.jump l)] j) :
    (x.state c i slots operands waiting).advance x.blocks =
      .ok (.running (x.state c k slots operands waiting)) := by
  obtain ⟨op, hop, hstep⟩ := h.execute
  cases hop with
  | jump ht =>
    rw [hstep, ← target_eq ht hk]
    rfl

/-- The signal is compared with zero. Either way it is taken off the stack. -/
theorem jumpIf {relation : Relation} {l : Label} {k : Nat} (hk : MarkedAt x.instrs l k)
    (signal : Int64) (h : x.Spans i [.op (.jumpIf relation l)] j) :
    (x.state c i slots (.int signal :: operands) waiting).advance x.blocks =
      .ok (.running
        (x.state c (if relation.holds signal then k else j) slots operands waiting)) := by
  obtain ⟨op, hop, hstep⟩ := h.execute
  cases hop with
  | jumpIf _ ht =>
    rw [hstep, ← target_eq ht hk]
    rfl

theorem jumpIfTrue {l : Label} {k : Nat} (hk : MarkedAt x.instrs l k) {v : Value}
    (hv : v.type = .bool) (h : x.Spans i [.op (.jumpIfTrue l)] j) :
    (x.state c i slots (v :: operands) waiting).advance x.blocks =
      .ok (.running (x.state c (if v.toBool then k else j) slots operands waiting)) := by
  obtain ⟨op, hop, hstep⟩ := h.execute
  cases hop with
  | jumpIfTrue ht =>
    rw [hstep, ← target_eq ht hk]
    simp [Layered.execute, Layered.goTo, takeOperand, hv, bind, Except.bind, pure, Except.pure]

/-- A call moves the arguments from the operands into a new activation. They are there in the types
of the parameters already, and the operands below them wait with the caller. -/
theorem call {callee : Callee} {n : UInt16} {b : TypedStack.Block}
    (hn : x.directory.resolve callee = .ok n) (hb : x.blocks[n.toNat]? = some b)
    {arguments : List Value} (hlen : arguments.length = b.signature.params.length)
    (h : x.Spans i [.op (.call callee)] j) :
    (x.state c i slots (arguments.reverse ++ operands) waiting).advance x.blocks =
      .ok (.running ⟨c, .enter b arguments, ⟨x.block, j, slots, operands⟩ :: waiting⟩) := by
  obtain ⟨op, hop, hstep⟩ := h.execute
  cases hop with
  | call hr =>
    rw [hn, Except.ok.injEq] at hr
    subst hr
    have hcount : b.signature.params.length = arguments.reverse.length := by simp [hlen]
    rw [hstep]
    simp [Layered.execute, hb, hcount, -List.length_reverse]

/-- Returning uncovers the activation that waits for the result. -/
theorem ret {t : ValueType} {v : Value} {caller : Activation} (hv : v.type = t)
    (h : x.Spans i [.op (.ret t)] j) :
    (x.state c i slots (v :: operands) (caller :: waiting)).advance x.blocks =
      .ok (.running ⟨c, { caller with operands := v :: caller.operands }, waiting⟩) := by
  obtain ⟨op, hop, hstep⟩ := h.execute
  cases hop
  rw [hstep]
  simp [Layered.execute, Layered.leave, takeOperand, hv, bind, Except.bind, pure, Except.pure]

theorem retVoid {caller : Activation} (h : x.Spans i [.op .retVoid] j) :
    (x.state c i slots operands (caller :: waiting)).advance x.blocks =
      .ok (.running ⟨c, caller, waiting⟩) := by
  obtain ⟨op, hop, hstep⟩ := h.execute
  cases hop
  rw [hstep]
  rfl

/-- Returning from the only activation ends the run. -/
theorem retVoid_last (h : x.Spans i [.op .retVoid] j) :
    (x.state c i slots operands []).advance x.blocks = .ok (.finished (.returned none) c) := by
  obtain ⟨op, hop, hstep⟩ := h.execute
  cases hop
  rw [hstep]
  rfl

theorem openInput (h : x.Spans i [.op .openInput] j) :
    (x.state c i slots operands waiting).advance x.blocks =
      .ok (.running (x.state { c with opened := true } j slots operands waiting)) := by
  obtain ⟨op, hop, hstep⟩ := h.execute
  cases hop
  rw [hstep]
  rfl

/-- Reading needs the input to be open. A value that is read has the type that was asked for. -/
theorem read {t : ValueType} {v : Value} {input : Input} (hc : c.opened = true)
    (hv : c.input.read t = (.ok v, input)) (h : x.Spans i [.op (.read t)] j) :
    (x.state c i slots operands waiting).advance x.blocks =
      .ok (.running (x.state { c with input } j slots (v :: operands) waiting)) := by
  obtain ⟨op, hop, hstep⟩ := h.execute
  cases hop
  rw [hstep]
  simp [Layered.execute, Layered.goTo, hc, hv]

/-- An input that has no such value ends the run with an error, and not the block. -/
theorem read_error {t : ValueType} {e : RuntimeError} {input : Input} (hc : c.opened = true)
    (he : c.input.read t = (.error e, input)) (h : x.Spans i [.op (.read t)] j) :
    (x.state c i slots operands waiting).advance x.blocks = .error e := by
  obtain ⟨op, hop, hstep⟩ := h.execute
  cases hop
  rw [hstep]
  simp [Layered.execute, hc, he]

theorem print {t : ValueType} {v : Value} (hv : v.type = t) (h : x.Spans i [.op (.print t)] j) :
    (x.state c i slots (v :: operands) waiting).advance x.blocks =
      .ok (.running (x.state { c with outputLines := v.text :: c.outputLines } j slots operands
        waiting)) := by
  obtain ⟨op, hop, hstep⟩ := h.execute
  cases hop
  rw [hstep]
  simp [Layered.execute, Layered.goTo, takeOperand, hv, bind, Except.bind, pure, Except.pure]

theorem printError {message : String} (h : x.Spans i [.op (.printError message)] j) :
    (x.state c i slots operands waiting).advance x.blocks =
      .ok (.running (x.state { c with errorLines := message :: c.errorLines } j slots operands
        waiting)) := by
  obtain ⟨op, hop, hstep⟩ := h.execute
  cases hop with
  | printError hm =>
    rw [hstep]
    simp [Layered.execute, Layered.goTo, hm]

theorem exit (status : Int64) (h : x.Spans i [.op .exit] j) :
    (x.state c i slots (.int status :: operands) waiting).advance x.blocks =
      .ok (.finished (.exited status.toInt32) c) := by
  obtain ⟨op, hop, hstep⟩ := h.execute
  cases hop
  rw [hstep]
  rfl

/-! ## Pieces of code

A piece of code takes several steps, and how many is of no interest. What matters is the state that
is reached, or that the run ends. The pieces have the names of the functions that write them, and
each is followed under the conditions that its place in a statement or an expression provides. -/

/-- A value is converted, in one step or in none. -/
theorem castCode {a t : ValueType} {v : Value} (hv : v.type = a)
    (h : x.Spans i (castCode a t) j) :
    ∃ k, Layered.Reaches x.blocks (x.state c i slots (v :: operands) waiting) k
      (x.state c j slots (v.cast t :: operands) waiting) := by
  unfold Compile.castCode at h
  split at h
  · next hat =>
    subst hat hv
    obtain rfl : i = j := h
    exact ⟨0, v.cast_type.symm ▸ .refl⟩
  · exact ⟨1, .single (h.cast c slots operands waiting hv)⟩

/-- The ordering signal on top becomes a truth value. Whether the jump is taken or not, execution
comes to the end of the piece, by two ways that differ in the constant that is pushed. -/
theorem signalCode {relation : Relation} {n : Nat} (signal : Int64)
    (h : x.Spans i (signalCode relation n) j) :
    ∃ k, Layered.Reaches x.blocks (x.state c i slots (.int signal :: operands) waiting) k
      (x.state c j slots (.bool (relation.holds signal) :: operands) waiting) := by
  unfold Compile.signalCode at h
  obtain ⟨no, hjump, h⟩ := spans_cons.mp h
  obtain ⟨leave, hfalse, h⟩ := spans_cons.mp h
  obtain ⟨yes, hdone, h⟩ := spans_cons.mp h
  obtain ⟨_, hmark, h⟩ := spans_cons.mp h
  obtain ⟨hyes, rfl⟩ := spans_mark.mp hmark
  obtain ⟨_, htrue, hmark'⟩ := spans_cons.mp h
  obtain ⟨hend, rfl⟩ := spans_mark.mp hmark'
  have hfirst := hjump.jumpIf c slots operands waiting hyes signal
  cases hs : relation.holds signal with
  | true =>
    rw [hs] at hfirst
    exact ⟨_, (Layered.Reaches.single hfirst).trans
      (.single (htrue.const c slots operands waiting))⟩
  | false =>
    rw [hs] at hfirst
    exact ⟨_, ((Layered.Reaches.single hfirst).trans
      (.single (hfalse.const c slots operands waiting))).trans
        (.single (hdone.jump c slots _ waiting hend))⟩

theorem dropCode {t : ResultType} {v : Option Value} (hv : v.map Value.type = t)
    (h : x.Spans i (dropCode t) j) :
    ∃ k, Layered.Reaches x.blocks (x.state c i slots (v.toList ++ operands) waiting) k
      (x.state c j slots operands waiting) := by
  subst hv
  cases v with
  | none =>
    obtain rfl : i = j := h
    exact ⟨0, .refl⟩
  | some v => exact ⟨1, .single (h.pop c slots operands waiting rfl)⟩

/-- The code after a failed assertion writes its message and ends the program. The end is the one
that the tree comes to, and so nothing has to be said of a state behind it. -/
theorem fatalCode {α : Type} {n : Nat} {message : String}
    {post : α → Console → Layered → Prop} (h : x.Spans i (fatalCode message) j) :
    Follows x.blocks n (x.state c i slots operands waiting) (Eval.fatal message c) post := by
  unfold Compile.fatalCode at h
  obtain ⟨_, hprint, h⟩ := spans_cons.mp h
  obtain ⟨_, hconst, hexit⟩ := spans_cons.mp h
  refine .step (hprint.printError c slots operands waiting) ?_
  refine .step (hconst.const _ slots operands waiting) ?_
  exact .ended (.finished (hexit.exit _ slots operands waiting (-1)))

/-- A body that runs off its end gives back the zero value. -/
theorem zeroCode {t : ResultType} {caller : Activation} (h : x.Spans i (zeroCode t) j) :
    ∃ k, Layered.Reaches x.blocks (x.state c i slots operands (caller :: waiting)) k
      ⟨c, { caller with operands := (t.map Value.zero).toList ++ caller.operands }, waiting⟩ := by
  cases t with
  | none => exact ⟨1, .single (h.retVoid c slots operands waiting)⟩
  | some t =>
    obtain ⟨_, hconst, hret⟩ := spans_cons.mp h
    exact ⟨2, (Layered.Reaches.single (hconst.const c slots operands _)).trans
      (.single (hret.ret c slots operands waiting (Value.type_zero t)))⟩

end

end Site.Spans

end Simulation

end TypedStack
