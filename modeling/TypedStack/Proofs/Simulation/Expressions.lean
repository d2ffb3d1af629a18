import TypedStack.Proofs.Compile.Typed
import TypedStack.Proofs.Simulation.Steps
/-!
# Expressions

The code of an expression follows its evaluation: it leaves the value on top of the operands and
everything else as it was. Calls are taken for granted here, as `Serves`.

The evaluation converts operands where it applies an operation, while the code converts each right
after it is evaluated. That the two come to the same is used in `Evaluates.operand`, where a value
is handed on as it was evaluated and the stack has it converted.
-/

set_option autoImplicit false

namespace TypedStack

namespace Evaluation

/-- Arguments converted to the types of parameters. The code of a call does so before the call, and
the evaluation when the parameters are bound. -/
def castAll (args : List Value) (types : List ValueType) : List Value :=
  List.zipWith (fun v t => v.cast t) args types

theorem length_castAll {args : List Value} {types : List ValueType}
    (h : args.length = types.length) : (castAll args types).length = types.length := by
  simp [castAll, h]

end Evaluation

namespace Simulation

open Assembly Compile Evaluation

/-! ## Environments and calls

An environment finds a value by the name of a variable, and the machine by the number of a slot. -/

/-- Variables lie in slots of their own, so that storing into one leaves the others alone. -/
structure Site.Scoped (x : Site) (vars : Variables) : Prop where
  declared : ∀ {name : String} {v : Variable}, vars name = some v →
    v.slot.toNat < x.block.slots.size
  distinct : ∀ {name name' : String} {v v' : Variable}, vars name = some v →
    vars name' = some v' → v.slot.toNat = v'.slot.toNat → name = name'

/-- The slots hold the values of the variables, which have their types. Slots without a variable may
hold anything. -/
def Holds (vars : Variables) (env : Env) (slots : List Value) : Prop :=
  ∀ (name : String) (v : Variable), vars name = some v →
    ∃ val, env name = some val ∧ slots[v.slot.toNat]? = some val ∧ val.type = v.type

theorem Holds.set {x : Site} {vars : Variables} {env : Env} {slots : List Value}
    (h : Holds vars env slots) (hx : x.Scoped vars) {name : String} {v : Variable}
    (hv : vars name = some v) {val : Value} (hval : val.type = v.type) :
    Holds vars (env.set name val) (slots.set v.slot.toNat val) := by
  intro other w hw
  obtain ⟨old, henv, hslot, htype⟩ := h other w hw
  by_cases hname : other = name
  · subst hname
    obtain rfl : w = v := Option.some.inj (hw.symm.trans hv)
    have hlt : w.slot.toNat < slots.length := (List.getElem?_eq_some_iff.mp hslot).1
    exact ⟨val, by simp [Env.set], by simp [hlt], hval⟩
  · have hne : v.slot.toNat ≠ w.slot.toNat := fun he => hname (hx.distinct hv hw he).symm
    refine ⟨old, by simp [Env.set, hname, henv], ?_, htype⟩
    rw [List.getElem?_set_ne hne]
    exact hslot

/-- Control is back in an activation, with a result of a type on its operands. The activation is
otherwise as it was, the operands below the result included. -/
def Returned (caller : Activation) (waiting : List Activation) (t : ResultType)
    (v : Option Value) (c : Console) (l : Layered) : Prop :=
  v.map Value.type = t ∧ c.opened = true ∧
    l = ⟨c, { caller with operands := v.toList ++ caller.operands }, waiting⟩

/-- A call of a function goes to its block and comes back with what the function gives back. It is
an assumption on the functions that an expression calls, and is discharged by induction on the depth
of calls. -/
def Serves (blocks : Array TypedStack.Block) (d : Directory) (fs : FunctionTable) (n : Nat)
    (calls : Calls) : Prop :=
  ∀ (name : String) (f : FunctionSig) (sig : Signature) (i : UInt16), fs[name]? = some f →
    f.signature = .ok sig → d.resolve ⟨name, sig⟩ = .ok i →
    ∃ b, blocks[i.toNat]? = some b ∧ b.signature = sig ∧
      ∀ (args : List Value) (c : Console) (l : Layered) (caller : Activation)
        (waiting : List Activation), args.length = sig.params.length → c.opened = true →
        l.advance blocks =
          .ok (.running ⟨c, .enter b (castAll args sig.params), caller :: waiting⟩) →
        Follows blocks n l (calls name args c) (Returned caller waiting sig.result)

/-! ## Evaluation, step by step

The evaluation of each kind of expression, as a sequence of evaluations of its parts. In this form
it can be followed part by part (`Follows.andThen`). -/

section

variable {calls : Calls} {env : Env} {loc : Location}

/-- An operand is an expression whose value has to be there. -/
theorem bind_operand {α : Type} (e : Expr) (k : Value → Eval α) :
    (e.eval calls env >>= fun v => Eval.demand v >>= k) = e.operand calls env >>= k := by
  funext c
  exact (Result.andThen_assoc (e.eval calls env c) (fun v => Eval.demand v) k).symm

theorem eval_call (name : String) (args : List Expr) (c : Console) :
    (Expr.call loc name args).eval calls env c =
      (Expr.evalAll calls env args c).andThen (calls name) := by
  rw [Expr.eval]
  rfl

theorem eval_arith (op : ArithOp) (lhs rhs : Expr) (c : Console) :
    (Expr.arith loc op lhs rhs).eval calls env c =
      (lhs.operand calls env c).andThen fun a c => (rhs.operand calls env c).andThen fun b c =>
        (arithmetic op a b c).andThen fun v c => .value (some v) c := by
  simp only [Expr.eval, bind_operand]
  rfl

theorem eval_shift (kind : ShiftKind) (lhs rhs : Expr) (c : Console) :
    (Expr.shift loc kind lhs rhs).eval calls env c =
      (lhs.operand calls env c).andThen fun a c => (rhs.operand calls env c).andThen fun b c =>
        .value (some (shifted kind a b)) c := by
  simp only [Expr.eval, bind_operand]
  rfl

theorem eval_comparison (op : Comparison) (lhs rhs : Expr) (c : Console) :
    (Expr.comparison loc op lhs rhs).eval calls env c =
      (lhs.operand calls env c).andThen fun a c => (rhs.operand calls env c).andThen fun b c =>
        (compares op a b c).andThen fun v c => .value (some (.bool v)) c := by
  simp only [Expr.eval, bind_operand]
  rfl

theorem evalAll_cons (e : Expr) (rest : List Expr) (c : Console) :
    Expr.evalAll calls env (e :: rest) c =
      (e.operand calls env c).andThen fun v c => (Expr.evalAll calls env rest c).andThen fun vs c =>
        .value (v :: vs) c := by
  simp only [Expr.evalAll, bind_operand]
  rfl

end

/-! ## The code of expressions

Each expression is followed wherever its code stands, whatever is on the stack below and whoever is
waiting for the block to return. -/

section

variable {x : Site} {fs : FunctionTable} {vars : Variables} {calls : Calls} {env : Env}
  {slots : List Value} {n : Nat}

/-- Code leaves the value of an expression, if it has one, on the operands. An expression may call
functions and so may read and write, but it changes no slot of the block in which it stands. -/
def Evaluates (x : Site) (n : Nat) (calls : Calls) (env : Env) (slots : List Value) (e : Expr)
    (code : List Instr) (t : ResultType) : Prop :=
  ∀ i j, x.Spans i code j → ∀ (c : Console) (operands : List Value) (waiting : List Activation),
    c.opened = true → Follows x.blocks n (x.state c i slots operands waiting) (e.eval calls env c)
      (Returned ⟨x.block, j, slots, operands⟩ waiting t)

/-- A value of one type is on top of the operands, converted to another. -/
def Converted (x : Site) (j : Nat) (slots operands : List Value) (waiting : List Activation)
    (a t : ValueType) (v : Value) (c : Console) (l : Layered) : Prop :=
  v.type = a ∧ c.opened = true ∧ l = x.state c j slots (v.cast t :: operands) waiting

namespace Evaluates

theorem value {e : Expr} {code : List Instr} {a : ValueType} {i j : Nat} {c : Console}
    (h : Evaluates x n calls env slots e code (some a)) (hspans : x.Spans i code j)
    (operands : List Value) (waiting : List Activation) (hc : c.opened = true) :
    Follows x.blocks n (x.state c i slots operands waiting) (e.operand calls env c)
      fun v c l => v.type = a ∧ c.opened = true ∧
        l = x.state c j slots (v :: operands) waiting := by
  refine (h i j hspans c operands waiting hc).andThen ?_
  rintro v c' l' ⟨ht, hc', rfl⟩
  obtain ⟨v, rfl, hv⟩ := Option.map_eq_some_iff.mp ht
  exact .value ⟨hv, hc', rfl⟩

/-- The value on top is converted, though the evaluation goes on with it as it was. -/
theorem operand {e : Expr} {code : List Instr} {a t : ValueType} {i j : Nat} {c : Console}
    (h : Evaluates x n calls env slots e code (some a))
    (hspans : x.Spans i (code ++ castCode a t) j) (operands : List Value)
    (waiting : List Activation) (hc : c.opened = true) :
    Follows x.blocks n (x.state c i slots operands waiting) (e.operand calls env c)
      (Converted x j slots operands waiting a t) := by
  obtain ⟨k, hcode, hcast⟩ := Site.spans_append.mp hspans
  refine (h.value hcode operands waiting hc).extend ?_
  rintro v c' l' ⟨hv, hc', rfl⟩
  obtain ⟨steps, hsteps⟩ := hcast.castCode c' slots operands waiting hv
  exact .after hsteps (.value ⟨hv, hc', rfl⟩)

/-- Two operands from left to right, both converted to one type. -/
theorem pair {α : Type} {lhs rhs : Expr} {left right : List Instr} {a b t : ValueType} {i j : Nat}
    {c : Console} {operands : List Value} {waiting : List Activation}
    {k : Value → Value → Console → Result α} {post : α → Console → Layered → Prop}
    (hl : Evaluates x n calls env slots lhs left (some a))
    (hr : Evaluates x n calls env slots rhs right (some b))
    (hspans : x.Spans i ((left ++ castCode a t) ++ (right ++ castCode b t)) j)
    (hc : c.opened = true)
    (hk : ∀ v w c', v.type = a → w.type = b → c'.opened = true →
      Follows x.blocks n (x.state c' j slots (w.cast t :: v.cast t :: operands) waiting) (k v w c')
        post) :
    Follows x.blocks n (x.state c i slots operands waiting)
      ((lhs.operand calls env c).andThen fun v c => (rhs.operand calls env c).andThen (k v))
      post := by
  obtain ⟨mid, hleft, hright⟩ := Site.spans_append.mp hspans
  refine (hl.operand hleft operands waiting hc).andThen ?_
  rintro v c₁ _ ⟨hv, hc₁, rfl⟩
  refine (hr.operand hright _ waiting hc₁).andThen ?_
  rintro w c₂ _ ⟨hw, hc₂, rfl⟩
  exact hk v w c₂ hv hw hc₂

end Evaluates

/-- Arithmetic on two operands that are there in their common type. -/
theorem arithmetic_follows {op : ArithOp} {a b : Value} {t : ValueType} {i j : Nat}
    {operands : List Value} {waiting : List Activation} {c : Console}
    (ht : t = commonType a.type b.type) (hnum : t ≠ .bool) (hc : c.opened = true)
    (h : x.Spans i [.op (.arith op t)] j) :
    Follows x.blocks n (x.state c i slots (b.cast t :: a.cast t :: operands) waiting)
      ((arithmetic op a b c).andThen fun v c => .value (some v) c)
      (Returned ⟨x.block, j, slots, operands⟩ waiting (some t)) := by
  have ha := a.type_cast t
  have hb := b.type_cast t
  rcases op.apply_typed (isNumeric_of_ne hnum) ha hb with hr | ⟨v, hr, hv⟩
  · have hvalue : arithmetic op a b c = .ended (.error .divisionByZero) c := by
      rw [ht] at hr
      simp only [arithmetic, hr]
      rfl
    rw [hvalue]
    exact .ended (.failed (h.arith_zero c slots operands waiting ha hb hr))
  · have hvalue : arithmetic op a b c = .value v c := by
      rw [ht] at hr
      simp only [arithmetic, hr]
      rfl
    rw [hvalue]
    exact .step (h.arith c slots operands waiting ha hb hr) (.value ⟨by simp [hv], hc, rfl⟩)

/-- Values brought to their common type can be compared. -/
theorem compares_eq (op : Comparison) {a b : Value} {t : ValueType}
    (ht : t = commonType a.type b.type) (c : Console) :
    ∃ o, (a.cast t).order (b.cast t) = some o ∧ compares op a b c = .value (holds op o) c := by
  obtain ⟨o, ho⟩ := Value.order_typed ((a.type_cast t).trans (b.type_cast t).symm)
  refine ⟨o, ho, ?_⟩
  subst ht
  unfold compares
  simp only [ho]
  rfl

mutual

-- By recursion on the derivation that the code is generated for the tree, one piece at a time.
theorem evaluates (hx : x.Scoped vars) (hserves : Serves x.blocks x.directory fs n calls)
    (hholds : Holds vars env slots) :
    ∀ {e : Expr} {lo hi : Nat} {code : List Instr} {t : ResultType},
      ExprCode fs vars e lo code t hi → Evaluates x n calls env slots e code t
  | _, _, _, _, _, .call hf hsig hargs => by
    intro i j hspans c operands waiting hc
    obtain ⟨k, hargsAt, hcall⟩ := Site.spans_append.mp hspans
    obtain ⟨index, hindex⟩ := hcall.resolved
    -- the block of the function takes over until it returns
    obtain ⟨b, hb, rfl, hreturns⟩ := hserves _ _ _ _ hf hsig hindex
    rw [eval_call]
    refine (evaluatesAll hx hserves hholds hargs i k hargsAt c operands waiting hc).andThen ?_
    rintro args c' l ⟨hlen, hc', rfl⟩
    exact hreturns args c' _ ⟨x.block, j, slots, operands⟩ waiting hlen hc'
      (hcall.call c' slots operands waiting hindex hb (length_castAll hlen))
  | _, _, _, _, _, .arith hl hr ht hb => by
    intro i j hspans c operands waiting hc
    obtain ⟨k, hoperands, harith⟩ := Site.spans_append.mp hspans
    rw [eval_arith]
    refine Evaluates.pair (evaluates hx hserves hholds hl) (evaluates hx hserves hholds hr)
      hoperands hc ?_
    rintro v w c' rfl rfl hc'
    exact arithmetic_follows ht hb hc' harith
  | _, _, _, _, _, .shift hl hr => by
    intro i j hspans c operands waiting hc
    obtain ⟨back, hpair, hback⟩ := Site.spans_append.mp hspans
    obtain ⟨k, hoperands, hshift⟩ := Site.spans_append.mp hpair
    rw [eval_shift]
    refine Evaluates.pair (evaluates hx hserves hholds hl) (evaluates hx hserves hholds hr)
      hoperands hc ?_
    rintro v w c' rfl rfl hc'
    refine .step (hshift.shift c' slots operands waiting rfl rfl) ?_
    -- the shift is done on integers, and its result converted back
    obtain ⟨steps, hsteps⟩ := hback.castCode (v := .int _) c' slots operands waiting rfl
    exact .after hsteps (.value ⟨congrArg some (Value.type_cast _ _), hc', rfl⟩)
  | _, _, _, _, _, .comparison hl hr ht => by
    intro i j hspans c operands waiting hc
    obtain ⟨signal, hpair, hsignal⟩ := Site.spans_append.mp hspans
    obtain ⟨k, hoperands, hcompare⟩ := Site.spans_append.mp hpair
    rw [eval_comparison]
    refine Evaluates.pair (evaluates hx hserves hholds hl) (evaluates hx hserves hholds hr)
      hoperands hc ?_
    rintro v w c' rfl rfl hc'
    obtain ⟨o, ho, hcompares⟩ := compares_eq _ ht c'
    rw [hcompares]
    refine .step (hcompare.compare c' slots operands waiting (v.type_cast _) (w.type_cast _) ho) ?_
    obtain ⟨steps, hsteps⟩ := hsignal.signalCode c' slots operands waiting (orderingSignal o)
    rw [Comparison.relation_holds] at hsteps
    exact .after hsteps (.value ⟨rfl, hc', rfl⟩)
  | _, _, _, _, _, .variable hv => by
    intro i j hspans c operands waiting hc
    obtain ⟨val, henv, hslot, htype⟩ := hholds _ _ hv
    rw [Expr.eval, henv]
    exact .step (hspans.load c slots operands waiting (hx.declared hv) hslot htype)
      (.value ⟨congrArg some htype, hc, rfl⟩)
  | _, _, _, _, _, .int => by
    intro i j hspans c operands waiting hc
    rw [Expr.eval]
    exact .step (hspans.const c slots operands waiting) (.value ⟨rfl, hc, rfl⟩)
  | _, _, _, _, _, .double => by
    intro i j hspans c operands waiting hc
    rw [Expr.eval]
    exact .step (hspans.const c slots operands waiting) (.value ⟨rfl, hc, rfl⟩)

/-- Arguments are evaluated from left to right and converted one by one. The last is on top, which
is where a call finds it. -/
theorem evaluatesAll (hx : x.Scoped vars) (hserves : Serves x.blocks x.directory fs n calls)
    (hholds : Holds vars env slots) :
    ∀ {args : List Expr} {types : List ValueType} {lo hi : Nat} {code : List Instr},
      ArgsCode fs vars args types lo code hi → ∀ i j, x.Spans i code j →
        ∀ (c : Console) (operands : List Value) (waiting : List Activation), c.opened = true →
          Follows x.blocks n (x.state c i slots operands waiting) (Expr.evalAll calls env args c)
            fun vs c l => vs.length = types.length ∧ c.opened = true ∧
              l = x.state c j slots ((castAll vs types).reverse ++ operands) waiting
  | _, _, _, _, _, .nil => by
    intro i j hspans c operands waiting hc
    rw [Expr.evalAll]
    obtain rfl : i = j := hspans
    exact .value ⟨rfl, hc, rfl⟩
  | _, _, _, _, _, .cons he hrest => by
    intro i j hspans c operands waiting hc
    obtain ⟨k, hfirst, htail⟩ := Site.spans_append.mp hspans
    rw [evalAll_cons]
    refine ((evaluates hx hserves hholds he).operand hfirst operands waiting hc).andThen ?_
    rintro v c₁ _ ⟨-, hc₁, rfl⟩
    refine (evaluatesAll hx hserves hholds hrest k j htail c₁ _ waiting hc₁).andThen ?_
    rintro vs c₂ _ ⟨hlen, hc₂, rfl⟩
    exact .value ⟨by simp [hlen], hc₂, by simp [castAll]⟩

end

end

end Simulation

end TypedStack
