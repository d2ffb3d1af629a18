import TypedStack.Proofs.Compile.Generated
import TypedStack.Proofs.Compile.Steps
/-!
# What lowering an expression generates

A successful step of the code generator appends code. For an expression the code stands in the
relation `Compile.ExprCode` to the tree (`Lowering.expr_code`), and the type that the generator
gives back is the one that `Compile.typeOf` finds.

The generator works on a draft of a block and on a scope. What it does to them is said by
`Body.Appends`, together with the count of the labels, and this is all that later proofs see of it:
the sequence of single steps is taken apart here once.
-/

set_option autoImplicit false

namespace TypedStack.Compile

open Assembly Evaluation

/-- Code was appended, and nothing else but the current line and the labels has changed. In
particular the code written before stays, and no variable comes into scope. -/
structure Body.Appends (b : Body) (code : List Instr) (b' : Body) : Prop where
  scope : b'.scope = b.scope
  name : b'.draft.block.name = b.draft.block.name
  signature : b'.draft.block.signature = b.draft.block.signature
  slots : b'.draft.block.slots = b.draft.block.slots
  instrs : b'.draft.block.instrs.toList = b.draft.block.instrs.toList ++ code

/-- The number of labels handed out. -/
def Body.labels (b : Body) : Nat := b.draft.labels

namespace Body.Appends

variable {b b' b'' : Body} {code code' : List Instr}

theorem refl (b : Body) : b.Appends [] b := ⟨rfl, rfl, rfl, rfl, by simp⟩

theorem trans (h : b.Appends code b') (h' : b'.Appends code' b'') :
    b.Appends (code ++ code') b'' :=
  ⟨h'.scope.trans h.scope, h'.name.trans h.name, h'.signature.trans h.signature,
    h'.slots.trans h.slots, by rw [h'.instrs, h.instrs, List.append_assoc]⟩

end Body.Appends

/-! ## Single steps

One lemma for each operation that the generator is made of: what it appends, and how many labels it
takes. They are read from left to right, from a successful step to its effect. -/

namespace Lowering

variable {b b' : Body}

theorem emit_ok {o : SymbolicOp} {u : Unit} (h : emit o b = .ok (u, b')) :
    b.Appends [.op o] b' ∧ b'.labels = b.labels := by
  obtain rfl := state_modify_ok.mp h
  exact ⟨⟨rfl, rfl, rfl, rfl, by simp [Draft.emit]⟩, rfl⟩

theorem mark_ok {l : Label} {u : Unit} (h : mark l b = .ok (u, b')) :
    b.Appends [.mark l] b' ∧ b'.labels = b.labels := by
  obtain rfl := state_modify_ok.mp h
  exact ⟨⟨rfl, rfl, rfl, rfl, by simp [Draft.mark, Draft.emit]⟩, rfl⟩

theorem setLine_ok {line : UInt32} {u : Unit} (h : setLine line b = .ok (u, b')) :
    b.Appends [] b' ∧ b'.labels = b.labels := by
  obtain rfl := state_modify_ok.mp h
  exact ⟨⟨rfl, rfl, rfl, rfl, by simp [Draft.setLine]⟩, rfl⟩

/-- The label handed out has the number of labels handed out before. -/
theorem freshLabel_ok {l : Label} (h : freshLabel b = .ok (l, b')) :
    l = ⟨b.labels⟩ ∧ b.Appends [] b' ∧ b'.labels = b.labels + 1 := by
  have hf := state_modifyGet_ok.mp h
  cases hf
  exact ⟨rfl, ⟨rfl, rfl, rfl, rfl, by simp⟩, rfl⟩

theorem push_ok {v : Value} {u : Unit} (h : push v b = .ok (u, b')) :
    b.Appends [.op (.const (.value v))] b' ∧ b'.labels = b.labels :=
  emit_ok h

theorem lookup_ok {name : String} {loc : Location} {v : Variable}
    (h : lookup name loc b = .ok (v, b')) : b.scope.find? name = some v ∧ b = b' := by
  simp only [lookup, state_bind_ok, state_get_ok, state_lift_ok] at h
  obtain ⟨_, _, ⟨rfl, rfl⟩, hv, rfl⟩ := h
  exact ⟨Scope.lookup_ok.mp hv, rfl⟩

/-- Declaring a variable changes the scope and not the block. -/
theorem bindName_ok {name : String} {type : ResultType} {loc : Location} {v : Variable} :
    bindName name type loc b = .ok (v, b') ↔
      b.scope.next name type false loc = .ok v ∧ b' = { b with scope := b.scope.add v } := by
  rw [bindName_run, except_bind_ok]
  constructor
  · rintro ⟨w, hnext, hw⟩
    cases hw
    exact ⟨hnext, rfl⟩
  · rintro ⟨hnext, rfl⟩
    exact ⟨v, hnext, rfl⟩

/-- Adding a slot changes the block and not the scope. -/
theorem addSlot_ok {t : ValueType} {slot : UInt16} :
    addSlot t b = .ok (slot, b') ↔
      slot = (b.draft.addSlot t).1 ∧ b' = { b with draft := (b.draft.addSlot t).2 } := by
  unfold addSlot
  rw [state_modifyGet_ok, Prod.mk.injEq, eq_comm, @eq_comm _ _ b']

theorem typeOf_ok {s : Surroundings} {e : Expr} {t : ResultType}
    (h : typeOf s e b = .ok (t, b')) : Compile.typeOf s.functions b.scope e = .ok t ∧ b = b' := by
  simp only [typeOf, state_bind_ok, state_get_ok, state_lift_ok] at h
  obtain ⟨_, _, ⟨rfl, rfl⟩, ht, rfl⟩ := h
  exact ⟨ht, rfl⟩

/-- A conversion has a type on both sides, and writes an instruction if they differ. -/
theorem cast_ok {source target : ResultType} {loc : Location} {u : Unit}
    (h : cast source target loc b = .ok (u, b')) :
    ∃ a t, source = some a ∧ target = some t ∧ b.Appends (castCode a t) b' ∧
      b'.labels = b.labels := by
  simp only [cast, state_bind_ok, state_lift_ok] at h
  obtain ⟨_, _, ⟨hcheck, rfl⟩, h⟩ := h
  cases source with
  | none => cases hcheck
  | some a =>
    cases target with
    | none => cases hcheck
    | some t =>
      refine ⟨a, t, rfl, rfl, ?_⟩
      simp only at h
      unfold castCode
      split at h
      · next hne =>
        rw [if_neg hne]
        exact emit_ok h
      · next heq =>
        rw [if_pos (Decidable.not_not.mp heq)]
        obtain ⟨_, rfl⟩ := state_pure_ok.mp h
        exact ⟨.refl _, rfl⟩

/-- Two labels are taken, one for the case that the relation holds and one for the end. -/
theorem signalToBool_ok {relation : Relation} {u : Unit}
    (h : signalToBool relation b = .ok (u, b')) :
    b.Appends (signalCode relation b.labels) b' ∧ b'.labels = b.labels + 2 := by
  simp only [signalToBool, state_bind_ok] at h
  obtain ⟨yes, b₁, h₁, done, b₂, h₂, _, b₃, h₃, _, b₄, h₄, _, b₅, h₅, _, b₆, h₆, _, b₇, h₇, h₈⟩ := h
  obtain ⟨rfl, a₁, l₁⟩ := freshLabel_ok h₁
  obtain ⟨rfl, a₂, l₂⟩ := freshLabel_ok h₂
  obtain ⟨a₃, l₃⟩ := emit_ok h₃
  obtain ⟨a₄, l₄⟩ := push_ok h₄
  obtain ⟨a₅, l₅⟩ := emit_ok h₅
  obtain ⟨a₆, l₆⟩ := mark_ok h₆
  obtain ⟨a₇, l₇⟩ := push_ok h₇
  obtain ⟨a₈, l₈⟩ := mark_ok h₈
  rw [l₁] at a₅ a₈
  refine ⟨?_, by omega⟩
  exact (((((((a₁.trans a₂).trans a₃).trans a₄).trans a₅).trans a₆).trans a₇).trans a₈)

theorem fatal_ok {message : String} {u : Unit} (h : fatal message b = .ok (u, b')) :
    b.Appends (fatalCode message) b' ∧ b'.labels = b.labels := by
  simp only [fatal, state_bind_ok] at h
  obtain ⟨_, b₁, h₁, _, b₂, h₂, h₃⟩ := h
  obtain ⟨a₁, l₁⟩ := emit_ok h₁
  obtain ⟨a₂, l₂⟩ := push_ok h₂
  obtain ⟨a₃, l₃⟩ := emit_ok h₃
  exact ⟨(a₁.trans a₂).trans a₃, l₃.trans (l₂.trans l₁)⟩

theorem drop_ok {t : ResultType} {u : Unit} (h : drop t b = .ok (u, b')) :
    b.Appends (dropCode t) b' ∧ b'.labels = b.labels := by
  cases t with
  | none =>
    obtain ⟨_, rfl⟩ := state_pure_ok.mp h
    exact ⟨.refl _, rfl⟩
  | some t => exact emit_ok h

end Lowering

/-! ## Expressions

The code refers to variables by slot. Since a name is bound only once in a function, code that is
generated under a scope can be described with all variables of the function, which `Scope.Within`
allows for. -/

/-- Every variable in scope is among those that code refers to. A name is bound once in a function,
so a scope is within every later scope of the same function. -/
def Scope.Within (scope : Scope) (vars : Variables) : Prop :=
  ∀ {name : String} {v : Variable}, scope.find? name = some v → vars name = some v

theorem FunctionTable.lookup_ok {fs : FunctionTable} {name : String} {loc : Location}
    {f : FunctionSig} (h : fs.lookup name loc = .ok f) : fs[name]? = some f := by
  unfold FunctionTable.lookup at h
  split at h
  · next g hg =>
    cases h
    exact hg
  · cases h

/-- A list of types is one of types with values if no value is missing. -/
theorem valueTypes_ok {ts : List ResultType} {loc : Location} {types : List ValueType} :
    ts.mapM (valueType · loc) = .ok types ↔ ts = types.map some := by
  simp only [except_mapM_ok, valueType_ok]
  induction ts generalizing types with
  | nil => cases types <;> simp
  | cons t ts ih => cases types <;> simp [ih]

/-- The signature of a function has its result and the types of its parameters. -/
theorem FunctionSig.signature_ok {f : FunctionSig} {sig : Signature} :
    f.signature = .ok sig ↔ sig.result = f.result ∧ f.params = sig.params.map some := by
  simp only [FunctionSig.signature, except_bind_ok, except_pure_ok, valueTypes_ok]
  constructor
  · rintro ⟨types, htypes, rfl⟩
    exact ⟨rfl, htypes⟩
  · rintro ⟨hresult, hparams⟩
    exact ⟨sig.params, hparams, by rw [← hresult]⟩

namespace Lowering

variable {s : Surroundings} {vars : Variables}

/-- Lowering the expression gives it its type and appends code for it. The scope stays what it was,
and so the type is the same before and after. -/
def Generates (s : Surroundings) (vars : Variables) (e : Expr) : Prop :=
  ∀ (b b' : Body) (t : ResultType), expr s e b = .ok (t, b') → b.scope.Within vars →
    Compile.typeOf s.functions b.scope e = .ok t ∧
      ∃ code, b.Appends code b' ∧ ExprCode s.functions vars e b.labels code t b'.labels

theorem Generates.cast {e : Expr} (hgen : Generates s vars e) {b b₁ b₂ : Body}
    {source target : ResultType} {loc : Location} {u : Unit} (he : expr s e b = .ok (source, b₁))
    (hc : Lowering.cast source target loc b₁ = .ok (u, b₂)) (hvars : b.scope.Within vars) :
    ∃ a t code, target = some t ∧ Compile.typeOf s.functions b.scope e = .ok (some a) ∧
      b.Appends (code ++ castCode a t) b₂ ∧
      ExprCode s.functions vars e b.labels code (some a) b₂.labels := by
  obtain ⟨htype, code, hcode, hexpr⟩ := hgen _ _ _ he hvars
  obtain ⟨a, t, rfl, ht, hconv, hlabels⟩ := cast_ok hc
  exact ⟨a, t, code, ht, htype, hcode.trans hconv, hlabels ▸ hexpr⟩

/-- Two operands, converted to the type that they have in common. The types that the generator looks
up beforehand are those that the operands turn out to have. -/
theorem Generates.operands {lhs rhs : Expr} (hl : Generates s vars lhs) (hr : Generates s vars rhs)
    {b b₁ b₂ b₃ b₄ : Body} {tl tr source source' : ResultType} {v : ValueType} {loc loc' : Location}
    {u u' : Unit} (htl : Compile.typeOf s.functions b.scope lhs = .ok tl)
    (htr : Compile.typeOf s.functions b.scope rhs = .ok tr) (hv : promote tl tr = some v)
    (hlhs : expr s lhs b = .ok (source, b₁))
    (hcl : Lowering.cast source (promote tl tr) loc b₁ = .ok (u, b₂))
    (hrhs : expr s rhs b₂ = .ok (source', b₃))
    (hcr : Lowering.cast source' (promote tl tr) loc' b₃ = .ok (u', b₄))
    (hvars : b.scope.Within vars) :
    ∃ a c left right, v = commonType a c ∧
      b.Appends ((left ++ castCode a v) ++ (right ++ castCode c v)) b₄ ∧
      ExprCode s.functions vars lhs b.labels left (some a) b₂.labels ∧
      ExprCode s.functions vars rhs b₂.labels right (some c) b₄.labels := by
  obtain ⟨a, t, left, ht, hta, hal, hgl⟩ := hl.cast hlhs hcl hvars
  obtain ⟨c, t', right, ht', htc, har, hgr⟩ := hr.cast hrhs hcr (hal.scope ▸ hvars)
  -- the left operand leaves the scope alone, so the right one still has the type found before it
  rw [hal.scope, htr] at htc
  rw [htl] at hta
  cases hta
  cases htc
  rw [hv] at ht ht'
  cases ht
  cases ht'
  rw [promote_some] at hv
  exact ⟨a, c, left, right, (Option.some.inj hv).symm, hal.trans har, hgl, hgr⟩

mutual

-- By recursion on the tree: each case runs the generator backwards, one step of its body at a time.
/-- The code of an expression, and the type that it was found to have. -/
theorem expr_code : ∀ e : Expr, Generates s vars e
  | .call loc name args, b, b', t, h, hvars => by
    simp only [expr, state_throw_bind, state_bind_ok, state_lift_ok, state_guard_ok] at h
    obtain ⟨f, _, ⟨hf, rfl⟩, hlen, _, b₁, hargs, sig, _, ⟨hsig, rfl⟩, _, b₂, hcall, h⟩ := h
    obtain ⟨rfl, rfl⟩ := state_pure_ok.mp h
    -- that there is a signature means that all parameters have types
    obtain ⟨hresult, hparams⟩ := FunctionSig.signature_ok.mp hsig
    rw [hparams, List.length_map] at hlen
    rw [hparams] at hargs
    obtain ⟨code, hcode, hgen⟩ := arguments_code args hargs hvars (Decidable.not_not.mp hlen)
    obtain ⟨hemit, hlabels⟩ := emit_ok hcall
    refine ⟨?_, _, hcode.trans hemit, ?_⟩
    · simp only [Compile.typeOf, hf, except_bind_ok, except_pure_ok]
      exact ⟨f, rfl, rfl⟩
    · rw [hlabels, ← hresult]
      exact .call (FunctionTable.lookup_ok hf) hsig hgen
  | .arith loc op lhs rhs, b, b', t, h, hvars => by
    simp only [expr, state_throw_bind, state_bind_ok, state_lift_ok, state_guard_ok] at h
    obtain ⟨tl, _, htl, tr, _, htr, v, _, ⟨hv, rfl⟩, hbool, _, _, hlhs, _, b₁, hcl, _, _, hrhs,
      _, b₂, hcr, _, b₃, hemit, h⟩ := h
    obtain ⟨rfl, rfl⟩ := state_pure_ok.mp h
    obtain ⟨htl', rfl⟩ := typeOf_ok htl
    obtain ⟨htr', rfl⟩ := typeOf_ok htr
    have hv' := valueType_ok.mp hv
    obtain ⟨a, c, left, right, hcommon, happ, hgl, hgr⟩ :=
      (expr_code lhs).operands (expr_code rhs) htl' htr' hv' hlhs hcl hrhs hcr hvars
    obtain ⟨hop, hlo⟩ := emit_ok hemit
    rw [hv']
    refine ⟨?_, _, happ.trans hop, ?_⟩
    · simp [Compile.typeOf, htl', htr', hv', bind, Except.bind, pure, Except.pure]
    · exact hlo ▸ .arith hgl hgr hcommon hbool
  | .shift loc kind lhs rhs, b, b', t, h, hvars => by
    simp only [expr, state_bind_ok] at h
    obtain ⟨tl, _, htl, _, _, hdiscard, _, _, hlhs, _, b₁, hcl, _, _, hrhs, _, b₂, hcr, _, b₃,
      hemit, _, b₄, hback, h⟩ := h
    obtain ⟨rfl, rfl⟩ := state_pure_ok.mp h
    obtain ⟨htl', rfl⟩ := typeOf_ok htl
    obtain ⟨_, hv⟩ := state_discard_ok.mp hdiscard
    obtain ⟨_, rfl⟩ := state_lift_ok.mp hv
    obtain ⟨a, t, left, ht, hta, hal, hgl⟩ := (expr_code lhs).cast hlhs hcl hvars
    obtain ⟨c, t', right, ht', _, har, hgr⟩ := (expr_code rhs).cast hrhs hcr (hal.scope ▸ hvars)
    obtain ⟨hop, hlo⟩ := emit_ok hemit
    -- the shift itself is done on integers, whatever the type of the left operand
    obtain ⟨i, t'', hi, ht'', hconv, hlc⟩ := cast_ok hback
    rw [htl'] at hta
    cases hta
    cases ht
    cases ht'
    cases hi
    cases ht''
    refine ⟨htl', _, ((hal.trans har).trans hop).trans hconv, ?_⟩
    rw [hlc, hlo]
    exact .shift hgl hgr
  | .comparison loc op lhs rhs, b, b', t, h, hvars => by
    simp only [expr, state_bind_ok, state_lift_ok] at h
    obtain ⟨tl, _, htl, tr, _, htr, v, _, ⟨hv, rfl⟩, _, _, hlhs, _, b₁, hcl, _, _, hrhs,
      _, b₂, hcr, _, b₃, hemit, _, b₄, hsignal, h⟩ := h
    obtain ⟨rfl, rfl⟩ := state_pure_ok.mp h
    obtain ⟨htl', rfl⟩ := typeOf_ok htl
    obtain ⟨htr', rfl⟩ := typeOf_ok htr
    obtain ⟨a, c, left, right, hcommon, happ, hgl, hgr⟩ :=
      (expr_code lhs).operands (expr_code rhs) htl' htr' (valueType_ok.mp hv) hlhs hcl hrhs hcr
        hvars
    obtain ⟨hop, hlo⟩ := emit_ok hemit
    obtain ⟨hsig, hls⟩ := signalToBool_ok hsignal
    -- the instruction in between takes no label
    rw [hlo] at hsig hls
    refine ⟨rfl, _, (happ.trans hop).trans hsig, ?_⟩
    exact hls ▸ .comparison hgl hgr hcommon
  | .variable loc name, b, b', t, h, hvars => by
    simp only [expr, state_bind_ok] at h
    obtain ⟨v, _, hv, _, _, hemit, h⟩ := h
    obtain ⟨rfl, rfl⟩ := state_pure_ok.mp h
    obtain ⟨hv', rfl⟩ := lookup_ok hv
    obtain ⟨ha, hl⟩ := emit_ok hemit
    refine ⟨?_, _, ha, ?_⟩
    · simp [Compile.typeOf, Scope.lookup, hv', bind, Except.bind, pure, Except.pure]
    · rw [hl]
      exact .variable (hvars hv')
  | .int loc n, b, b', t, h, hvars => by
    simp only [expr, state_bind_ok] at h
    obtain ⟨_, _, hpush, h⟩ := h
    obtain ⟨rfl, rfl⟩ := state_pure_ok.mp h
    obtain ⟨ha, hl⟩ := push_ok hpush
    exact ⟨rfl, _, ha, hl ▸ .int⟩
  | .double loc bits, b, b', t, h, hvars => by
    simp only [expr, state_bind_ok] at h
    obtain ⟨_, _, hpush, h⟩ := h
    obtain ⟨rfl, rfl⟩ := state_pure_ok.mp h
    obtain ⟨ha, hl⟩ := push_ok hpush
    exact ⟨rfl, _, ha, hl ▸ .double⟩

/-- The arguments of a call, with as many parameters as arguments. -/
theorem arguments_code : ∀ (args : List Expr) {types : List ValueType} {b b' : Body} {u : Unit},
    arguments s args (types.map some) b = .ok (u, b') → b.scope.Within vars →
      args.length = types.length →
      ∃ code, b.Appends code b' ∧ ArgsCode s.functions vars args types b.labels code b'.labels
  | [], [], b, b', u, h, hvars, hlen => by
    simp only [arguments] at h
    obtain ⟨_, rfl⟩ := state_pure_ok.mp h
    exact ⟨[], .refl _, .nil⟩
  | [], _ :: _, b, b', u, h, hvars, hlen => by cases hlen
  | _ :: _, [], b, b', u, h, hvars, hlen => by cases hlen
  | e :: rest, t :: types, b, b', u, h, hvars, hlen => by
    simp only [List.map_cons, arguments, state_bind_ok] at h
    obtain ⟨_, _, he, _, b₁, hcast, hrest⟩ := h
    obtain ⟨a, t', code, ht, _, hcode, hgen⟩ := (expr_code e).cast he hcast hvars
    cases ht
    obtain ⟨tail, htail, hargs⟩ :=
      arguments_code rest hrest (hcode.scope ▸ hvars) (Nat.succ.inj hlen)
    exact ⟨_, hcode.trans htail, .cons hgen hargs⟩

end

end Lowering

end TypedStack.Compile
