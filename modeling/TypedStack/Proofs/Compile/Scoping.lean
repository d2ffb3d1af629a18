import TypedStack.Proofs.Compile.Modules
import TypedStack.Proofs.Compile.WellFormed
/-!
# Expressions that are lowered

The variables that a scope shows (`Body.Shows`) are those that the rules of `WellFormed` speak of.
An expression is lowered exactly if it keeps the rules with these variables, and then has the type
that they give it (`Lowering.expr_hasType`, `Lowering.expr_lowers`).

One direction goes by way of the code: what stands in the relation `ExprCode` to a tree keeps the
rules, so the generator need not be looked at again. The other direction has to run the generator,
and finds a state for each of its steps.
-/

set_option autoImplicit false

namespace TypedStack.Compile

open Assembly Evaluation

/-! ## Scopes

The rules know a list of declarations and the list of functions. The generator has a scope, which
finds variables by name, and a table of functions. -/

/-- Arithmetic is refused for two truth values, and this is how the generator finds out. -/
theorem commonType_eq_bool {a b : ValueType} :
    commonType a b = .bool ↔ a = .bool ∧ b = .bool := by
  cases a <;> cases b <;> decide

/-- A function being compiled has some variables in scope. Their slots are of no concern to the
rules. -/
structure Body.Shows (b : Body) (vars : Declarations) : Prop where
  ordered : b.scope.Ordered
  declarations : b.scope.declarations = vars

namespace Body

variable {b b' : Body} {vars : Declarations}

theorem Shows.of_scope (hb : b.Shows vars) (h : b'.scope = b.scope) : b'.Shows vars := by
  constructor
  · rw [h]
    exact hb.ordered
  · rw [h]
    exact hb.declarations

/-- Code that is written changes nothing about the variables in scope. -/
theorem Appends.shows {code : List Instr} (h : b.Appends code b') (hb : b.Shows vars) :
    b'.Shows vars :=
  hb.of_scope h.scope

/-- A step that succeeds and leaves the scope alone. -/
theorem Shows.runs {α : Type} {a : α} (hb : b.Shows vars) (x : Lowering α)
    (h : x b = .ok (a, b')) (hscope : b'.scope = b.scope) :
    ∃ b', x b = .ok (a, b') ∧ b'.Shows vars :=
  ⟨b', h, hb.of_scope hscope⟩

/-- What is found in the scope has been declared, with the type that it is found with. -/
theorem Shows.declared (hb : b.Shows vars) {name : String} {v : Variable}
    (hv : b.scope.find? name = some v) : (name, v.type) ∈ vars := by
  rw [← hb.declarations]
  exact hb.ordered.declared hv

theorem Shows.find (hb : b.Shows vars) {name : String} {t : ValueType} (ht : (name, t) ∈ vars) :
    ∃ v, b.scope.find? name = some v ∧ v.type = t := by
  rw [← hb.declarations] at ht
  exact hb.ordered.find ht

end Body

/-- A table lists some functions, and all of their parameters have values. A function with a
parameter without a value is not lowered itself, so nothing is lost by asking this of a whole
module. -/
structure Offers (fs : FunctionTable) (functions : List Function) : Prop where
  table : Lists fs functions
  typed : ∀ f ∈ functions, ∀ p ∈ f.params, p.type ≠ none

/-- Parameters that all have values are those of their declarations. -/
theorem params_eq {params : List Param} (h : ∀ p ∈ params, p.type ≠ none) :
    params = (params.filterMap Param.declaration?).map paramOf := by
  induction params with
  | nil => rfl
  | cons p params ih =>
    obtain ⟨name, type⟩ := p
    cases type with
    | none => exact absurd rfl (h _ List.mem_cons_self)
    | some t =>
      have htail := ih fun q hq => h q (List.mem_cons_of_mem _ hq)
      simpa [Param.declaration?, paramOf] using htail

theorem params_types {params : List Param} (h : ∀ p ∈ params, p.type ≠ none) :
    ∃ types : List ValueType, params.map (·.type) = types.map some := by
  refine ⟨(params.filterMap Param.declaration?).map Prod.snd, ?_⟩
  rw [List.map_map]
  conv_lhs => rw [params_eq h]
  rw [List.map_map]
  rfl

/-! ## Expressions

The code of an expression carries the types of all its parts, which are what the rules ask for. -/

section

variable {functions : List Function} {vars : Declarations}

mutual

/-- A tree with code keeps the rules, and has the type that its code leaves. -/
theorem ExprCode.hasType {fs : FunctionTable} {reach : Variables} (hfs : Lists fs functions)
    (hvars : ∀ {name : String} {v : Variable}, reach name = some v → (name, v.type) ∈ vars) :
    ∀ {e : Expr} {lo hi : Nat} {code : List Instr} {t : ResultType},
      ExprCode fs reach e lo code t hi → e.HasType functions vars t
  | _, _, _, _, _, .call hf hsig hargs => by
    obtain ⟨g, hg, hname, rfl⟩ := hfs.entry.mp hf
    obtain ⟨hresult, hparams⟩ := FunctionSig.signature_ok.mp hsig
    obtain ⟨hvalues, hlength⟩ := hargs.haveValues hfs hvars
    rw [hresult]
    refine .call hg hname ?_ hvalues
    have hcount := congrArg List.length hparams
    simp only [FunctionSig.ofFunction, List.length_map] at hcount
    omega
  | _, _, _, _, _, .arith hl hr ht hb => by
    rw [ht, ne_eq, commonType_eq_bool] at hb
    rw [ht]
    exact .arith (hl.hasType hfs hvars) (hr.hasType hfs hvars) hb
  | _, _, _, _, _, .shift hl hr => .shift (hl.hasType hfs hvars) (hr.hasType hfs hvars)
  | _, _, _, _, _, .comparison hl hr _ =>
    .comparison (hl.hasType hfs hvars) (hr.hasType hfs hvars)
  | _, _, _, _, _, .variable hv => .variable (hvars hv)
  | _, _, _, _, _, .int => .int
  | _, _, _, _, _, .double => .double

/-- Arguments with code have values, and there are as many as parameters. -/
theorem ArgsCode.haveValues {fs : FunctionTable} {reach : Variables} (hfs : Lists fs functions)
    (hvars : ∀ {name : String} {v : Variable}, reach name = some v → (name, v.type) ∈ vars) :
    ∀ {args : List Expr} {types : List ValueType} {lo hi : Nat} {code : List Instr},
      ArgsCode fs reach args types lo code hi →
        Expr.HaveValues functions vars args ∧ args.length = types.length
  | _, _, _, _, _, .nil => ⟨.nil, rfl⟩
  | _, _, _, _, _, .cons he hrest => by
    obtain ⟨hvalues, hlength⟩ := hrest.haveValues hfs hvars
    exact ⟨.cons (he.hasType hfs hvars) hvalues, congrArg Nat.succ hlength⟩

end

end

namespace Lowering

variable {s : Surroundings} {functions : List Function} {vars : Declarations} {b b' : Body}

/-- An expression that is lowered keeps the rules. -/
theorem expr_hasType (hs : Offers s.functions functions) (hb : b.Shows vars) {e : Expr}
    {t : ResultType} (h : expr s e b = .ok (t, b')) :
    e.HasType functions vars t ∧ b'.Shows vars := by
  obtain ⟨-, code, happ, hgen⟩ := expr_generates h
  have hcode : ExprCode s.functions (fun name => b.scope.find? name) e b.labels code t
      b'.labels := hgen fun hv => hv
  exact ⟨hcode.hasType hs.table hb.declared, happ.shows hb⟩

theorem exprAs_hasValue (hs : Offers s.functions functions) (hb : b.Shows vars) {e : Expr}
    {target : ResultType} {u : Unit} (h : exprAs s e target b = .ok (u, b')) :
    e.HasValue functions vars ∧ b'.Shows vars := by
  simp only [exprAs, state_bind_ok] at h
  obtain ⟨t, mid, he, hcast⟩ := h
  obtain ⟨htype, hmid⟩ := expr_hasType hs hb he
  obtain ⟨a, _, rfl, -, happ, -⟩ := cast_ok hcast
  exact ⟨⟨a, htype⟩, happ.shows hmid⟩

theorem lookup_eq {name : String} {loc : Location} {v : Variable}
    (h : b.scope.find? name = some v) : lookup name loc b = .ok (v, b) := by
  simp only [lookup, state_bind_ok, state_get_ok, state_lift_ok]
  exact ⟨b, b, ⟨rfl, rfl⟩, by rw [Scope.lookup, h], rfl⟩

theorem cast_eq (a t : ValueType) (loc : Location) (hb : b.Shows vars) :
    ∃ b', cast (some a) (some t) loc b = .ok ((), b') ∧ b'.Shows vars := by
  simp only [cast, state_bind_ok, state_lift_ok]
  by_cases h : a = t
  · exact ⟨b, ⟨(), b, ⟨rfl, rfl⟩, by rw [if_neg (not_not.mpr h)]; rfl⟩, hb⟩
  · obtain ⟨b', hrun, hb'⟩ := hb.runs (emit (.cast a t)) rfl rfl
    exact ⟨b', ⟨(), b, ⟨rfl, rfl⟩, by rw [if_pos h]; exact hrun⟩, hb'⟩

/-- The type of an expression that keeps the rules is found without lowering it. The generator asks
for it before it lowers the operands of an operation. -/
theorem typeOf_of_hasType (hs : Offers s.functions functions) (hb : b.Shows vars) (e : Expr)
    {t : ResultType} (h : e.HasType functions vars t) :
    Compile.typeOf s.functions b.scope e = .ok t := by
  cases h with
  | call hf hname _ _ =>
    have hfound := hs.table.entry.mpr ⟨_, hf, hname, rfl⟩
    simp only [Compile.typeOf, FunctionTable.lookup, hfound]
    rfl
  | @arith _ _ lhs rhs _ _ hl hr _ =>
    simp only [Compile.typeOf, typeOf_of_hasType hs hb lhs hl, typeOf_of_hasType hs hb rhs hr,
      except_ok_bind, promote_some]
    rfl
  | @shift _ _ lhs _ _ _ hl _ => exact typeOf_of_hasType hs hb lhs hl
  | comparison _ _ => rfl
  | «variable» h =>
    obtain ⟨v, hv, rfl⟩ := hb.find h
    simp only [Compile.typeOf, Scope.lookup, hv]
    rfl
  | int => rfl
  | double => rfl

theorem typeOf_eq (hs : Offers s.functions functions) (hb : b.Shows vars) {e : Expr}
    {t : ResultType} (h : e.HasType functions vars t) : typeOf s e b = .ok (t, b) := by
  simp only [typeOf, state_bind_ok, state_get_ok, state_lift_ok]
  exact ⟨b, b, ⟨rfl, rfl⟩, typeOf_of_hasType hs hb e h, rfl⟩

/-- An expression is lowered wherever some variables are in scope, whatever was written before. -/
def Lowers (s : Surroundings) (vars : Declarations) (e : Expr) (t : ResultType) : Prop :=
  ∀ b : Body, b.Shows vars → ∃ b', expr s e b = .ok (t, b')

/-- The value of the expression is then converted, and the variables in scope are still the same. -/
theorem Lowers.cast (hs : Offers s.functions functions) {e : Expr} {a : ValueType}
    (h : Lowers s vars e (some a)) (t : ValueType) (loc : Location) (hb : b.Shows vars) :
    ∃ mid b', expr s e b = .ok (some a, mid) ∧
      Lowering.cast (some a) (some t) loc mid = .ok ((), b') ∧ b'.Shows vars := by
  obtain ⟨mid, hmid⟩ := h b hb
  obtain ⟨b', hcast, hb'⟩ := cast_eq a t loc (expr_hasType hs hb hmid).2
  exact ⟨mid, b', hmid, hcast, hb'⟩

mutual

-- By recursion on the tree: the steps of the generator are put together in the order in which it
-- takes them, and those that only write instructions never fail.
/-- An expression that keeps the rules is lowered. -/
theorem expr_lowers (hs : Offers s.functions functions) :
    ∀ (e : Expr) {t : ResultType}, e.HasType functions vars t → Lowers s vars e t
  | .call loc name args, _, .call hf hname hlength hargs, b, hb => by
    have hfound := hs.table.entry.mpr ⟨_, hf, hname, rfl⟩
    obtain ⟨types, htypes⟩ := params_types (hs.typed _ hf)
    have hcount : args.length = types.length := by
      have h := congrArg List.length htypes
      simp only [List.length_map] at h
      omega
    obtain ⟨b₁, hrun⟩ := arguments_lower hs args hargs hcount hb
    -- the function is found, the counts agree, and the parameters have a signature
    simp only [expr, state_throw_bind, state_bind_ok, state_lift_ok, state_guard_ok]
    refine ⟨_, _, b, ⟨by rw [FunctionTable.lookup, hfound], rfl⟩, ?_, (), b₁, ?_, ⟨types, _⟩, b₁,
      ⟨FunctionSig.signature_ok.mpr ⟨rfl, htypes⟩, rfl⟩, (), _, rfl, rfl⟩
    · simp [FunctionSig.ofFunction, hlength]
    · rw [FunctionSig.ofFunction, htypes]
      exact hrun
  | .arith loc op lhs rhs, _, .arith (a := a) (b := c) hl hr hbool, b, hb => by
    obtain ⟨b₁, b₂, hl₁, hl₂, hb₂⟩ := (expr_lowers hs lhs hl).cast hs (commonType a c) lhs.loc hb
    obtain ⟨b₃, b₄, hr₁, hr₂, hb₄⟩ := (expr_lowers hs rhs hr).cast hs (commonType a c) rhs.loc hb₂
    rw [← promote_some] at hl₂ hr₂ ⊢
    simp only [expr, state_throw_bind, state_bind_ok, state_lift_ok, state_guard_ok]
    exact ⟨_, _, b, typeOf_eq hs hb hl, _, b, typeOf_eq hs hb hr, commonType a c, b,
      ⟨valueType_ok.mpr (promote_some a c), rfl⟩, mt commonType_eq_bool.mp hbool, _, b₁, hl₁, (),
      b₂, hl₂, _, b₃, hr₁, (), b₄, hr₂, (), _, rfl, rfl⟩
  | .shift loc kind lhs rhs, _, .shift (a := a) hl hr, b, hb => by
    obtain ⟨b₁, b₂, hl₁, hl₂, hb₂⟩ := (expr_lowers hs lhs hl).cast hs .int lhs.loc hb
    obtain ⟨b₃, b₄, hr₁, hr₂, hb₄⟩ := (expr_lowers hs rhs hr).cast hs .int rhs.loc hb₂
    -- the result of the shift is an integer, and is converted back to the type on the left
    obtain ⟨b₅, hshift, hb₅⟩ := hb₄.runs (emit (.shift kind)) rfl rfl
    obtain ⟨b₆, hback, -⟩ := cast_eq .int a loc hb₅
    simp only [expr, state_bind_ok]
    exact ⟨_, _, b, typeOf_eq hs hb hl, ⟨⟩, b,
      state_discard_ok.mpr ⟨a, state_lift_ok.mpr ⟨valueType_ok.mpr rfl, rfl⟩⟩, _, b₁, hl₁, (), b₂,
      hl₂, _, b₃, hr₁, (), b₄, hr₂, (), b₅, hshift, (), b₆, hback, rfl⟩
  | .comparison loc op lhs rhs, _, .comparison (a := a) (b := c) hl hr, b, hb => by
    obtain ⟨b₁, b₂, hl₁, hl₂, hb₂⟩ := (expr_lowers hs lhs hl).cast hs (commonType a c) lhs.loc hb
    obtain ⟨b₃, b₄, hr₁, hr₂, hb₄⟩ := (expr_lowers hs rhs hr).cast hs (commonType a c) rhs.loc hb₂
    rw [← promote_some] at hl₂ hr₂
    simp only [expr, state_bind_ok, state_lift_ok]
    exact ⟨_, _, b, typeOf_eq hs hb hl, _, b, typeOf_eq hs hb hr, commonType a c, b,
      ⟨valueType_ok.mpr (promote_some a c), rfl⟩, _, b₁, hl₁, (), b₂, hl₂, _, b₃, hr₁, (), b₄, hr₂,
      (), _, rfl, (), _, rfl, rfl⟩
  | .variable loc name, _, .variable h, b, hb => by
    obtain ⟨v, hv, rfl⟩ := hb.find h
    simp only [expr, state_bind_ok]
    exact ⟨_, v, b, lookup_eq hv, (), _, rfl, rfl⟩
  | .int loc n, _, .int, b, _ => ⟨_, rfl⟩
  | .double loc bits, _, .double, b, _ => ⟨_, rfl⟩

/-- Arguments that all have values go to parameters of any types, if there are as many. -/
theorem arguments_lower (hs : Offers s.functions functions) :
    ∀ (args : List Expr) {types : List ValueType} {b : Body},
      Expr.HaveValues functions vars args → args.length = types.length → b.Shows vars →
      ∃ b', arguments s args (types.map some) b = .ok ((), b')
  | [], [], b, _, _, _ => ⟨b, rfl⟩
  | [], _ :: _, b, _, hlength, _ => by cases hlength
  | _ :: _, [], b, _, hlength, _ => by cases hlength
  | e :: rest, t :: types, b, .cons he hrest, hlength, hb => by
    obtain ⟨b₁, b₂, he₁, he₂, hb₂⟩ := (expr_lowers hs e he).cast hs t e.loc hb
    obtain ⟨b₃, hrun⟩ := arguments_lower hs rest hrest (Nat.succ.inj hlength) hb₂
    simp only [List.map_cons, arguments, state_bind_ok]
    exact ⟨b₃, _, b₁, he₁, (), b₂, he₂, hrun⟩

end

theorem exprAs_lowers (hs : Offers s.functions functions) {e : Expr} (h : e.HasValue functions vars)
    (t : ValueType) (hb : b.Shows vars) :
    ∃ b', exprAs s e (some t) b = .ok ((), b') ∧ b'.Shows vars := by
  obtain ⟨a, ha⟩ := h
  obtain ⟨mid, b', hmid, hcast, hb'⟩ := (expr_lowers hs e ha).cast hs t e.loc hb
  refine ⟨b', ?_, hb'⟩
  simp only [exprAs, state_bind_ok]
  exact ⟨_, mid, hmid, hcast⟩

end Lowering

end TypedStack.Compile
