import TypedStack.Proofs.Compile.Places
import TypedStack.Proofs.Compile.Scoping
/-!
# Expressions that are not lowered

The generator looks at the same subtree several times, first for its type and then for its code, and
each look passes a place of its own to the error that it may end with. Here the failures of single
steps are taken apart, and that of an expression is traced to one of its nodes, which lies at the
place of the error and breaks the rule (`Lowering.expr_blames`).

Which node that is depends on what the value is needed for (`Use`). If an operand of an arithmetic
operation or of a comparison has no value, the operation is blamed, since it is when the two types
are brought to one that this comes out. An operand of a shift, an argument or an assigned value is
blamed itself.
-/

set_option autoImplicit false

namespace TypedStack.Compile

open Assembly Evaluation

/-! ## Single steps that fail

Most steps only write code and never fail. The lemmas that say so are for `simp`, which removes
these steps from the failure of a sequence and leaves those that are to be looked at. -/

/-- A function is not found if it is not in the table. The place is that of the call. -/
theorem FunctionTable.lookup_fails {fs : FunctionTable} {name : String} {loc : Location}
    {err : CompileError} :
    fs.lookup name loc = .error err ↔
      fs[name]? = none ∧ err = .broken loc (.undefinedFunction name) := by
  unfold FunctionTable.lookup
  cases fs[name]? with
  | none => simp [eq_comm]
  | some f => simp

namespace Lowering

variable {b : Body} {err : CompileError}

@[simp] theorem emit_fails {o : SymbolicOp} : emit o b = .error err ↔ False := state_modify_fails

@[simp] theorem mark_fails {l : Label} : mark l b = .error err ↔ False := state_modify_fails

@[simp] theorem setLine_fails {line : UInt32} : setLine line b = .error err ↔ False :=
  state_modify_fails

@[simp] theorem freshLabel_fails : freshLabel b = .error err ↔ False := state_modifyGet_fails

@[simp] theorem push_fails {v : Value} : push v b = .error err ↔ False := emit_fails

@[simp] theorem addSlot_fails {t : ValueType} : addSlot t b = .error err ↔ False :=
  state_modifyGet_fails

theorem bindName_fails {name : String} {type : ResultType} {loc : Location} :
    bindName name type loc b = .error err ↔ b.scope.next name type false loc = .error err := by
  rw [bindName_run, except_bind_fails]
  simp

@[simp] theorem signalToBool_fails {relation : Relation} :
    signalToBool relation b = .error err ↔ False := by
  simp [signalToBool, state_bind_fails]

@[simp] theorem fatal_fails {message : String} : fatal message b = .error err ↔ False := by
  simp [fatal, state_bind_fails]

@[simp] theorem drop_fails {t : ResultType} : drop t b = .error err ↔ False := by
  cases t with
  | none => exact state_pure_fails
  | some t => exact emit_fails

theorem lookup_fails {name : String} {loc : Location} :
    lookup name loc b = .error err ↔
      b.scope.find? name = none ∧ err = .broken loc (.undefinedVariable name) := by
  rw [← Scope.lookup_fails]
  simp [lookup, state_bind_fails, state_get_fails, state_get_ok, state_lift_fails]

theorem typeOf_fails {s : Surroundings} {e : Expr} :
    typeOf s e b = .error err ↔ Compile.typeOf s.functions b.scope e = .error err := by
  simp [typeOf, state_bind_fails, state_get_fails, state_get_ok, state_lift_fails]

theorem checkCast_fails {source target : ResultType} {loc : Location} :
    checkCast source target loc = .error err ↔
      (source = none ∨ target = none) ∧ err = .broken loc .voidValueUsed := by
  cases source <;> cases target <;> simp [checkCast, eq_comm]

/-- A conversion fails if there is no value, or none is wanted. Between types with values it never
does, whichever they are. -/
theorem cast_fails {source target : ResultType} {loc : Location} :
    cast source target loc b = .error err ↔
      (source = none ∨ target = none) ∧ err = .broken loc .voidValueUsed := by
  rw [← checkCast_fails]
  simp only [cast, state_bind_fails, state_lift_fails, state_lift_ok]
  constructor
  · rintro (h | ⟨_, _, ⟨hcheck, rfl⟩, h⟩)
    · exact h
    · -- the conversion itself cannot fail
      cases source with
      | none => cases hcheck
      | some a =>
        cases target with
        | none => cases hcheck
        | some t => by_cases heq : a = t <;> simp [heq, state_pure_fails] at h
  · exact .inl

end Lowering

/-! ## Expressions

Before code is written for two operands, their types are looked up. A look for a type visits fewer
nodes than lowering, and checks fewer rules. Both are traced to nodes on their own. -/

theorem promote_eq (a b : ResultType) : promote a b = Option.map₂ commonType a b := by
  cases a with
  | none => rfl
  | some a =>
    cases b with
    | none => rfl
    | some b => exact promote_some a b

/-- Where two operands have no type in common, one of them has no value. -/
theorem promote_eq_none {a b : ResultType} (h : promote a b = none) : a = none ∨ b = none := by
  rw [promote_eq] at h
  exact Option.map₂_eq_none_iff.mp h

/-- Only two truth values have a truth value for their common type. -/
theorem promote_eq_bool {a b : ResultType} (h : promote a b = some .bool) :
    a = some .bool ∧ b = some .bool := by
  rw [promote_eq] at h
  obtain ⟨x, y, hx, hy, hcommon⟩ := Option.map₂_eq_some_iff.mp h
  obtain ⟨rfl, rfl⟩ := commonType_eq_bool.mp hcommon
  exact ⟨hx, hy⟩

/-- One of some nodes lies at a place and breaks a rule. The nodes are listed from the outside in,
and all of them see the same declarations, since an expression declares nothing. -/
def Faulty (functions : List Function) (vars : Declarations) (nodes : List Node) (loc : Location)
    (rule : Violation) : Prop :=
  ∃ node ∈ nodes, node.loc = loc ∧ node.Breaks functions vars rule

section

variable {functions : List Function} {vars : Declarations} {fs : FunctionTable} {loc : Location}
  {rule : Violation}

namespace Faulty

theorem mono {nodes nodes' : List Node} (h : Faulty functions vars nodes loc rule)
    (hsub : nodes ⊆ nodes') : Faulty functions vars nodes' loc rule := by
  obtain ⟨node, hnode, hloc, hbreaks⟩ := h
  exact ⟨node, hsub hnode, hloc, hbreaks⟩

theorem self {e : Expr} {use : Use} (h : (Node.expr e use).Breaks functions vars rule) :
    Faulty functions vars (e.nodes use) e.loc rule :=
  ⟨_, List.mem_cons_self, rfl, h⟩

/-- A value that has to be there is missing, and the expression that should give it is to blame. -/
theorem void {e : Expr} (h : e.Gives functions vars none) :
    Faulty functions vars (e.nodes .value) e.loc .voidValueUsed :=
  .self (.voidValue h)

theorem inside {e : Expr} {use : Use} {nodes : List Node}
    (h : Faulty functions vars nodes loc rule) (hsub : nodes ⊆ e.inner) :
    Faulty functions vars (e.nodes use) loc rule :=
  h.mono (List.subset_cons_of_subset _ hsub)

end Faulty

/-- A name that is not in the table is that of no function. -/
theorem Lists.missing (h : Lists fs functions) {name : String} (hnone : fs[name]? = none) :
    ∀ f ∈ functions, f.name ≠ name := by
  intro f hf hname
  rw [h.entry.mpr ⟨f, hf, hname, rfl⟩] at hnone
  cases hnone

/-- The type that is looked up is what the expression gives. It depends on the declarations only,
and not on the slots that variables have. -/
theorem typeOf_gives (hfs : Lists fs functions) {scope : Scope} (hscope : scope.Ordered) :
    ∀ (e : Expr) {t : ResultType}, Compile.typeOf fs scope e = .ok t →
      e.Gives functions scope.declarations t
  | .call loc name args, t, h => by
    simp only [Compile.typeOf, except_bind_ok, except_pure_ok] at h
    obtain ⟨sig, hsig, rfl⟩ := h
    obtain ⟨f, hf, hname, rfl⟩ := hfs.entry.mp (FunctionTable.lookup_ok hsig)
    exact .call hf hname
  | .arith loc op lhs rhs, t, h => by
    simp only [Compile.typeOf, except_bind_ok, except_pure_ok] at h
    obtain ⟨a, ha, b, hb, rfl⟩ := h
    rw [promote_eq]
    exact .arith (typeOf_gives hfs hscope lhs ha) (typeOf_gives hfs hscope rhs hb)
  | .shift loc kind lhs rhs, t, h => .shift (typeOf_gives hfs hscope lhs h)
  | .comparison loc op lhs rhs, t, h => by
    cases h
    exact .comparison
  | .variable loc name, t, h => by
    simp only [Compile.typeOf, except_bind_ok, except_pure_ok] at h
    obtain ⟨v, hv, rfl⟩ := h
    exact .variable (hscope.declared (Scope.lookup_ok.mp hv))
  | .int loc n, t, h => by
    cases h
    exact .int
  | .double loc bits, t, h => by
    cases h
    exact .double

/-- A type that is not found is missed at a variable or a call that has no declaration. No other
rule is checked on the way. -/
theorem typeOf_faulty (hfs : Lists fs functions) {scope : Scope} (hscope : scope.Ordered) :
    ∀ (e : Expr) (use : Use), Compile.typeOf fs scope e = .error (.broken loc rule) →
      Faulty functions scope.declarations (e.nodes use) loc rule
  | .call place name args, use, h => by
    simp only [Compile.typeOf, except_bind_fails, FunctionTable.lookup_fails] at h
    rcases h with ⟨hnone, heq⟩ | ⟨sig, -, hpure⟩
    · cases heq
      exact .self (.undefinedFunction (hfs.missing hnone))
    · cases hpure
  | .arith place op lhs rhs, use, h => by
    simp only [Compile.typeOf, except_bind_fails] at h
    rcases h with hl | ⟨a, -, hr | ⟨b, -, hpure⟩⟩
    · exact (typeOf_faulty hfs hscope lhs .operand hl).inside (List.subset_append_left _ _)
    · exact (typeOf_faulty hfs hscope rhs .operand hr).inside (List.subset_append_right _ _)
    · cases hpure
  | .shift place kind lhs rhs, use, h =>
    (typeOf_faulty hfs hscope lhs .value h).inside (List.subset_append_left _ _)
  | .comparison place op lhs rhs, use, h => by cases h
  | .variable place name, use, h => by
    simp only [Compile.typeOf, except_bind_fails, Scope.lookup_fails] at h
    rcases h with ⟨hnone, heq⟩ | ⟨v, -, hpure⟩
    · cases heq
      exact .self (.undefinedVariable rfl (hscope.new_iff.mp hnone))
    · cases hpure
  | .int place n, use, h => by cases h
  | .double place bits, use, h => by cases h

end

namespace Lowering

variable {s : Surroundings} {functions : List Function} {vars : Declarations} {b : Body}
  {loc : Location} {rule : Violation}

/-- In terms of the function being compiled, where the declarations are those that its scope
shows. -/
theorem typeOf_gives (hfs : Lists s.functions functions) (hb : b.Shows vars) {e : Expr}
    {t : ResultType} (h : Compile.typeOf s.functions b.scope e = .ok t) :
    e.Gives functions vars t :=
  hb.declarations ▸ Compile.typeOf_gives hfs hb.ordered e h

theorem typeOf_faulty (hfs : Lists s.functions functions) (hb : b.Shows vars) {e : Expr} (use : Use)
    (h : Compile.typeOf s.functions b.scope e = .error (.broken loc rule)) :
    Faulty functions vars (e.nodes use) loc rule :=
  hb.declarations ▸ Compile.typeOf_faulty hfs hb.ordered e use h

/-- If an expression is not lowered, one of its nodes is to blame, whatever its value is needed
for. -/
def Blames (s : Surroundings) (functions : List Function) (e : Expr) : Prop :=
  ∀ {vars : Declarations} {b : Body} {loc : Location} {rule : Violation} (use : Use),
    b.Shows vars → expr s e b = .error (.broken loc rule) →
      Faulty functions vars (e.nodes use) loc rule

/-- The types of two operands are looked up. If this fails, or what follows it does, a node of one
of the operands is to blame, or one of them has no value, or it is what follows that fails. -/
theorem types_fail (hfs : Lists s.functions functions) (hb : b.Shows vars) {lhs rhs : Expr}
    {place : Location} {k : ResultType → ResultType → ValueType → Lowering ResultType}
    (h : (do
      let tl ← typeOf s lhs
      let tr ← typeOf s rhs
      let v ← liftM (valueType (promote tl tr) place)
      k tl tr v) b = .error (.broken loc rule)) :
    Faulty functions vars (lhs.nodes .operand ++ rhs.nodes .operand) loc rule ∨
    (loc = place ∧ rule = .voidValueUsed ∧
      (lhs.Gives functions vars none ∨ rhs.Gives functions vars none)) ∨
    ∃ tl tr v, Compile.typeOf s.functions b.scope lhs = .ok tl ∧
      Compile.typeOf s.functions b.scope rhs = .ok tr ∧ promote tl tr = some v ∧
      k tl tr v b = .error (.broken loc rule) := by
  simp only [state_bind_fails, typeOf_fails, state_lift_fails, valueType_fails] at h
  rcases h with hl | ⟨tl, _, hlookup, h⟩
  · exact .inl ((typeOf_faulty hfs hb .operand hl).mono (List.subset_append_left _ _))
  obtain ⟨htl, rfl⟩ := typeOf_ok hlookup
  rcases h with hr | ⟨tr, _, hlookup', h⟩
  · exact .inl ((typeOf_faulty hfs hb .operand hr).mono (List.subset_append_right _ _))
  obtain ⟨htr, rfl⟩ := typeOf_ok hlookup'
  rcases h with ⟨hnone, heq⟩ | ⟨v, _, hlift, h⟩
  · cases heq
    refine .inr (.inl ⟨rfl, rfl, ?_⟩)
    rcases promote_eq_none hnone with rfl | rfl
    · exact .inl (typeOf_gives hfs hb htl)
    · exact .inr (typeOf_gives hfs hb htr)
  obtain ⟨hv, rfl⟩ := state_lift_ok.mp hlift
  exact .inr (.inr ⟨tl, tr, v, htl, htr, valueType_ok.mp hv, h⟩)

/-- Two operands are converted to a type, and what follows does not fail. If this does, a node of
one of them is to blame, or one of them has no value. -/
theorem operands_fail {lhs rhs : Expr} (hl : Blames s functions lhs) (hr : Blames s functions rhs)
    (hb : b.Shows vars) {t : ValueType} {k : Lowering ResultType}
    (hk : ∀ b', k b' ≠ .error (.broken loc rule))
    (h : (do
      cast (← expr s lhs) (some t) lhs.loc
      cast (← expr s rhs) (some t) rhs.loc
      k) b = .error (.broken loc rule)) :
    (∀ use, Faulty functions vars (lhs.nodes use) loc rule) ∨
    (∀ use, Faulty functions vars (rhs.nodes use) loc rule) ∨
    rule = .voidValueUsed ∧
      (loc = lhs.loc ∧ Compile.typeOf s.functions b.scope lhs = .ok none ∨
        loc = rhs.loc ∧ Compile.typeOf s.functions b.scope rhs = .ok none) := by
  simp only [state_bind_fails, cast_fails] at h
  rcases h with hlhs | ⟨tl, b₁, hlhs, ⟨hvoid, heq⟩ | ⟨_, b₂, hcl, h⟩⟩
  · exact .inl fun use => hl use hb hlhs
  · cases heq
    obtain ⟨htl, -⟩ := expr_generates hlhs
    rw [hvoid.resolve_right (by simp)] at htl
    exact .inr (.inr ⟨rfl, .inl ⟨rfl, htl⟩⟩)
  · obtain ⟨-, code, ha, -⟩ := expr_generates hlhs
    obtain ⟨_, _, _, _, ha', _⟩ := cast_ok hcl
    have hscope : b₂.scope = b.scope := (ha.trans ha').scope
    rcases h with hrhs | ⟨tr, b₃, hrhs, ⟨hvoid, heq⟩ | ⟨_, b₄, -, h⟩⟩
    · exact .inr (.inl fun use => hr use (hb.of_scope hscope) hrhs)
    · cases heq
      obtain ⟨htr, -⟩ := expr_generates hrhs
      rw [hvoid.resolve_right (by simp), hscope] at htr
      exact .inr (.inr ⟨rfl, .inr ⟨rfl, htr⟩⟩)
    · exact absurd h (hk b₄)

/-- The same of operands whose types are known to have one in common. -/
theorem operands_blame {lhs rhs : Expr} (hl : Blames s functions lhs) (hr : Blames s functions rhs)
    (hb : b.Shows vars) {tl tr : ResultType} {t : ValueType} {k : Lowering ResultType}
    (htl : Compile.typeOf s.functions b.scope lhs = .ok tl)
    (htr : Compile.typeOf s.functions b.scope rhs = .ok tr) (ht : promote tl tr = some t)
    (hk : ∀ b', k b' ≠ .error (.broken loc rule))
    (h : (do
      cast (← expr s lhs) (some t) lhs.loc
      cast (← expr s rhs) (some t) rhs.loc
      k) b = .error (.broken loc rule)) :
    Faulty functions vars (lhs.nodes .operand ++ rhs.nodes .operand) loc rule := by
  rcases operands_fail hl hr hb hk h with hpart | hpart | ⟨-, ⟨-, hvoid⟩ | ⟨-, hvoid⟩⟩
  · exact (hpart .operand).mono (List.subset_append_left _ _)
  · exact (hpart .operand).mono (List.subset_append_right _ _)
  -- operands that have a type in common have values
  · rw [htl] at hvoid
    cases hvoid
    cases ht
  · rw [htr] at hvoid
    cases hvoid
    rw [promote_eq, Option.map₂_none_right] at ht
    cases ht

/-- Arguments that are lowered go to parameters with types. A function with a parameter that has
none cannot be called, and the error lies at the argument. -/
theorem arguments_typed : ∀ {args : List Expr} {types : List ResultType} {b b' : Body} {u : Unit},
    arguments s args types b = .ok (u, b') → args.length = types.length →
      ∃ values : List ValueType, types = values.map some
  | [], [], _, _, _, _, _ => ⟨[], rfl⟩
  | [], _ :: _, _, _, _, _, hlength => by cases hlength
  | _ :: _, [], _, _, _, _, hlength => by cases hlength
  | e :: rest, t :: types, b, b', u, h, hlength => by
    simp only [arguments, state_bind_ok] at h
    obtain ⟨_, _, -, _, _, hcast, hrest⟩ := h
    obtain ⟨_, v, -, rfl, -⟩ := cast_ok hcast
    obtain ⟨values, rfl⟩ := arguments_typed hrest (Nat.succ.inj hlength)
    exact ⟨v :: values, rfl⟩

mutual

-- By recursion on the tree. The types are looked up first, so by the time that code is written for
-- two operands it is known that they have values.
/-- An expression that is not lowered has a node at the place of the error that breaks the rule.
Only errors that name a place are considered; running out of slots is not possible here, since no
variable is bound. -/
theorem expr_blames (hfs : Lists s.functions functions) : ∀ e : Expr, Blames s functions e
  | .call place name args, vars, b, loc, rule, use, hb, h => by
    simp only [expr, state_throw_bind, state_bind_fails, state_lift_fails, state_lift_ok,
      state_guard_fails, FunctionTable.lookup_fails, emit_fails, state_pure_fails] at h
    rcases h with ⟨hnone, heq⟩ | ⟨sig, _, ⟨hsig, rfl⟩, h⟩
    · cases heq
      exact .self (.undefinedFunction (hfs.missing hnone))
    · obtain ⟨f, hf, hname, rfl⟩ := hfs.entry.mp (FunctionTable.lookup_ok hsig)
      have hcount : (FunctionSig.ofFunction f).params.length = f.params.length := by
        simp [FunctionSig.ofFunction]
      rw [hcount] at h
      rcases h with ⟨hlength, heq⟩ | ⟨hlength, hargs | ⟨_, _, hargs, hsignature | h⟩⟩
      · cases heq
        exact .self (.arityMismatch hf hname (Ne.symm hlength))
      · exact (arguments_blame hfs args hf hname List.drop_zero.symm hb hargs).inside
          (List.Subset.refl _)
      · -- the arguments have gone to parameters with types, so the function has a signature
        obtain ⟨values, hvalues⟩ := arguments_typed hargs (by rw [hcount]; exact not_not.mp hlength)
        have hok : (FunctionSig.ofFunction f).signature = .ok ⟨values, f.result⟩ :=
          FunctionSig.signature_ok.mpr ⟨rfl, hvalues⟩
        rw [hok] at hsignature
        cases hsignature
      · simp at h
  | .arith place op lhs rhs, vars, b, loc, rule, use, hb, h => by
    simp only [expr, state_throw_bind] at h
    rcases types_fail hfs hb h with hpart | ⟨rfl, rfl, hvoid⟩ | ⟨tl, tr, v, htl, htr, hv, h⟩
    · exact hpart.inside (List.Subset.refl _)
    · exact .self (.voidOperand rfl hvoid)
    · rw [state_guard_fails] at h
      rcases h with ⟨rfl, heq⟩ | ⟨-, h⟩
      · cases heq
        obtain ⟨rfl, rfl⟩ := promote_eq_bool hv
        -- no arithmetic is done on two truth values
        exact .self (.boolArithmetic (typeOf_gives hfs hb htl) (typeOf_gives hfs hb htr))
      · rw [hv] at h
        refine (operands_blame (expr_blames hfs lhs) (expr_blames hfs rhs) hb htl htr hv ?_
          h).inside (List.Subset.refl _)
        intro b'
        simp only [ne_eq, state_bind_fails, emit_fails, state_pure_fails, and_false, exists_false,
          or_self, not_false_eq_true]
  | .shift place kind lhs rhs, vars, b, loc, rule, use, hb, h => by
    simp only [expr] at h
    rw [state_bind_fails, typeOf_fails] at h
    rcases h with hl | ⟨tl, _, hlookup, h⟩
    · exact (typeOf_faulty hfs hb .value hl).inside (List.subset_append_left _ _)
    obtain ⟨htl, rfl⟩ := typeOf_ok hlookup
    rw [state_bind_fails, state_discard_fails, state_lift_fails, valueType_fails] at h
    rcases h with ⟨rfl, heq⟩ | ⟨_, _, hdiscard, h⟩
    · cases heq
      exact (Faulty.void (typeOf_gives hfs hb htl)).inside (List.subset_append_left _ _)
    obtain ⟨t, hlift⟩ := state_discard_ok.mp hdiscard
    obtain ⟨hv, rfl⟩ := state_lift_ok.mp hlift
    obtain rfl := valueType_ok.mp hv
    -- the result is converted back to the type of the left operand, which never fails
    have hback : ∀ b', (do
        emit (.shift kind)
        cast (some .int) (some t) place
        pure (some t) : Lowering ResultType) b' ≠ .error (.broken loc rule) := by
      intro b'
      simp only [ne_eq, state_bind_fails, emit_fails, cast_fails, reduceCtorEq, state_pure_fails,
        false_and, and_false, exists_false, or_self, not_false_eq_true]
    -- the type of the right operand is not looked up before its code is written
    rcases operands_fail (expr_blames hfs lhs) (expr_blames hfs rhs) hb hback h with
      hl | hr | ⟨rfl, ⟨rfl, hvoid⟩ | ⟨rfl, hvoid⟩⟩
    · exact (hl .value).inside (List.subset_append_left _ _)
    · exact (hr .value).inside (List.subset_append_right _ _)
    · -- the left operand is known to have a value
      rw [htl] at hvoid
      cases hvoid
    · exact (Faulty.void (typeOf_gives hfs hb hvoid)).inside (List.subset_append_right _ _)
  | .comparison place op lhs rhs, vars, b, loc, rule, use, hb, h => by
    simp only [expr] at h
    rcases types_fail hfs hb h with hpart | ⟨rfl, rfl, hvoid⟩ | ⟨tl, tr, v, htl, htr, hv, h⟩
    · exact hpart.inside (List.Subset.refl _)
    · exact .self (.voidOperand rfl hvoid)
    · rw [hv] at h
      refine (operands_blame (expr_blames hfs lhs) (expr_blames hfs rhs) hb htl htr hv ?_ h).inside
        (List.Subset.refl _)
      intro b'
      simp only [ne_eq, state_bind_fails, emit_fails, signalToBool_fails, state_pure_fails,
        and_false, exists_false, or_self, not_false_eq_true]
  | .variable place name, vars, b, loc, rule, use, hb, h => by
    simp only [expr, state_bind_fails, lookup_fails, emit_fails, state_pure_fails] at h
    rcases h with ⟨hnone, heq⟩ | h
    · cases heq
      refine .self (.undefinedVariable rfl ?_)
      rw [← hb.declarations]
      exact hb.ordered.new_iff.mp hnone
    · simp at h
  | .int place n, vars, b, loc, rule, use, hb, h => by
    simp only [expr, state_bind_fails, push_fails, state_pure_fails] at h
    simp at h
  | .double place bits, vars, b, loc, rule, use, hb, h => by
    simp only [expr, state_bind_fails, push_fails, state_pure_fails] at h
    simp at h

/-- Arguments are lowered one after the other. The types are those of the parameters from the `i`-th
on, which is how the node of an argument knows its parameter. -/
theorem arguments_blame (hfs : Lists s.functions functions) :
    ∀ (args : List Expr) {types : List ResultType} {vars : Declarations} {b : Body} {loc : Location}
      {rule : Violation} {callee : String} {i : Nat} {f : Function}, f ∈ functions →
      f.name = callee → types = (f.params.map (·.type)).drop i → b.Shows vars →
      arguments s args types b = .error (.broken loc rule) →
      Faulty functions vars (Expr.argumentNodes callee i args) loc rule
  | [], types, vars, b, loc, rule, callee, i, f, hf, hname, htypes, hb, h => by
    simp [arguments, state_pure_fails] at h
  | e :: rest, [], vars, b, loc, rule, callee, i, f, hf, hname, htypes, hb, h => by
    simp [arguments, state_pure_fails] at h
  | e :: rest, t :: types, vars, b, loc, rule, callee, i, f, hf, hname, htypes, hb, h => by
    simp only [arguments, state_bind_fails, cast_fails] at h
    rcases h with he | ⟨te, b₁, he, ⟨hvoid, heq⟩ | ⟨_, b₂, hcast, hrest⟩⟩
    · exact (expr_blames hfs e (.argument callee i) hb he).mono (List.subset_append_left _ _)
    · cases heq
      refine ⟨.expr e (.argument callee i), List.mem_cons_self, rfl, ?_⟩
      rcases hvoid with rfl | rfl
      · exact .voidArgument (typeOf_gives hfs hb (expr_generates he).1)
      · have hparam : (f.params.map (·.type))[i]? = some none := by
          rw [← List.head?_drop, ← htypes]
          rfl
        rw [List.getElem?_map] at hparam
        obtain ⟨p, hp, hvoid⟩ := Option.map_eq_some_iff.mp hparam
        exact .voidParameter hf hname hp hvoid
    · obtain ⟨_, code, ha, _⟩ := expr_generates he
      obtain ⟨_, _, _, _, ha', _⟩ := cast_ok hcast
      have htail : types = (f.params.map (·.type)).drop (i + 1) := by
        rw [← List.tail_drop, ← htypes]
        rfl
      exact (arguments_blame hfs rest hf hname htail (hb.of_scope (ha.trans ha').scope) hrest).mono
        (List.subset_append_right _ _)

end

/-- A value that has to be there, converted to the type of a variable, a result or a condition. -/
theorem exprAs_blames (hfs : Lists s.functions functions) (hb : b.Shows vars) {e : Expr}
    {t : ValueType} (h : exprAs s e (some t) b = .error (.broken loc rule)) :
    Faulty functions vars (e.nodes .value) loc rule := by
  simp only [exprAs, state_bind_fails, cast_fails] at h
  rcases h with he | ⟨te, b₁, he, hvoid, heq⟩
  · exact expr_blames hfs e .value hb he
  · cases heq
    obtain rfl := hvoid.resolve_right (by simp)
    exact .void (typeOf_gives hfs hb (expr_generates he).1)

end Lowering

end TypedStack.Compile
