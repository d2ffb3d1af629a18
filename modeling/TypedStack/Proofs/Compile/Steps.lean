import TypedStack.Compile.Module
import TypedStack.Proofs.Compile.Scopes
/-!
# Lowering as a computation

What each function of the generator does to a function being compiled, as an equation without the
state monad: the state that a step leaves is handed to the next. The equations are `simp` lemmas,
and they apply to a tree as soon as its root is known, so that `simp` runs the generator on a tree
that is written out. The tables of functions and variables are hash maps, which do not compute;
`simp` reads them through the lemmas on their lookups.

There is one equation for each constructor of a tree and each combinator of the generator, with the
steps in the order in which they are taken. Where a change to the generator adds a step, its
equation is the place that has to follow.
-/

set_option autoImplicit false

namespace TypedStack.Compile

open Assembly

-- The equations of the recursive functions are generated here, once for all lemmas that use them.
attribute [local simp] typeOf
attribute [local simp] Lowering.expr Lowering.arguments Lowering.tests Lowering.stmt Lowering.stmts
  Lowering.bodies

/-! ## Scopes and tables

Only what depends on the layout of a scope is stated for scopes with explicit parts; everything else
is stated for any scope. -/

section

variable (t : ValueType) (loc : Location)

@[simp] theorem valueType_some : valueType (some t) loc = .ok t := rfl

@[simp] theorem valueType_none : valueType none loc = .error (.broken loc .voidValueUsed) := rfl

end

namespace Scope

variable (bound : Array Variable) (byName : Std.HashMap String Nat) (name : String)

@[simp] theorem contains_mk : contains ⟨bound, byName⟩ name = byName.contains name := rfl

@[simp] theorem find?_mk : find? ⟨bound, byName⟩ name = byName[name]?.bind (bound[·]?) := rfl

@[simp] theorem add_mk (v : Variable) :
    add ⟨bound, byName⟩ v = ⟨bound.push v, byName.insert v.name bound.size⟩ := rfl

/-- What the next variable is, with the checks in their order: a type, a new name, a free slot. -/
@[simp] theorem next_mk (t : ValueType) (isParam : Bool) (loc : Location) :
    next ⟨bound, byName⟩ name (some t) isParam loc =
      if byName.contains name then .error (.broken loc (.redeclaration name))
      else if 65536 ≤ bound.size then .error (.internal .tooManyVariables)
      else .ok ⟨name, t, UInt16.ofNat bound.size, isParam⟩ := rfl

@[simp] theorem next_void (scope : Scope) (isParam : Bool) (loc : Location) :
    next scope name none isParam loc = .error (.broken loc .voidValueUsed) := rfl

@[simp] theorem lookup_mk (loc : Location) :
    lookup ⟨bound, byName⟩ name loc =
      (byName[name]?.bind (bound[·]?)).elim (.error (.broken loc (.undefinedVariable name)))
        .ok := by
  unfold lookup
  rw [find?_mk]
  cases byName[name]?.bind (bound[·]?) <;> rfl

/-- Parameters are bound one after the other, up to a name that cannot be bound. The scope as it is
then does not count. -/
theorem bindParams_fold (params : List Param) (loc : Location) (s : Scope) :
    (∀ s', params.foldlM (fun s p => s.next p.name p.type true loc >>= fun v => .ok (s.add v)) s =
        .ok s' → (bindParams loc params).on s = (.ok (), s')) ∧
    ∀ e, params.foldlM (fun s p => s.next p.name p.type true loc >>= fun v => .ok (s.add v)) s =
        .error e → ∃ s', (bindParams loc params).on s = (.error e, s') := by
  induction params generalizing s with
  | nil =>
    constructor
    · intro s' h
      cases h
      rfl
    · intro e h
      cases h
  | cons p params ih =>
    rw [List.foldlM_cons]
    cases h : s.next p.name p.type true loc with
    | error e =>
      rw [bindParams_cons_refused h]
      constructor
      · intro s' h'
        cases h'
      · intro e' h'
        cases h'
        exact ⟨s, rfl⟩
    | ok v =>
      rw [bindParams_cons_bound h]
      exact ih _

/-- The scope of a function is that of its parameters, or the error of the first that cannot be
bound. -/
theorem ofParams_eq (params : List Param) (loc : Location) :
    ofParams params loc =
      params.foldlM (fun s p => s.next p.name p.type true loc >>= fun v => .ok (s.add v)) {} := by
  obtain ⟨hok, hfails⟩ := bindParams_fold params loc {}
  generalize params.foldlM (fun s p => s.next p.name p.type true loc >>= fun v => .ok (s.add v))
    ({} : Scope) = result at hok hfails
  cases result with
  | error e => exact ofParams_fails_iff.mpr (hfails e rfl)
  | ok s => exact ofParams_ok_iff.mpr (hok s rfl)

end Scope

namespace FunctionTable

variable (fs : FunctionTable) (name : String) (loc : Location)

@[simp] theorem lookup_empty :
    lookup ∅ name loc = .error (.broken loc (.undefinedFunction name)) := by
  simp [lookup]

/-- A name that was entered leads to its function, and entering it hides no other. -/
@[simp] theorem lookup_insert (name' : String) (f : FunctionSig) :
    lookup (fs.insert name' f) name loc = if name' = name then .ok f else fs.lookup name loc := by
  unfold lookup
  rw [Std.HashMap.getElem?_insert]
  by_cases h : name' = name <;> simp [h]

end FunctionTable

@[simp] theorem FunctionSig.signature_mk (params : List ResultType) (result : ResultType)
    (loc : Location) :
    signature ⟨params, result, loc⟩ =
      (params.mapM (valueType · loc) >>= fun types => .ok ⟨types, result⟩) := rfl

theorem isReservedName_eq (name : String) :
    isReservedName name = (name == "<start>" || name == "<main>" || name == "<clinit>") := rfl

/-- Functions enter the table one after the other, each under a name that is free. -/
theorem functionTable_eq (functions : List Function) :
    functionTable functions = functions.foldlM (fun (table : FunctionTable) f =>
      if isReservedName f.name ∨ table.contains f.name then
        .error (.broken f.loc (.duplicateFunction f.name))
      else .ok (table.insert f.name ⟨f.params.map (·.type), f.result, f.loc⟩)) ∅ := by
  unfold functionTable FunctionTable.add?
  congr 1
  funext table f
  by_cases hr : isReservedName f.name = true
  · simp [hr]
  · by_cases ht : table.contains f.name = true <;> simp [hr, ht, FunctionSig.ofFunction]

/-! ## Types of expressions

The type of an expression is found before any code is written for it. It depends on the tables and
on nothing that lowering does on the way. -/

section

variable (fs : FunctionTable) (scope : Scope) (loc : Location)

@[simp] theorem promote_same (t : ValueType) : promote (some t) (some t) = some t :=
  if_pos (Nat.le_refl _)

@[simp] theorem promote_none (t : ResultType) : promote t none = none := by
  cases t <;> rfl

@[simp] theorem none_promote (t : ResultType) : promote none t = none := rfl

@[simp] theorem typeOf_call (name : String) (args : List Expr) :
    typeOf fs scope (.call loc name args) = (fs.lookup name loc >>= fun f => .ok f.result) := by
  rw [typeOf]; rfl

/-- Both operands are looked at from the left to the right, and the first that has no type is
reported. -/
@[simp] theorem typeOf_arith (op : ArithOp) (lhs rhs : Expr) :
    typeOf fs scope (.arith loc op lhs rhs) = (typeOf fs scope lhs >>= fun tl =>
      typeOf fs scope rhs >>= fun tr => .ok (promote tl tr)) := by
  rw [typeOf]; rfl

/-- A shift has the type of what is shifted, and the amount is not looked at. -/
@[simp] theorem typeOf_shift (kind : ShiftKind) (lhs rhs : Expr) :
    typeOf fs scope (.shift loc kind lhs rhs) = typeOf fs scope lhs := by
  rw [typeOf]

/-- A comparison is a truth value whatever is compared, so its operands are not looked at. -/
@[simp] theorem typeOf_comparison (op : Comparison) (lhs rhs : Expr) :
    typeOf fs scope (.comparison loc op lhs rhs) = .ok (some .bool) := by
  rw [typeOf]; rfl

@[simp] theorem typeOf_variable (name : String) :
    typeOf fs scope (.variable loc name) =
      (scope.lookup name loc >>= fun v => .ok (some v.type)) := by
  rw [typeOf]; rfl

@[simp] theorem typeOf_int (n : Int64) : typeOf fs scope (.int loc n) = .ok (some .int) := by
  rw [typeOf]; rfl

@[simp] theorem typeOf_double (bits : UInt64) :
    typeOf fs scope (.double loc bits) = .ok (some .double) := by
  rw [typeOf]; rfl

end

namespace Lowering

/-! ## Handing the state on

The combinators of the monad. They are given to `simp` by name where a definition is unfolded, and
never as a set, since an equation of the generator is meant to apply before them. -/

section

variable {α β : Type} (b : Body)

/-- The second step begins in the state that the first has left. -/
theorem bind_run (x : Lowering α) (f : α → Lowering β) :
    (x >>= f) b = (x b >>= fun r => f r.1 r.2) := rfl

theorem pure_run (a : α) : (pure a : Lowering α) b = .ok (a, b) := rfl

theorem throw_run (e : CompileError) : (throw e : Lowering α) b = .error e := rfl

theorem lift_run (x : Except CompileError α) :
    (liftM x : Lowering α) b = (x >>= fun a => .ok (a, b)) := rfl

theorem get_run : (get : Lowering Body) b = .ok (b, b) := rfl

theorem ite_run (p : Prop) [Decidable p] (x y : Lowering α) :
    (if p then x else y) b = if p then x b else y b := by
  split <;> rfl

theorem discard_run (x : Lowering α) :
    (discard x : Lowering PUnit) b = (x b >>= fun r => .ok (⟨⟩, r.2)) := rfl

end

variable (s : Surroundings) (b : Body)

/-! ## Single steps

Each writes an instruction, marks a label or notes something down, and none of these can fail. A
name that is bound or looked up can. -/

@[simp] theorem emit_run (o : SymbolicOp) :
    emit o b = .ok ((), { b with draft := b.draft.emit (.op o) }) := rfl

@[simp] theorem mark_run (l : Label) :
    mark l b = .ok ((), { b with draft := b.draft.mark l }) := rfl

@[simp] theorem setLine_run (line : UInt32) :
    setLine line b = .ok ((), { b with draft := b.draft.setLine line }) := rfl

@[simp] theorem freshLabel_run :
    freshLabel b = .ok (b.draft.freshLabel.1, { b with draft := b.draft.freshLabel.2 }) := rfl

@[simp] theorem push_run (v : Value) :
    push v b = .ok ((), { b with draft := b.draft.emit (.op (.const (.value v))) }) := rfl

@[simp] theorem addSlot_run (t : ValueType) :
    addSlot t b = .ok ((b.draft.addSlot t).1, { b with draft := (b.draft.addSlot t).2 }) := rfl

/-- Binding is a change of the scope that is put back into the state. -/
@[simp] theorem bindName_run (name : String) (type : ResultType) (loc : Location) :
    bindName name type loc b =
      (b.scope.next name type false loc >>= fun v =>
        .ok (v, { b with scope := b.scope.add v })) := by
  unfold bindName Scope.declare
  cases h : b.scope.next name type false loc with
  | error e => simp only [Scope.bind_refused h]; rfl
  | ok v => simp only [Scope.bind_bound h]; rfl

@[simp] theorem lookup_run (name : String) (loc : Location) :
    lookup name loc b = (b.scope.lookup name loc >>= fun v => .ok (v, b)) := rfl

@[simp] theorem typeOf_run (e : Expr) :
    typeOf s e b = (Compile.typeOf s.functions b.scope e >>= fun t => .ok (t, b)) := rfl

@[simp] theorem cast_same (t : ValueType) (loc : Location) :
    cast (some t) (some t) loc b = .ok ((), b) := by
  simp [cast, bind_run, lift_run, checkCast, except_ok_bind, pure_run]

/-- A conversion is an instruction, unless there is nothing to convert. -/
@[simp] theorem cast_other {a t : ValueType} (h : a ≠ t) (loc : Location) :
    cast (some a) (some t) loc b =
      .ok ((), { b with draft := b.draft.emit (.op (.cast a t)) }) := by
  simp [cast, bind_run, lift_run, checkCast, except_ok_bind, h]

@[simp] theorem cast_missing (t : ResultType) (loc : Location) :
    cast none t loc b = .error (.broken loc .voidValueUsed) := rfl

@[simp] theorem drop_some (t : ValueType) :
    drop (some t) b = .ok ((), { b with draft := b.draft.emit (.op (.pop t)) }) := rfl

@[simp] theorem drop_none : drop none b = .ok ((), b) := rfl

/-- The signal of an order becomes a truth value by a jump: the code for false is skipped, or the
code for true is. -/
@[simp] theorem signalToBool_run (relation : Relation) :
    signalToBool relation b =
      (freshLabel b >>= fun yes => freshLabel yes.2 >>= fun done =>
        emit (.jumpIf relation yes.1) done.2 >>= fun r => push (.bool false) r.2 >>= fun r =>
        emit (.jump done.1) r.2 >>= fun r => mark yes.1 r.2 >>= fun r =>
        push (.bool true) r.2 >>= fun r => mark done.1 r.2) := rfl

/-- A message, and the end of the program with a status that says so. -/
@[simp] theorem fatal_run (message : String) :
    fatal message b = (emit (.printError message) b >>= fun r => push (.int (-1)) r.2 >>= fun r =>
      emit .exit r.2) := rfl

/-! ## Expressions

The types of operands are found first, since the code of the left operand already needs the type
that both are converted to. So an error in the type of an operand is reported before any in its
code. -/

/-- The number of arguments is checked before any of them is lowered. -/
@[simp] theorem expr_call (loc : Location) (name : String) (args : List Expr) :
    expr s (.call loc name args) b = (s.functions.lookup name loc >>= fun f =>
      if args.length ≠ f.params.length then
        .error (.broken loc (.arityMismatch name f.params.length args.length))
      else arguments s args f.params b >>= fun r => f.signature >>= fun sig =>
        emit (.call ⟨name, sig⟩) r.2 >>= fun r => .ok (f.result, r.2)) := by
  simp only [expr, bind_run, lift_run, throw_run, pure_run, ite_run, bind_assoc, except_ok_bind,
    state_throw_bind]

/-- Each operand is converted to the common type right behind its own code. -/
@[simp] theorem expr_arith (loc : Location) (op : ArithOp) (lhs rhs : Expr) :
    expr s (.arith loc op lhs rhs) b =
      (Compile.typeOf s.functions b.scope lhs >>= fun tl =>
        Compile.typeOf s.functions b.scope rhs >>= fun tr =>
        valueType (promote tl tr) loc >>= fun v =>
        if v = .bool then .error (.broken loc .boolArithmetic)
        else expr s lhs b >>= fun l => cast l.1 (promote tl tr) lhs.loc l.2 >>= fun l =>
          expr s rhs l.2 >>= fun r => cast r.1 (promote tl tr) rhs.loc r.2 >>= fun r =>
          emit (.arith op v) r.2 >>= fun r => .ok (promote tl tr, r.2)) := by
  simp only [expr, bind_run, lift_run, throw_run, pure_run, ite_run, bind_assoc, except_ok_bind,
    state_throw_bind, typeOf_run]

/-- A shift is made in integers, and its result is converted back. -/
@[simp] theorem expr_shift (loc : Location) (kind : ShiftKind) (lhs rhs : Expr) :
    expr s (.shift loc kind lhs rhs) b =
      (Compile.typeOf s.functions b.scope lhs >>= fun t => valueType t lhs.loc >>= fun _ =>
        expr s lhs b >>= fun l => cast l.1 (some .int) lhs.loc l.2 >>= fun l =>
        expr s rhs l.2 >>= fun r => cast r.1 (some .int) rhs.loc r.2 >>= fun r =>
        emit (.shift kind) r.2 >>= fun r => cast (some .int) t loc r.2 >>= fun r =>
        .ok (t, r.2)) := by
  simp only [expr, bind_run, lift_run, pure_run, bind_assoc, except_ok_bind, typeOf_run,
    discard_run]

@[simp] theorem expr_comparison (loc : Location) (op : Comparison) (lhs rhs : Expr) :
    expr s (.comparison loc op lhs rhs) b =
      (Compile.typeOf s.functions b.scope lhs >>= fun tl =>
        Compile.typeOf s.functions b.scope rhs >>= fun tr =>
        valueType (promote tl tr) loc >>= fun v =>
        expr s lhs b >>= fun l => cast l.1 (promote tl tr) lhs.loc l.2 >>= fun l =>
        expr s rhs l.2 >>= fun r => cast r.1 (promote tl tr) rhs.loc r.2 >>= fun r =>
        emit (.compare v) r.2 >>= fun r => signalToBool op.relation r.2 >>= fun r =>
        .ok (some .bool, r.2)) := by
  simp only [expr, bind_run, lift_run, pure_run, bind_assoc, except_ok_bind, typeOf_run]

@[simp] theorem expr_variable (loc : Location) (name : String) :
    expr s (.variable loc name) b = (b.scope.lookup name loc >>= fun v =>
      emit (.load v.type v.slot) b >>= fun r => .ok (some v.type, r.2)) := by
  simp only [expr, bind_run, pure_run, bind_assoc, except_ok_bind, lookup_run]

@[simp] theorem expr_int (loc : Location) (n : Int64) :
    expr s (.int loc n) b = (push (.int n) b >>= fun r => .ok (some .int, r.2)) := by
  simp only [expr, bind_run, pure_run]

@[simp] theorem expr_double (loc : Location) (bits : UInt64) :
    expr s (.double loc bits) b = (push (.double bits) b >>= fun r => .ok (some .double, r.2)) := by
  simp only [expr, bind_run, pure_run]

/-- An argument is converted to the type of its parameter before the next one is lowered. -/
@[simp] theorem arguments_cons (e : Expr) (rest : List Expr) (t : ResultType)
    (types : List ResultType) :
    arguments s (e :: rest) (t :: types) b =
      (expr s e b >>= fun r => cast r.1 t e.loc r.2 >>= fun r =>
      arguments s rest types r.2) := by
  simp only [arguments, bind_run]

@[simp] theorem arguments_nil (types : List ResultType) : arguments s [] types b = .ok ((), b) := by
  simp only [arguments, pure_run]

@[simp] theorem exprAs_run (e : Expr) (t : ResultType) :
    exprAs s e t b = (expr s e b >>= fun r => cast r.1 t e.loc r.2) := rfl

/-! ## Statements

A statement first sets the line for the instructions that follow. -/

@[simp] theorem giveBack_value (t : ValueType) (fs : FunctionTable) (loc : Location) (e : Expr) :
    giveBack ⟨fs, some t⟩ loc (some e) b =
      (exprAs ⟨fs, some t⟩ e (some t) b >>= fun r => emit (.ret t) r.2) := rfl

/-- A function without a result lowers the value for its effects and drops it. The line is set
again, since the value may have come from another one. -/
@[simp] theorem giveBack_effect (fs : FunctionTable) (loc : Location) (e : Expr) :
    giveBack ⟨fs, none⟩ loc (some e) b =
      (expr ⟨fs, none⟩ e b >>= fun r => drop r.1 r.2 >>= fun r => setLine loc.line r.2 >>= fun r =>
        emit .retVoid r.2) := rfl

@[simp] theorem giveBack_zero (t : ValueType) (fs : FunctionTable) (loc : Location) :
    giveBack ⟨fs, some t⟩ loc none b = (push (.zero t) b >>= fun r => emit (.ret t) r.2) := rfl

@[simp] theorem giveBack_nothing (fs : FunctionTable) (loc : Location) :
    giveBack ⟨fs, none⟩ loc none b = emit .retVoid b := rfl

/-- The name is looked for first and bound last: the value of a declaration does not see its
variable. -/
@[simp] theorem declare_value (loc : Location) (name : String) (type : ResultType) (e : Expr) :
    declare s loc name type (some e) b =
      if b.scope.contains name then .error (.broken loc (.redeclaration name))
      else valueType type loc >>= fun t => exprAs s e type b >>= fun r =>
        bindName name type loc r.2 >>= fun r => addSlot t r.2 >>= fun r =>
        emit (.store t r.1) r.2 := by
  simp only [declare, bind_run, lift_run, throw_run, get_run, discard_run, ite_run, bind_assoc,
    except_ok_bind, state_throw_bind]

@[simp] theorem declare_zero (loc : Location) (name : String) (type : ResultType) :
    declare s loc name type none b =
      if b.scope.contains name then .error (.broken loc (.redeclaration name))
      else valueType type loc >>= fun t => push (.zero t) b >>= fun r =>
        bindName name type loc r.2 >>= fun r => addSlot t r.2 >>= fun r =>
        emit (.store t r.1) r.2 := by
  simp only [declare, bind_run, lift_run, throw_run, get_run, discard_run, ite_run, bind_assoc,
    except_ok_bind, state_throw_bind]

attribute [simp] BranchTest.value BranchTest.relation

@[simp] theorem tests_nil (target : Variable) (loc : Location) :
    tests s target loc [] b = .ok ([], b) := rfl

/-- The variable is compared with the value of each arm, and a jump goes to the arm where the test
succeeds. -/
@[simp] theorem tests_cons (target : Variable) (loc : Location) (test : BranchTest)
    (body : List Stmt) (rest : List BranchArm) :
    tests s target loc (.mk test body :: rest) b =
      (Compile.typeOf s.functions b.scope test.value >>= fun t =>
        valueType (promote (some target.type) t) test.value.loc >>= fun v =>
        emit (.load target.type target.slot) b >>= fun r =>
        cast (some target.type) (promote (some target.type) t) loc r.2 >>= fun r =>
        exprAs s test.value (promote (some target.type) t) r.2 >>= fun r =>
        emit (.compare v) r.2 >>= fun r => freshLabel r.2 >>= fun arm =>
        emit (.jumpIf test.relation arm.1) arm.2 >>= fun r =>
        tests s target loc rest r.2 >>= fun labels => .ok (arm.1 :: labels.1, labels.2)) := by
  simp only [tests, bind_run, lift_run, pure_run, typeOf_run, bind_assoc, except_ok_bind]

@[simp] theorem stmt_read (loc : Location) (target : String) :
    stmt s (.read loc target) b =
      (setLine loc.line b >>= fun r => lookup target loc r.2 >>= fun v =>
      emit (.read v.1.type) v.2 >>= fun r => emit (.store v.1.type v.1.slot) r.2) := by
  simp only [stmt, bind_run]

@[simp] theorem stmt_print (loc : Location) (value : Expr) :
    stmt s (.print loc value) b = (setLine loc.line b >>= fun r => typeOf s value r.2 >>= fun t =>
      valueType t.1 value.loc >>= fun v => expr s value t.2 >>= fun r => emit (.print v) r.2) := by
  simp only [stmt, bind_run, lift_run, discard_run, bind_assoc, except_ok_bind]

@[simp] theorem stmt_declare (loc : Location) (name : String) (type : ResultType)
    (init : Option Expr) :
    stmt s (.declare loc name type init) b =
      (setLine loc.line b >>= fun r => declare s loc name type init r.2) := by
  simp only [stmt, bind_run]

@[simp] theorem stmt_assign (loc : Location) (name : String) (value : Expr) :
    stmt s (.assign loc name value) b = (setLine loc.line b >>= fun r =>
      lookup name loc r.2 >>= fun v => exprAs s value (some v.1.type) v.2 >>= fun r =>
      emit (.store v.1.type v.1.slot) r.2) := by
  simp only [stmt, bind_run]

@[simp] theorem stmt_ret (loc : Location) (value : Option Expr) :
    stmt s (.ret loc value) b = (setLine loc.line b >>= fun r => giveBack s loc value r.2) := by
  simp only [stmt, bind_run]

@[simp] theorem stmt_call (loc : Location) (name : String) (args : List Expr) :
    stmt s (.call loc name args) b = (setLine loc.line b >>= fun r =>
      expr s (.call loc name args) r.2 >>= fun r => drop r.1 r.2) := by
  simp only [stmt, bind_run]

@[simp] theorem stmt_assert (loc : Location) (condition : Expr) :
    stmt s (.assert loc condition) b = (setLine loc.line b >>= fun r =>
      freshLabel r.2 >>= fun ok => exprAs s condition (some .bool) ok.2 >>= fun r =>
      emit (.jumpIfTrue ok.1) r.2 >>= fun r =>
      fatal s!"Assertion failed at {loc.text}" r.2 >>= fun r => mark ok.1 r.2) := by
  simp only [stmt, bind_run]

@[simp] theorem stmt_abort (loc : Location) :
    stmt s (.abort loc) b = (setLine loc.line b >>= fun r =>
      fatal s!"Program aborted at {loc.text}" r.2) := by
  simp only [stmt, bind_run]

/-- The body comes before the condition, which jumps back as long as it is true. -/
@[simp] theorem stmt_loop (loc : Location) (body : List Stmt) (condition : Expr) :
    stmt s (.loop loc body condition) b = (setLine loc.line b >>= fun r =>
      freshLabel r.2 >>= fun start => mark start.1 start.2 >>= fun r =>
      stmts s body r.2 >>= fun r =>
      setLine loc.line r.2 >>= fun r => exprAs s condition (some .bool) r.2 >>= fun r =>
      emit (.jumpIfTrue start.1) r.2) := by
  simp only [stmt, bind_run]

/-- All tests come first, and then the bodies in the same order. Where no test succeeds, a jump goes
behind the last body. -/
@[simp] theorem stmt_branch (loc : Location) (target : String) (arms : List BranchArm) :
    stmt s (.branch loc target arms none) b = (setLine loc.line b >>= fun r =>
      lookup target loc r.2 >>= fun v => freshLabel v.2 >>= fun done =>
      tests s v.1 loc arms done.2 >>= fun labels => emit (.jump done.1) labels.2 >>= fun r =>
      bodies s done.1 arms labels.1 r.2 >>= fun r => mark done.1 r.2) := by
  simp only [stmt, bind_run]

/-- The same with a body for the case in which no test succeeds. It has a label of its own. -/
@[simp] theorem stmt_branch_otherwise (loc : Location) (target : String) (arms : List BranchArm)
    (otherwise : List Stmt) :
    stmt s (.branch loc target arms (some otherwise)) b = (setLine loc.line b >>= fun r =>
      lookup target loc r.2 >>= fun v => freshLabel v.2 >>= fun done =>
      tests s v.1 loc arms done.2 >>= fun labels => freshLabel labels.2 >>= fun default =>
      emit (.jump default.1) default.2 >>= fun r => bodies s done.1 arms labels.1 r.2 >>= fun r =>
      mark default.1 r.2 >>= fun r => stmts s otherwise r.2 >>= fun r => mark done.1 r.2) := by
  simp only [stmt, bind_run]

@[simp] theorem stmts_nil : stmts s [] b = .ok ((), b) := by
  simp only [stmts, pure_run]

@[simp] theorem stmts_cons (first : Stmt) (rest : List Stmt) :
    stmts s (first :: rest) b = (stmt s first b >>= fun r => stmts s rest r.2) := by
  simp only [stmts, bind_run]

@[simp] theorem bodies_nil (done : Label) (labels : List Label) :
    bodies s done [] labels b = .ok ((), b) := by
  simp only [bodies, pure_run]

@[simp] theorem bodies_cons (done : Label) (test : BranchTest) (body : List Stmt)
    (rest : List BranchArm) (label : Label) (labels : List Label) :
    bodies s done (.mk test body :: rest) (label :: labels) b = (mark label b >>= fun r =>
      stmts s body r.2 >>= fun r => emit (.jump done) r.2 >>= fun r =>
      bodies s done rest labels r.2) := by
  simp only [bodies, bind_run]

end Lowering

/-! ## Functions and modules

A function is its parameters, its statements and a return behind them, which is reached only if the
statements do not return themselves. -/

theorem lowerBody_run (fs : FunctionTable) (name : String) (params : List Param)
    (result : ResultType) (body : List Stmt) (loc : Location) :
    lowerBody fs name params result body loc =
      (Scope.ofParams params loc >>= fun scope =>
        params.mapM (fun p => valueType p.type loc) >>= fun types =>
        Lowering.stmts ⟨fs, result⟩ body
          ⟨scope, (Draft.start name ⟨types, result⟩).setLine loc.line⟩ >>= fun r =>
        Lowering.giveBack ⟨fs, result⟩ loc none r.2 >>= fun r => .ok r.2.draft.block) := by
  simp only [lowerBody, Lowering.bind_run, bind_assoc]
  rfl

@[simp] theorem entryBlocks_none (fs : FunctionTable) : entryBlocks fs none = .ok [] := rfl

@[simp] theorem entryBlocks_some (fs : FunctionTable) (e : Entry) :
    entryBlocks fs (some e) = (lowerBody fs mainName [] (some .int) e.body e.loc >>= fun main =>
      .ok [main, initBlock, startBlock]) := rfl

/-- A module whose name will do, function by function and then the entry. -/
theorem lowerModule_run {m : Module} (h : Text.isIdentifier m.name = true) :
    lowerModule {} m =
      (functionTable m.functions >>= fun fs =>
        m.functions.mapM (fun f => lowerBody fs f.name f.params f.result f.body f.loc) >>=
        fun blocks =>
        entryBlocks fs m.entry >>= fun entry => .ok ⟨m.name, (blocks ++ entry).toArray⟩) := by
  simp only [lowerModule, Option.getD_none, h, if_true]
  rfl

end TypedStack.Compile
