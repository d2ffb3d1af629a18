import TypedStack.Proofs.Compile.Acceptance
/-!
# Variables and slots stay in step

The variables of a function are kept twice while it is compiled. The scope finds them by name and
numbers them, and the block that is being written lists their types. A declaration changes the two
one after the other, the scope by `Lowering.bindName` and the block by `Lowering.addSlot`, and
before that it generates the code of a value, which may fail.

What a computation passes on its way does not show in what it gives back. `Lowering.Passes`
therefore breaks a computation up into the elementary steps of the generator. The two lists agree in
every state that is passed in this way, also on the way to an error (`slots_in_step`). Only between
the two changes of a declaration does the scope have a variable more than the block has slots;
nothing else happens there, nothing can fail, and the slot gets the number that the variable has
(`Body.Agrees.between`).
-/

set_option autoImplicit false

namespace TypedStack.Compile

open Assembly Evaluation

/-! ## Elementary steps -/

namespace Lowering

/-- The two changes of a declaration: a name is bound in the scope, and the block gets a slot. -/
def bindNext (name : String) (t : ValueType) (loc : Location) : Lowering UInt16 := do
  discard (bindName name (some t) loc)
  addSlot t

/-- The steps that the generator is made of. It looks at the function, it checks something, or it
changes the function in one of five ways. Of these only the last changes variables and slots, and it
changes both. -/
inductive Elementary : {α : Type} → Lowering α → Prop
  | look : Elementary (get : Lowering Body)
  | check {α : Type} (x : Except CompileError α) : Elementary (liftM x : Lowering α)
  | emit (o : SymbolicOp) : Elementary (emit o)
  | mark (l : Label) : Elementary (mark l)
  | setLine (line : UInt32) : Elementary (setLine line)
  | freshLabel : Elementary freshLabel
  | bindNext (name : String) (t : ValueType) (loc : Location) : Elementary (bindNext name t loc)

/-- A computation, begun in a state, passes the states of a path: one before each of its elementary
steps, up to its end or to the step that fails. A chain of steps passes the states of its first part
and, if that succeeds, those of the rest. -/
inductive Passes : {α : Type} → Lowering α → Body → List Body → Prop
  | step {α : Type} {x : Lowering α} {b : Body} (h : Elementary x) : Passes x b [b]
  | fails {α β : Type} {x : Lowering α} {f : α → Lowering β} {b : Body} {path : List Body}
      {err : CompileError} (hx : Passes x b path) (h : x b = .error err) : Passes (x >>= f) b path
  | goesOn {α β : Type} {x : Lowering α} {f : α → Lowering β} {b mid : Body} {a : α}
      {path path' : List Body} (hx : Passes x b path) (h : x b = .ok (a, mid))
      (hf : Passes (f a) mid path') : Passes (x >>= f) b (path ++ path')

theorem Passes.start_mem {α : Type} {x : Lowering α} {b : Body} {path : List Body}
    (h : Passes x b path) : b ∈ path := by
  induction h with
  | step _ => exact List.mem_singleton_self _
  | fails _ _ ih => exact ih
  | goesOn _ _ _ ih _ => exact List.mem_append_left _ ih

/-- The computation can be broken up into elementary steps. In how many ways does not matter, as the
states of any path will do. -/
def Traceable {α : Type} (x : Lowering α) (b : Body) : Prop := ∃ path, Passes x b path

namespace Traceable

variable {α β : Type} {b : Body}

theorem step {x : Lowering α} (h : Elementary x) : Traceable x b := ⟨[b], .step h⟩

theorem check (x : Except CompileError α) : Traceable (liftM x : Lowering α) b := step (.check x)

theorem pure (a : α) : Traceable (Pure.pure a : Lowering α) b := check (.ok a)

theorem throw (err : CompileError) : Traceable (MonadExcept.throw err : Lowering α) b :=
  check (.error err)

theorem emit (o : SymbolicOp) : Traceable (Lowering.emit o) b := step (.emit o)

theorem mark (l : Label) : Traceable (Lowering.mark l) b := step (.mark l)

theorem setLine (line : UInt32) : Traceable (Lowering.setLine line) b := step (.setLine line)

theorem freshLabel : Traceable Lowering.freshLabel b := step .freshLabel

theorem push (v : Value) : Traceable (Lowering.push v) b := emit _

/-- The rest of a chain begins in the state that the first part has left, if it has left one. -/
theorem bind {x : Lowering α} {f : α → Lowering β} (hx : Traceable x b)
    (hf : ∀ a mid, x b = .ok (a, mid) → Traceable (f a) mid) : Traceable (x >>= f) b := by
  obtain ⟨path, hpath⟩ := hx
  cases h : x b with
  | error err => exact ⟨path, .fails hpath h⟩
  | ok r =>
    obtain ⟨a, mid⟩ := r
    obtain ⟨path', hpath'⟩ := hf a mid h
    exact ⟨path ++ path', .goesOn hpath h hpath'⟩

/-- The steps of a chain are taken one after the other, in whatever state. -/
theorem andThen {x : Lowering α} {f : α → Lowering β} (hx : Traceable x b)
    (hf : ∀ a mid, Traceable (f a) mid) : Traceable (x >>= f) b :=
  hx.bind fun a mid _ => hf a mid

theorem discard {x : Lowering α} (hx : Traceable x b) :
    Traceable (Functor.discard x : Lowering PUnit) b :=
  hx.andThen fun _ _ => pure _

theorem ite {p : Prop} [Decidable p] {x y : Lowering α} (hx : Traceable x b) (hy : Traceable y b) :
    Traceable (if p then x else y) b := by
  split
  · exact hx
  · exact hy

end Traceable

/-! ## The generator is made of elementary steps

One lemma for each operation of the generator, and its proof is the sequence of steps that the
operation takes. There is nothing to calculate: a state may be any, since every step may be taken in
any state. -/

variable {s : Surroundings}

theorem lookup_traceable (name : String) (loc : Location) (b : Body) :
    Traceable (lookup name loc) b :=
  .andThen (.step .look) fun _ _ => .check _

theorem typeOf_traceable (e : Expr) (b : Body) : Traceable (typeOf s e) b :=
  .andThen (.step .look) fun _ _ => .check _

theorem cast_traceable (source target : ResultType) (loc : Location) (b : Body) :
    Traceable (cast source target loc) b := by
  refine .andThen (.check _) fun _ mid => ?_
  cases source with
  | none => exact .pure ()
  | some a =>
    cases target with
    | none => exact .pure ()
    | some t => exact .ite (.emit _) (.pure ())

theorem signalToBool_traceable (relation : Relation) (b : Body) :
    Traceable (signalToBool relation) b :=
  .andThen .freshLabel fun _ _ => .andThen .freshLabel fun _ _ => .andThen (.emit _) fun _ _ =>
    .andThen (.push _) fun _ _ => .andThen (.emit _) fun _ _ => .andThen (.mark _) fun _ _ =>
      .andThen (.push _) fun _ _ => .mark _

theorem fatal_traceable (message : String) (b : Body) : Traceable (fatal message) b :=
  .andThen (.emit _) fun _ _ => .andThen (.push _) fun _ _ => .emit _

theorem drop_traceable (t : ResultType) (b : Body) : Traceable (drop t) b := by
  cases t with
  | none => exact .pure ()
  | some t => exact .emit _

mutual

-- By recursion on the tree, in the order in which the generator takes its steps.
theorem expr_traceable : ∀ (e : Expr) (b : Body), Traceable (expr s e) b
  | .call loc name args, b => by
    simp only [expr, state_throw_bind]
    refine .andThen (.check _) fun f _ => .ite (.throw _) ?_
    refine .andThen (arguments_traceable args f.params _) fun _ _ => ?_
    exact .andThen (.check _) fun _ _ => .andThen (.emit _) fun _ _ => .pure _
  | .arith loc op lhs rhs, b => by
    simp only [expr, state_throw_bind]
    refine .andThen (typeOf_traceable lhs _) fun _ _ => ?_
    refine .andThen (typeOf_traceable rhs _) fun _ _ => ?_
    refine .andThen (.check _) fun _ _ => .ite (.throw _) ?_
    refine .andThen (expr_traceable lhs _) fun _ _ => ?_
    refine .andThen (cast_traceable _ _ _ _) fun _ _ => ?_
    refine .andThen (expr_traceable rhs _) fun _ _ => ?_
    refine .andThen (cast_traceable _ _ _ _) fun _ _ => ?_
    exact .andThen (.emit _) fun _ _ => .pure _
  | .shift loc kind lhs rhs, b => by
    simp only [expr]
    refine .andThen (typeOf_traceable lhs _) fun _ _ => ?_
    refine .andThen (.discard (.check _)) fun _ _ => ?_
    refine .andThen (expr_traceable lhs _) fun _ _ => ?_
    refine .andThen (cast_traceable _ _ _ _) fun _ _ => ?_
    refine .andThen (expr_traceable rhs _) fun _ _ => ?_
    refine .andThen (cast_traceable _ _ _ _) fun _ _ => ?_
    refine .andThen (.emit _) fun _ _ => ?_
    exact .andThen (cast_traceable _ _ _ _) fun _ _ => .pure _
  | .comparison loc op lhs rhs, b => by
    simp only [expr]
    refine .andThen (typeOf_traceable lhs _) fun _ _ => ?_
    refine .andThen (typeOf_traceable rhs _) fun _ _ => ?_
    refine .andThen (.check _) fun _ _ => ?_
    refine .andThen (expr_traceable lhs _) fun _ _ => ?_
    refine .andThen (cast_traceable _ _ _ _) fun _ _ => ?_
    refine .andThen (expr_traceable rhs _) fun _ _ => ?_
    refine .andThen (cast_traceable _ _ _ _) fun _ _ => ?_
    refine .andThen (.emit _) fun _ _ => ?_
    exact .andThen (signalToBool_traceable _ _) fun _ _ => .pure _
  | .variable loc name, b => by
    simp only [expr]
    refine .andThen (lookup_traceable name loc _) fun _ _ => ?_
    exact .andThen (.emit _) fun _ _ => .pure _
  | .int loc n, b => by
    simp only [expr]
    exact .andThen (.push _) fun _ _ => .pure _
  | .double loc bits, b => by
    simp only [expr]
    exact .andThen (.push _) fun _ _ => .pure _

theorem arguments_traceable : ∀ (args : List Expr) (types : List ResultType) (b : Body),
    Traceable (arguments s args types) b
  | e :: rest, t :: types, b => by
    simp only [arguments]
    refine .andThen (expr_traceable e _) fun _ _ => ?_
    exact .andThen (cast_traceable _ _ _ _) fun _ _ => arguments_traceable rest types _
  | [], _, b => by
    simp only [arguments]
    exact .pure ()
  | _ :: _, [], b => by
    simp only [arguments]
    exact .pure ()

end

theorem exprAs_traceable (e : Expr) (t : ResultType) (b : Body) : Traceable (exprAs s e t) b :=
  .andThen (expr_traceable e b) fun _ _ => cast_traceable _ _ _ _

theorem giveBack_traceable (loc : Location) (value : Option Expr) (b : Body) :
    Traceable (giveBack s loc value) b := by
  cases value with
  | none =>
    cases hr : s.result with
    | none =>
      simp only [giveBack, hr]
      exact .emit _
    | some t =>
      simp only [giveBack, hr]
      exact .andThen (.push _) fun _ _ => .emit _
  | some e =>
    cases hr : s.result with
    | none =>
      simp only [giveBack, hr]
      refine .andThen (expr_traceable e _) fun _ _ => ?_
      refine .andThen (drop_traceable _ _) fun _ _ => ?_
      exact .andThen (.setLine _) fun _ _ => .emit _
    | some t =>
      simp only [giveBack, hr]
      exact .andThen (exprAs_traceable e _ _) fun _ _ => .emit _

/-- The end of a declaration: the two changes, and then the variable gets the value on top. The
generator writes it as three steps, and this puts the first two together. -/
theorem store_eq (name : String) (t : ValueType) (loc : Location) :
    (do
      discard (bindName name (some t) loc)
      let slot ← addSlot t
      emit (.store t slot) : Lowering Unit) =
      bindNext name t loc >>= fun slot => emit (.store t slot) := by
  simp only [bindNext, bind_assoc]

/-- A declaration is the only operation that changes variables and slots. The two changes are one
elementary step, and the value that it stores was computed before. -/
theorem declare_traceable (loc : Location) (name : String) (type : ResultType) (init : Option Expr)
    (b : Body) : Traceable (declare s loc name type init) b := by
  simp only [declare, state_throw_bind]
  refine .andThen (.step .look) fun _ _ => .ite (.throw _) ?_
  refine .bind (.check _) fun t _ ht => ?_
  obtain rfl := valueType_ok.mp (state_lift_ok.mp ht).1
  have hstore : ∀ b, Traceable (bindNext name t loc >>= fun slot => emit (.store t slot)) b :=
    fun b => .andThen (.step (.bindNext name t loc)) fun _ _ => .emit _
  cases init with
  | none =>
    refine .andThen (.push _) fun _ _ => ?_
    rw [store_eq]
    exact hstore _
  | some e =>
    refine .andThen (exprAs_traceable e _ _) fun _ _ => ?_
    rw [store_eq]
    exact hstore _

theorem tests_traceable (target : Variable) (loc : Location) : ∀ (arms : List BranchArm) (b : Body),
    Traceable (tests s target loc arms) b
  | [], b => .pure _
  | .mk test body :: rest, b => by
    simp only [tests]
    refine .andThen (typeOf_traceable _ _) fun _ _ => ?_
    refine .andThen (.check _) fun _ _ => ?_
    refine .andThen (.emit _) fun _ _ => ?_
    refine .andThen (cast_traceable _ _ _ _) fun _ _ => ?_
    refine .andThen (exprAs_traceable _ _ _) fun _ _ => ?_
    refine .andThen (.emit _) fun _ _ => ?_
    refine .andThen .freshLabel fun _ _ => ?_
    refine .andThen (.emit _) fun _ _ => ?_
    exact .andThen (tests_traceable target loc rest _) fun _ _ => .pure _

mutual

theorem stmt_traceable : ∀ (st : Stmt) (b : Body), Traceable (stmt s st) b
  | .read loc target, b => by
    simp only [stmt]
    refine .andThen (.setLine _) fun _ _ => .andThen (lookup_traceable _ _ _) fun _ _ => ?_
    exact .andThen (.emit _) fun _ _ => .emit _
  | .print loc value, b => by
    simp only [stmt]
    refine .andThen (.setLine _) fun _ _ => .andThen (typeOf_traceable _ _) fun _ _ => ?_
    refine .andThen (.check _) fun _ _ => ?_
    exact .andThen (.discard (expr_traceable value _)) fun _ _ => .emit _
  | .declare loc name type init, b => by
    simp only [stmt]
    exact .andThen (.setLine _) fun _ _ => declare_traceable loc name type init _
  | .assign loc name value, b => by
    simp only [stmt]
    refine .andThen (.setLine _) fun _ _ => .andThen (lookup_traceable _ _ _) fun _ _ => ?_
    exact .andThen (exprAs_traceable value _ _) fun _ _ => .emit _
  | .ret loc value, b => by
    simp only [stmt]
    exact .andThen (.setLine _) fun _ _ => giveBack_traceable loc value _
  | .call loc name args, b => by
    simp only [stmt]
    refine .andThen (.setLine _) fun _ _ => ?_
    exact .andThen (expr_traceable (.call loc name args) _) fun _ _ => drop_traceable _ _
  | .assert loc condition, b => by
    simp only [stmt]
    refine .andThen (.setLine _) fun _ _ => .andThen .freshLabel fun _ _ => ?_
    refine .andThen (exprAs_traceable condition _ _) fun _ _ => .andThen (.emit _) fun _ _ => ?_
    exact .andThen (fatal_traceable _ _) fun _ _ => .mark _
  | .abort loc, b => by
    simp only [stmt]
    exact .andThen (.setLine _) fun _ _ => fatal_traceable _ _
  | .loop loc body condition, b => by
    simp only [stmt]
    refine .andThen (.setLine _) fun _ _ => .andThen .freshLabel fun _ _ => ?_
    refine .andThen (.mark _) fun _ _ => .andThen (stmts_traceable body _) fun _ _ => ?_
    refine .andThen (.setLine _) fun _ _ => ?_
    exact .andThen (exprAs_traceable condition _ _) fun _ _ => .emit _
  | .branch loc target arms none, b => by
    simp only [stmt]
    refine .andThen (.setLine _) fun _ _ => .andThen (lookup_traceable _ _ _) fun _ _ => ?_
    refine .andThen .freshLabel fun _ _ => .andThen (tests_traceable _ _ arms _) fun _ _ => ?_
    refine .andThen (.emit _) fun _ _ => ?_
    exact .andThen (bodies_traceable arms _ _ _) fun _ _ => .mark _
  | .branch loc target arms (some otherwise), b => by
    simp only [stmt]
    refine .andThen (.setLine _) fun _ _ => .andThen (lookup_traceable _ _ _) fun _ _ => ?_
    refine .andThen .freshLabel fun _ _ => .andThen (tests_traceable _ _ arms _) fun _ _ => ?_
    refine .andThen .freshLabel fun _ _ => .andThen (.emit _) fun _ _ => ?_
    refine .andThen (bodies_traceable arms _ _ _) fun _ _ => .andThen (.mark _) fun _ _ => ?_
    exact .andThen (stmts_traceable otherwise _) fun _ _ => .mark _

theorem stmts_traceable : ∀ (body : List Stmt) (b : Body), Traceable (stmts s body) b
  | [], b => by
    simp only [stmts]
    exact .pure ()
  | first :: rest, b => by
    simp only [stmts]
    exact .andThen (stmt_traceable first _) fun _ _ => stmts_traceable rest _

theorem bodies_traceable :
    ∀ (arms : List BranchArm) (done : Label) (labels : List Label) (b : Body),
      Traceable (bodies s done arms labels) b
  | .mk _ body :: rest, done, label :: labels, b => by
    simp only [bodies]
    refine .andThen (.mark _) fun _ _ => .andThen (stmts_traceable body _) fun _ _ => ?_
    exact .andThen (.emit _) fun _ _ => bodies_traceable rest done labels _
  | [], _, _, b => by
    simp only [bodies]
    exact .pure ()
  | _ :: _, _, [], b => by
    simp only [bodies]
    exact .pure ()

end

end Lowering

/-! ## Every step keeps variables and slots together

The invariant is `Body.InStep`. It is shown for one elementary step (`Lowering.Elementary.keeps`),
and then for all states that a path passes. -/

/-- The types that the block lists are those of the variables of the scope, which begin with the
variables `inputs`. It is stronger than what is asked for at the end, as it also says in which order
the scope numbers its variables. -/
structure Body.InStep (inputs : List (String × ValueType)) (b : Body) : Prop
    extends b.Consistent where
  inputs : inputs <+: b.scope.declarations

namespace Body.InStep

variable {inputs : List (String × ValueType)} {b b' : Body}

theorem grows {code : List Instr} {declared : List (String × ValueType)} (hb : b.InStep inputs)
    (h : b.Grows code declared b') : b'.InStep inputs := by
  refine ⟨h.consistent, ?_⟩
  rw [h.declarations]
  exact hb.inputs.trans (List.prefix_append _ _)

theorem appends {code : List Instr} (hb : b.InStep inputs) (h : b.Appends code b') :
    b'.InStep inputs :=
  hb.grows (h.grows hb.toConsistent)

theorem size_eq (hb : b.InStep inputs) : b.draft.block.slots.size = b.scope.bound.size := by
  rw [← Array.length_toList, hb.slots, List.length_map, Array.length_toList]

end Body.InStep

namespace Lowering

variable {α : Type} {x : Lowering α} {inputs : List (String × ValueType)} {b b' : Body}

/-- Both changes together keep the invariant, which neither does alone. -/
theorem bindNext_keeps {name : String} {t : ValueType} {loc : Location} {slot : UInt16}
    (hb : b.InStep inputs) (h : bindNext name t loc b = .ok (slot, b')) : b'.InStep inputs := by
  simp only [bindNext, state_bind_ok, state_discard_ok] at h
  obtain ⟨_, mid, ⟨v, hbind⟩, hslot⟩ := h
  obtain ⟨-, -, hgrows, -⟩ := bindName_addSlot hb.toConsistent rfl hbind hslot
  exact hb.grows hgrows

/-- One step. Those that change neither variables nor slots only append code. -/
theorem Elementary.keeps (h : Elementary x) {a : α} (hb : b.InStep inputs)
    (hx : x b = .ok (a, b')) : b'.InStep inputs := by
  cases h with
  | look =>
    obtain ⟨-, rfl⟩ := state_get_ok.mp hx
    exact hb
  | check y =>
    obtain ⟨-, rfl⟩ := state_lift_ok.mp hx
    exact hb
  | emit o => exact hb.appends (emit_ok hx).1
  | mark l => exact hb.appends (mark_ok hx).1
  | setLine line => exact hb.appends (setLine_ok hx).1
  | freshLabel => exact hb.appends (freshLabel_ok hx).2.1
  | bindNext name t loc => exact bindNext_keeps hb hx

/-- However a computation is broken up, variables and slots are in step in all states that it
passes, and in the one in which it ends. -/
theorem Passes.inStep {path : List Body} (h : Passes x b path) (hb : b.InStep inputs) :
    (∀ p ∈ path, p.InStep inputs) ∧ ∀ a b', x b = .ok (a, b') → b'.InStep inputs := by
  induction h with
  | step h =>
    refine ⟨?_, fun a b' hx => h.keeps hb hx⟩
    intro p hp
    rw [List.mem_singleton.mp hp]
    exact hb
  | fails _ hx ih =>
    refine ⟨(ih hb).1, fun a b' hend => ?_⟩
    obtain ⟨_, _, hok, -⟩ := state_bind_ok.mp hend
    rw [hx] at hok
    cases hok
  | goesOn _ hx _ ih ih' =>
    obtain ⟨hpath, hmid⟩ := ih hb
    obtain ⟨hpath', hend⟩ := ih' (hmid _ _ hx)
    refine ⟨?_, fun a b' hrun => ?_⟩
    · intro p hp
      exact (List.mem_append.mp hp).elim (hpath p) (hpath' p)
    · obtain ⟨_, _, hok, hrest⟩ := state_bind_ok.mp hrun
      rw [hx] at hok
      cases hok
      exact hend _ _ hrest

end Lowering

/-! ## Functions

The body of a function is compiled from a state that has its parameters in scope and slots for them.
-/

/-- The state in which the body of a function begins to be compiled. -/
def openBody (name : String) (params : List Param) (result : ResultType) (loc : Location) :
    Except CompileError Body := do
  let scope ← Scope.ofParams params loc
  let types ← params.mapM (fun p => valueType p.type loc)
  pure { scope, draft := (Draft.start name ⟨types, result⟩).setLine loc.line }

/-- Generates the code of a body, and of the return at its end. -/
def bodyCode (s : Surroundings) (body : List Stmt) (loc : Location) : Lowering Unit := do
  Lowering.stmts s body
  Lowering.giveBack s loc none

/-- Compiling a function opens its body, generates the code in it and takes the block of what is
left. -/
theorem lowerBody_eq (fs : FunctionTable) (name : String) (params : List Param)
    (result : ResultType) (body : List Stmt) (loc : Location) :
    lowerBody fs name params result body loc = (do
      let start ← openBody name params result loc
      let last ← bodyCode ⟨fs, result⟩ body loc start
      pure last.2.draft.block) := by
  simp only [lowerBody, openBody, bodyCode, bind_assoc, pure_bind]

/-- A function is in a state at some point of its compilation, the end included. The end is named
separately, since a path lists the states before its steps. -/
def Compiling (fs : FunctionTable) (name : String) (params : List Param) (result : ResultType)
    (body : List Stmt) (loc : Location) (p : Body) : Prop :=
  ∃ start path, openBody name params result loc = .ok start ∧
    Lowering.Passes (bodyCode ⟨fs, result⟩ body loc) start path ∧
    (p ∈ path ∨ bodyCode ⟨fs, result⟩ body loc start = .ok ((), p))

theorem openBody_inStep {name : String} {params : List Param} {result : ResultType}
    {loc : Location} {start : Body} (h : openBody name params result loc = .ok start) :
    params = start.scope.declarations.map paramOf ∧ start.InStep start.scope.declarations := by
  simp only [openBody, except_bind_ok, except_pure_ok] at h
  obtain ⟨scope, hscope, types, htypes, rfl⟩ := h
  obtain ⟨-, hconsistent⟩ := start_consistent name result hscope htypes
  exact ⟨(Scope.ofParams_ok hscope).2, hconsistent, List.prefix_rfl⟩

theorem bodyCode_traceable (s : Surroundings) (body : List Stmt) (loc : Location) (b : Body) :
    Lowering.Traceable (bodyCode s body loc) b :=
  .andThen (Lowering.stmts_traceable body b) fun _ _ => Lowering.giveBack_traceable loc none _

theorem Compiling.inStep {fs : FunctionTable} {name : String} {params : List Param}
    {result : ResultType} {body : List Stmt} {loc : Location} {p : Body}
    (h : Compiling fs name params result body loc p) :
    ∃ inputs, params = inputs.map paramOf ∧ p.InStep inputs := by
  obtain ⟨start, path, hstart, hpasses, hp⟩ := h
  obtain ⟨hparams, hin⟩ := openBody_inStep hstart
  obtain ⟨hpath, hend⟩ := hpasses.inStep hin
  exact ⟨_, hparams, hp.elim (hpath p) (hend _ p)⟩

/-- What the scope and the block of a function say of its variables agrees. -/
structure Body.Agrees (params : List Param) (b : Body) : Prop where
  /-- The slots of the block have the types of the variables, in their order. -/
  types : b.draft.block.slots.toList = b.scope.bound.toList.map Variable.type
  /-- The parameters come first. -/
  params : params <+: b.scope.declarations.map paramOf
  /-- All slots can be numbered. -/
  room : b.draft.block.slots.size ≤ Scope.capacity
  /-- The slot that is added next has the number of the variable that is bound next, and the number
  is the place of the slot, not cut to its width. -/
  number : ∀ {name : String} {t : ValueType} {loc : Location} {v : Variable},
    b.scope.next name (some t) false loc = .ok v →
      (b.draft.addSlot t).1 = v.slot ∧ (b.draft.addSlot t).1.toNat = b.draft.block.slots.size
  /-- Between the two changes of a declaration the scope is ahead of the block by one variable. The
  slot that is then added has the number of this variable, and with it the two agree again. -/
  between : ∀ {name : String} {t : ValueType} {loc : Location} {v : Variable} {mid : Body},
    Lowering.bindName name (some t) loc b = .ok (v, mid) →
      mid.draft = b.draft ∧ mid.scope.bound = b.scope.bound.push v ∧
      ∃ b', Lowering.addSlot t mid = .ok (v.slot, b') ∧ b'.scope = mid.scope ∧
        b'.draft.block.slots.toList = b'.scope.bound.toList.map Variable.type
  /-- When all numbers are taken no further variable is bound. -/
  full : b.draft.block.slots.size = Scope.capacity →
    ∀ (name : String) (t : ValueType) (loc : Location), b.scope.contains name = false →
      b.scope.next name (some t) false loc = .error (.internal .tooManyVariables)

theorem Body.InStep.agrees {inputs : List (String × ValueType)} {b : Body} (h : b.InStep inputs) :
    b.Agrees (inputs.map paramOf) where
  types := h.slots
  params := h.inputs.map paramOf
  room := h.size_eq ▸ h.ordered.size_le
  number hnext := by
    obtain ⟨-, hroom, -, -, hslot, -⟩ := Scope.next_ok hnext
    rw [hslot, ← h.size_eq]
    rw [← h.size_eq] at hroom
    exact ⟨rfl, UInt16.toNat_ofNat_of_lt' hroom⟩
  between {name t loc v mid} hbind := by
    have hslot : Lowering.addSlot t mid =
        .ok ((mid.draft.addSlot t).1, { mid with draft := (mid.draft.addSlot t).2 }) := rfl
    obtain ⟨-, hnumber, hgrows, -⟩ :=
      Lowering.bindName_addSlot h.toConsistent rfl hbind hslot
    rw [hnumber] at hslot
    obtain ⟨-, rfl⟩ := Lowering.bindName_ok.mp hbind
    exact ⟨rfl, rfl, _, hslot, rfl, hgrows.consistent.slots⟩
  full hfull name t loc hnew := by
    have hroom : Scope.capacity ≤ b.scope.bound.size := Nat.le_of_eq (hfull.symm.trans h.size_eq)
    rw [Scope.next, valueType, except_ok_bind, hnew, if_neg Bool.false_ne_true, if_pos hroom]
    rfl

/-- Every access to a slot in typed code fits the slot, also where control never comes. The
annotation of typed code covers all instructions, so no path to the access has to be found. -/
theorem slot_of_access {blk : Assembly.Block} {ann : List Annotated} (h : blk.Typed ann)
    {t : ValueType} {slot : UInt16}
    (haccess : Instr.op (.load t slot) ∈ blk.instrs ∨ Instr.op (.store t slot) ∈ blk.instrs) :
    blk.slots[slot.toNat]? = some t := by
  have hplace : ∀ o, Instr.op o ∈ blk.instrs → ∃ s out,
      OpTyped blk.slots blk.signature.result (fun l s => (s, .mark l) ∈ ann) o s out := by
    intro o ho
    rw [← Array.mem_toList_iff, ← h.instrs] at ho
    obtain ⟨⟨s, _⟩, hmem, rfl⟩ := List.mem_map.mp ho
    obtain ⟨pre, post, hann⟩ := List.append_of_mem hmem
    obtain ⟨_, hflows⟩ := h.flows_at hann
    obtain ⟨out, hop, -⟩ := hflows.op_typed
    exact ⟨s, out, hop⟩
  rcases haccess with hload | hstore
  · obtain ⟨_, _, hop⟩ := hplace _ hload
    cases hop with
    | load hslot => exact hslot
  · obtain ⟨_, _, hop⟩ := hplace _ hstore
    cases hop with
    | store hslot => exact hslot

/-- The scope and the block of a function, or of the entry, stay in step. Its compilation passes one
state after the other, up to its end or to an error, and in each of them the two agree. In the block
that it gives, every load and every store names a slot that is there and has the type of the
access. -/
theorem slots_in_step (fs : FunctionTable) (name : String) (params : List Param)
    (result : ResultType) (body : List Stmt) (loc : Location) :
    lowerBody fs name params result body loc = (do
      let start ← openBody name params result loc
      let last ← bodyCode ⟨fs, result⟩ body loc start
      pure last.2.draft.block) ∧
    (∀ start, openBody name params result loc = .ok start →
      ∃ path, Lowering.Passes (bodyCode ⟨fs, result⟩ body loc) start path) ∧
    (∀ p, Compiling fs name params result body loc p → p.Agrees params) ∧
    ∀ blk, lowerBody fs name params result body loc = .ok blk → ∀ t slot,
      Instr.op (.load t slot) ∈ blk.instrs ∨ Instr.op (.store t slot) ∈ blk.instrs →
        slot.toNat < blk.slots.size ∧ blk.slots[slot.toNat]? = some t := by
  refine ⟨lowerBody_eq fs name params result body loc,
    fun start _ => bodyCode_traceable _ body loc start, ?_, ?_⟩
  · intro p hp
    obtain ⟨inputs, rfl, hin⟩ := hp.inStep
    exact hin.agrees
  · intro blk hblk t slot haccess
    obtain ⟨-, scope, inputs, code, labels, hcode⟩ := lowerBody_code hblk
    obtain ⟨ann, htyped⟩ := hcode.typed
    have hslot := slot_of_access htyped haccess
    exact ⟨(Array.getElem?_eq_some_iff.mp hslot).1, hslot⟩

/-- A loop that declares a variable in its body. -/
def declaringLoop : Stmt := .loop {} [.declare {} "y" (some .bool) none] (.variable {} "y")

/-- Prints a variable that is nowhere declared. -/
def printUnknown : Stmt := .print {} (.variable {} "z")

/-- A function of one parameter is refused for what stands behind its loop. The states before that
are in step, with a slot for the parameter and one for the variable of the loop. -/
theorem slots_in_step_refused :
    ∃ p err, Compiling ∅ "f" [⟨"x", some .int⟩] none [declaringLoop, printUnknown] {} p ∧
      Lowering.stmts ⟨∅, none⟩ [printUnknown] p = .error err ∧
      p.scope.declarations = [("x", .int), ("y", .bool)] ∧
      p.draft.block.slots.toList = [.int, .bool] := by
  have hoffers : Offers ∅ [] := ⟨Lists.empty, by simp⟩
  obtain ⟨_, hopen⟩ := (lowerBody_iff hoffers "f" [⟨"x", some .int⟩] none [] {}).mpr
    ⟨by simp, by simp, _, .nil, by decide⟩
  rw [lowerBody_eq] at hopen
  obtain ⟨start, hstart, -⟩ := except_bind_ok.mp hopen
  obtain ⟨hparams, hin⟩ := openBody_inStep hstart
  have hinputs : start.scope.declarations = [("x", .int)] := by
    have hmap := congrArg (List.filterMap Param.declaration?) hparams
    rw [filterMap_paramOf] at hmap
    exact hmap.symm
  have hallowed : Stmt.Allowed [] none [("x", .int)] declaringLoop [("x", .int), ("y", .bool)] :=
    .loop (.cons (.declare (by decide) (by simp)) .nil) ⟨.bool, .variable (by simp)⟩
  obtain ⟨p, hloop, hshows⟩ := Lowering.stmt_lowers (s := ⟨∅, none⟩) hoffers declaringLoop hallowed
    (by decide) ⟨hin.ordered, hinputs⟩
  obtain ⟨path, hpath⟩ := Lowering.stmt_traceable (s := ⟨∅, none⟩) declaringLoop start
  obtain ⟨path', hpath'⟩ := Lowering.stmts_traceable (s := ⟨∅, none⟩) [printUnknown] p
  cases hprint : Lowering.stmts ⟨∅, none⟩ [printUnknown] p with
  | ok r =>
    obtain ⟨_, hprinted, -⟩ := Lowering.stmts_allowed (s := ⟨∅, none⟩) hoffers _ hshows hprint
    cases hprinted with
    | cons hfirst _ =>
      cases hfirst with
      | print hvalue =>
        obtain ⟨t, ht⟩ := hvalue
        cases ht with
        | «variable» hmem => simp at hmem
  | error err =>
    have hfails : Lowering.stmts ⟨∅, none⟩ [declaringLoop, printUnknown] start = .error err :=
      state_bind_fails.mpr (.inr ⟨(), p, hloop, hprint⟩)
    have hcompiling : Compiling ∅ "f" [⟨"x", some .int⟩] none [declaringLoop, printUnknown] {} p :=
      ⟨start, path ++ path', hstart, .fails (.goesOn hpath hloop hpath') hfails,
        .inl (List.mem_append_right _ hpath'.start_mem)⟩
    have hagrees := (slots_in_step ∅ "f" [⟨"x", some .int⟩] none [declaringLoop, printUnknown]
      {}).2.2.1 p hcompiling
    refine ⟨p, err, hcompiling, hprint, hshows.declarations, ?_⟩
    have htypes := congrArg (List.map Prod.snd) hshows.declarations
    rw [Scope.declarations, List.map_map] at htypes
    exact hagrees.types.trans htypes

end TypedStack.Compile
