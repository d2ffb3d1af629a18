import TypedStack.Compile.Module
import TypedStack.Proofs.Evaluation.Basic
/-!
# Well-formed modules

The rules that a module has to keep, without any code being generated. Scoping is flat: a judgement
on a statement goes from the variables in scope before it to those in scope behind it, and these are
threaded through a body in the order in which code is laid out. So the condition of a loop sees what
the loop declares, and an arm of a branch sees what earlier arms declare, but no test of the branch
does.
-/

set_option autoImplicit false

namespace TypedStack

open Evaluation

/-- The variables in scope, in the order of their declarations. -/
abbrev Declarations := List (String × ValueType)

section

variable (functions : List Function)

/-! ## Expressions -/

mutual

/-- An expression keeps the rules and has a type; it has none if it is a call without a result. -/
inductive Expr.HasType (vars : Declarations) : Expr → ResultType → Prop
  | call {loc : Location} {name : String} {args : List Expr} {f : Function} (hf : f ∈ functions)
      (hname : f.name = name) (hlength : args.length = f.params.length)
      (hargs : Expr.HaveValues vars args) : Expr.HasType vars (.call loc name args) f.result
  | arith {loc : Location} {op : ArithOp} {lhs rhs : Expr} {a b : ValueType}
      (hl : Expr.HasType vars lhs (some a)) (hr : Expr.HasType vars rhs (some b))
      (hbool : ¬ (a = .bool ∧ b = .bool)) :
      Expr.HasType vars (.arith loc op lhs rhs) (some (commonType a b))
  | shift {loc : Location} {kind : ShiftKind} {lhs rhs : Expr} {a b : ValueType}
      (hl : Expr.HasType vars lhs (some a)) (hr : Expr.HasType vars rhs (some b)) :
      Expr.HasType vars (.shift loc kind lhs rhs) (some a)
  | comparison {loc : Location} {op : Comparison} {lhs rhs : Expr} {a b : ValueType}
      (hl : Expr.HasType vars lhs (some a)) (hr : Expr.HasType vars rhs (some b)) :
      Expr.HasType vars (.comparison loc op lhs rhs) (some .bool)
  | variable {loc : Location} {name : String} {t : ValueType} (h : (name, t) ∈ vars) :
      Expr.HasType vars (.variable loc name) (some t)
  | int {loc : Location} {n : Int64} : Expr.HasType vars (.int loc n) (some .int)
  | double {loc : Location} {bits : UInt64} : Expr.HasType vars (.double loc bits) (some .double)

/-- Every one of some expressions keeps the rules and has a value. -/
inductive Expr.HaveValues (vars : Declarations) : List Expr → Prop
  | nil : Expr.HaveValues vars []
  | cons {e : Expr} {rest : List Expr} {t : ValueType} (he : Expr.HasType vars e (some t))
      (hrest : Expr.HaveValues vars rest) : Expr.HaveValues vars (e :: rest)

end

/-- An expression keeps the rules and has a value. -/
def Expr.HasValue (vars : Declarations) (e : Expr) : Prop :=
  ∃ t : ValueType, e.HasType functions vars (some t)

/-! ## Statements -/

variable (result : ResultType)

mutual

/-- A statement keeps the rules with some variables in scope, and leaves these and its own. -/
inductive Stmt.Allowed : Declarations → Stmt → Declarations → Prop
  | read {vars : Declarations} {loc : Location} {target : String} {t : ValueType}
      (h : (target, t) ∈ vars) : Stmt.Allowed vars (.read loc target) vars
  | print {vars : Declarations} {loc : Location} {value : Expr}
      (h : value.HasValue functions vars) : Stmt.Allowed vars (.print loc value) vars
  | declare {vars : Declarations} {loc : Location} {name : String} {t : ValueType}
      {init : Option Expr} (hnew : name ∉ vars.map Prod.fst)
      (hinit : ∀ e, init = some e → e.HasValue functions vars) :
      Stmt.Allowed vars (.declare loc name (some t) init) (vars ++ [(name, t)])
  | assign {vars : Declarations} {loc : Location} {name : String} {value : Expr} {t : ValueType}
      (h : (name, t) ∈ vars) (hvalue : value.HasValue functions vars) :
      Stmt.Allowed vars (.assign loc name value) vars
  | ret {vars : Declarations} {loc : Location} {value : Expr} (hr : result ≠ none)
      (h : value.HasValue functions vars) : Stmt.Allowed vars (.ret loc (some value)) vars
  /-- Without a result the value is computed for its effects, and need not be there. -/
  | retEffect {vars : Declarations} {loc : Location} {value : Expr} {t : ResultType}
      (hr : result = none) (h : value.HasType functions vars t) :
      Stmt.Allowed vars (.ret loc (some value)) vars
  | retZero {vars : Declarations} {loc : Location} : Stmt.Allowed vars (.ret loc none) vars
  | call {vars : Declarations} {loc : Location} {name : String} {args : List Expr} {t : ResultType}
      (h : (Expr.call loc name args).HasType functions vars t) :
      Stmt.Allowed vars (.call loc name args) vars
  | assert {vars : Declarations} {loc : Location} {condition : Expr}
      (h : condition.HasValue functions vars) : Stmt.Allowed vars (.assert loc condition) vars
  | abort {vars : Declarations} {loc : Location} : Stmt.Allowed vars (.abort loc) vars
  | loop {vars vars' : Declarations} {loc : Location} {body : List Stmt} {condition : Expr}
      (hbody : Stmt.AllAllowed vars body vars') (h : condition.HasValue functions vars') :
      Stmt.Allowed vars (.loop loc body condition) vars'
  | branch {vars mid vars' : Declarations} {loc : Location} {target : String} {t : ValueType}
      {arms : List BranchArm} {otherwise : Option (List Stmt)} (h : (target, t) ∈ vars)
      (htests : ∀ arm ∈ arms, arm.test.value.HasValue functions vars)
      (hbodies : BranchArm.AllAllowed vars arms mid)
      (helse : Stmt.AllAllowed mid (otherwise.getD []) vars') :
      Stmt.Allowed vars (.branch loc target arms otherwise) vars'

/-- Statements one after the other. -/
inductive Stmt.AllAllowed : Declarations → List Stmt → Declarations → Prop
  | nil {vars : Declarations} : Stmt.AllAllowed vars [] vars
  | cons {vars mid vars' : Declarations} {first : Stmt} {rest : List Stmt}
      (hfirst : Stmt.Allowed vars first mid) (hrest : Stmt.AllAllowed mid rest vars') :
      Stmt.AllAllowed vars (first :: rest) vars'

/-- The bodies of the arms of a branch, one after the other. -/
inductive BranchArm.AllAllowed : Declarations → List BranchArm → Declarations → Prop
  | nil {vars : Declarations} : BranchArm.AllAllowed vars [] vars
  | cons {vars mid vars' : Declarations} {test : BranchTest} {body : List Stmt}
      {rest : List BranchArm} (hbody : Stmt.AllAllowed vars body mid)
      (hrest : BranchArm.AllAllowed mid rest vars') :
      BranchArm.AllAllowed vars (.mk test body :: rest) vars'

end

end

section

variable {functions : List Function} {result : ResultType}

mutual

/-- No variable goes out of scope. -/
theorem Stmt.Allowed.length_le : ∀ {vars vars' : Declarations} {st : Stmt},
    Stmt.Allowed functions result vars st vars' → vars.length ≤ vars'.length
  | _, _, _, .declare _ _ => by simp
  | _, _, _, .loop hbody _ => hbody.length_le
  | _, _, _, .branch _ _ hbodies helse => Nat.le_trans hbodies.length_le helse.length_le
  | _, _, _, .read _ | _, _, _, .print _ | _, _, _, .assign _ _ | _, _, _, .ret _ _
  | _, _, _, .retEffect _ _ | _, _, _, .retZero | _, _, _, .call _ | _, _, _, .assert _
  | _, _, _, .abort => Nat.le_refl _

theorem Stmt.AllAllowed.length_le : ∀ {vars vars' : Declarations} {body : List Stmt},
    Stmt.AllAllowed functions result vars body vars' → vars.length ≤ vars'.length
  | _, _, _, .nil => Nat.le_refl _
  | _, _, _, .cons hfirst hrest => Nat.le_trans hfirst.length_le hrest.length_le

theorem BranchArm.AllAllowed.length_le : ∀ {vars vars' : Declarations} {arms : List BranchArm},
    BranchArm.AllAllowed functions result vars arms vars' → vars.length ≤ vars'.length
  | _, _, _, .nil => Nat.le_refl _
  | _, _, _, .cons hbody hrest => Nat.le_trans hbody.length_le hrest.length_le

end

end

/-! ## Functions and modules -/

/-- The variable that a parameter declares, if it has a type. -/
def Param.declaration? (p : Param) : Option (String × ValueType) :=
  p.type.map fun t => (p.name, t)

/-- The parameters and the body of a function keep the rules, and there are slots for all of its
variables. -/
structure BodyAllowed (functions : List Function) (params : List Param) (result : ResultType)
    (body : List Stmt) : Prop where
  distinct : (params.map (·.name)).Nodup
  typed : ∀ p ∈ params, p.type ≠ none
  body : ∃ vars, Stmt.AllAllowed functions result (params.filterMap Param.declaration?) body vars ∧
    vars.length ≤ Compile.Scope.capacity

/-- A module keeps the rules, and so does the name of its artifact. -/
structure Module.WellFormed (options : Compile.Options) (m : Module) : Prop where
  name : Text.isIdentifier (options.artifactName.getD m.name) = true
  distinct : (m.functions.map (·.name)).Nodup
  free : ∀ f ∈ m.functions, f.name ∉ [startName, mainName, initName]
  functions : ∀ f ∈ m.functions, BodyAllowed m.functions f.params f.result f.body
  entry : ∀ e, m.entry = some e → BodyAllowed m.functions [] (some .int) e.body

end TypedStack
