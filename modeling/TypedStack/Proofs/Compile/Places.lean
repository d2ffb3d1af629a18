import Mathlib.Data.Option.NAry
import TypedStack.Proofs.Compile.WellFormed
/-!
# Places in a module

The nodes of a body, each with the variables that are in scope when its code is generated, and the
rules that a node can break there. Nothing here depends on how the breach is found: it may be seen
while a type is looked up or only when code is written, and by a part of the tree or by what is
around it.
-/

set_option autoImplicit false

namespace TypedStack

open Evaluation Compile

/-! ## Nodes -/

/-- How the value of an expression is used. -/
inductive Use where
  /-- Not at all: the expression is there for its effects. -/
  | effect
  /-- By itself, so it has to be there. -/
  | value
  /-- Together with another, by an operation that brings the two to one type. -/
  | operand
  /-- As an argument, for the parameter of an index. -/
  | argument (callee : String) (index : Nat)

inductive Node where
  | stmt (st : Stmt)
  | expr (e : Expr) (use : Use)

namespace Node

def loc : Node → Location
  | .stmt st => st.loc
  | .expr e _ => e.loc

/-- The variable that a node uses, or sets to a value. -/
def mentioned? : Node → Option String
  | .expr (.variable _ name) _ | .stmt (.read _ name) | .stmt (.assign _ name _)
  | .stmt (.branch _ name _ _) => some name
  | _ => none

/-- The operands of an operation that brings them to one type. -/
def operands? : Node → Option (Expr × Expr)
  | .expr (.arith _ _ lhs rhs) _ | .expr (.comparison _ _ lhs rhs) _ => some (lhs, rhs)
  | _ => none

end Node

mutual

/-- The nodes below an expression. -/
def Expr.inner : Expr → List Node
  | .call _ name args => Expr.argumentNodes name 0 args
  | .arith _ _ lhs rhs | .comparison _ _ lhs rhs =>
    (.expr lhs .operand :: lhs.inner) ++ (.expr rhs .operand :: rhs.inner)
  | .shift _ _ lhs rhs => (.expr lhs .value :: lhs.inner) ++ (.expr rhs .value :: rhs.inner)
  | .variable _ _ | .int _ _ | .double _ _ => []

/-- The nodes of the arguments of a call, from that of an index on. -/
def Expr.argumentNodes (callee : String) : Nat → List Expr → List Node
  | _, [] => []
  | i, e :: rest =>
    (.expr e (.argument callee i) :: e.inner) ++ Expr.argumentNodes callee (i + 1) rest

end

/-- The nodes of an expression that is used in some way. -/
def Expr.nodes (use : Use) (e : Expr) : List Node := .expr e use :: e.inner

/-- A node, with the variables in scope. -/
abbrev Place := Declarations × Node

/-- The places of an expression. All of its nodes see the same variables. -/
def Expr.places (vars : Declarations) (use : Use) (e : Expr) : List Place :=
  (e.nodes use).map (vars, ·)

section

variable (result : ResultType)

mutual

/-- The places below a statement of a function with a result. A variable is in scope from the end of
its declaration on, in the order in which code is laid out. -/
def Stmt.inner (vars : Declarations) : Stmt → List Place
  | .read _ _ | .abort _ | .declare _ _ _ none | .ret _ none => []
  | .print _ value | .assign _ _ value | .assert _ value | .declare _ _ _ (some value) =>
    value.places vars .value
  | .ret _ (some value) => value.places vars (if result = none then .effect else .value)
  | .call loc name args => (Expr.call loc name args).places vars .effect
  | .loop _ body condition =>
    Stmt.places vars body ++ condition.places (vars ++ Stmt.declaredAll body) .value
  | .branch _ _ arms none =>
    arms.flatMap (·.test.value.places vars .value) ++ BranchArm.places vars arms
  | .branch _ _ arms (some otherwise) =>
    arms.flatMap (·.test.value.places vars .value) ++ BranchArm.places vars arms ++
      Stmt.places (vars ++ BranchArm.declaredAll arms) otherwise

/-- The places of statements one after the other. -/
def Stmt.places (vars : Declarations) : List Stmt → List Place
  | [] => []
  | first :: rest =>
    ((vars, .stmt first) :: first.inner vars) ++ Stmt.places (vars ++ first.declared) rest

/-- The places of the bodies of the arms of a branch. -/
def BranchArm.places (vars : Declarations) : List BranchArm → List Place
  | [] => []
  | .mk _ body :: rest =>
    Stmt.places vars body ++ BranchArm.places (vars ++ Stmt.declaredAll body) rest

end

end

/-! ## Rules -/

section

variable (functions : List Function)

/-- What an expression gives, as far as this shows on its surface: a comparison gives a truth value
and a call the result of its function, whatever their parts are. -/
inductive Expr.Gives (vars : Declarations) : Expr → ResultType → Prop
  | call {loc : Location} {name : String} {args : List Expr} {f : Function} (hf : f ∈ functions)
      (hname : f.name = name) : Expr.Gives vars (.call loc name args) f.result
  | arith {loc : Location} {op : ArithOp} {lhs rhs : Expr} {a b : ResultType}
      (hl : Expr.Gives vars lhs a) (hr : Expr.Gives vars rhs b) :
      Expr.Gives vars (.arith loc op lhs rhs) (Option.map₂ commonType a b)
  | shift {loc : Location} {kind : ShiftKind} {lhs rhs : Expr} {a : ResultType}
      (hl : Expr.Gives vars lhs a) : Expr.Gives vars (.shift loc kind lhs rhs) a
  | comparison {loc : Location} {op : Comparison} {lhs rhs : Expr} :
      Expr.Gives vars (.comparison loc op lhs rhs) (some .bool)
  | variable {loc : Location} {name : String} {t : ValueType} (h : (name, t) ∈ vars) :
      Expr.Gives vars (.variable loc name) (some t)
  | int {loc : Location} {n : Int64} : Expr.Gives vars (.int loc n) (some .int)
  | double {loc : Location} {bits : UInt64} : Expr.Gives vars (.double loc bits) (some .double)

/-- A node breaks a rule, with some variables in scope. -/
inductive Node.Breaks (vars : Declarations) : Node → Violation → Prop
  | undefinedVariable {node : Node} {name : String} (h : node.mentioned? = some name)
      (hnew : name ∉ vars.map Prod.fst) : Node.Breaks vars node (.undefinedVariable name)
  | undefinedFunction {loc : Location} {name : String} {args : List Expr} {use : Use}
      (h : ∀ f ∈ functions, f.name ≠ name) :
      Node.Breaks vars (.expr (.call loc name args) use) (.undefinedFunction name)
  | arityMismatch {loc : Location} {name : String} {args : List Expr} {use : Use} {f : Function}
      (hf : f ∈ functions) (hname : f.name = name) (h : f.params.length ≠ args.length) :
      Node.Breaks vars (.expr (.call loc name args) use)
        (.arityMismatch name f.params.length args.length)
  | redeclaration {loc : Location} {name : String} {type : ResultType} {init : Option Expr}
      (h : name ∈ vars.map Prod.fst) :
      Node.Breaks vars (.stmt (.declare loc name type init)) (.redeclaration name)
  | boolArithmetic {loc : Location} {op : ArithOp} {lhs rhs : Expr} {use : Use}
      (hl : lhs.Gives functions vars (some .bool)) (hr : rhs.Gives functions vars (some .bool)) :
      Node.Breaks vars (.expr (.arith loc op lhs rhs) use) .boolArithmetic
  /-- A value that has to be there is missing. -/
  | voidValue {e : Expr} (h : e.Gives functions vars none) :
      Node.Breaks vars (.expr e .value) .voidValueUsed
  /-- An operation lacks one of its operands. -/
  | voidOperand {node : Node} {lhs rhs : Expr} (h : node.operands? = some (lhs, rhs))
      (hvoid : lhs.Gives functions vars none ∨ rhs.Gives functions vars none) :
      Node.Breaks vars node .voidValueUsed
  | voidArgument {e : Expr} {callee : String} {i : Nat} (h : e.Gives functions vars none) :
      Node.Breaks vars (.expr e (.argument callee i)) .voidValueUsed
  /-- There is no value that could go to a parameter without a type. -/
  | voidParameter {e : Expr} {callee : String} {i : Nat} {f : Function} {p : Param}
      (hf : f ∈ functions) (hname : f.name = callee) (hp : f.params[i]? = some p)
      (hvoid : p.type = none) : Node.Breaks vars (.expr e (.argument callee i)) .voidValueUsed
  | voidVariable {loc : Location} {name : String} {init : Option Expr} :
      Node.Breaks vars (.stmt (.declare loc name none init)) .voidValueUsed

/-- The body of a function or of a program breaks a rule at a place: at its own with its parameters,
or at that of one of its nodes. -/
inductive BodyBreaks (params : List Param) (result : ResultType) (body : List Stmt)
    (start : Location) : Location → Violation → Prop
  | repeatedParameter {before after : List Param} {p : Param} (h : params = before ++ p :: after)
      (hname : p.name ∈ before.map (·.name)) :
      BodyBreaks params result body start start (.redeclaration p.name)
  | voidParameter {p : Param} (hp : p ∈ params) (h : p.type = none) :
      BodyBreaks params result body start start .voidValueUsed
  | node {vars : Declarations} {node : Node} {rule : Violation}
      (h : (vars, node) ∈ Stmt.places result (params.filterMap Param.declaration?) body)
      (hbreaks : node.Breaks functions vars rule) :
      BodyBreaks params result body start node.loc rule

end

/-- The name of a function is reserved, or one of those before it has it. -/
def Function.Clashes (before : List Function) (f : Function) : Prop :=
  f.name ∈ [startName, mainName, initName] ∨ f.name ∈ before.map (·.name)

end TypedStack
