import TypedStack.Code.Op
/-!
# Syntax trees

A module holds functions and, if it can be run, an entry. Every node carries the place in the
source that it came from.
-/

set_option autoImplicit false

namespace TypedStack

/-- A place in a source text. Lines and columns count from one; a line of zero means that the
place is not known. -/
structure Location where
  source : String := "<unknown>"
  line : UInt32 := 0
  column : UInt32 := 0
  deriving DecidableEq, Repr

namespace Location

def isKnown (l : Location) : Bool := 0 < l.line

def text (l : Location) : String := s!"{l.source}:{l.line.toNat}:{l.column.toNat}"

end Location

/-- The comparisons of the language. -/
inductive Comparison where
  | lt
  | gt
  | le
  | ge
  | eq
  deriving DecidableEq, Repr

def Comparison.relation : Comparison → Relation
  | .lt => .lt
  | .gt => .gt
  | .le => .le
  | .ge => .ge
  | .eq => .eq

inductive Expr where
  | call (loc : Location) (name : String) (args : List Expr)
  | arith (loc : Location) (op : ArithOp) (lhs rhs : Expr)
  | shift (loc : Location) (kind : ShiftKind) (lhs rhs : Expr)
  | comparison (loc : Location) (op : Comparison) (lhs rhs : Expr)
  | variable (loc : Location) (name : String)
  | int (loc : Location) (n : Int64)
  /-- A 64-bit binary number, as its bit pattern. -/
  | double (loc : Location) (bits : UInt64)

namespace Expr

def loc : Expr → Location
  | .call l _ _ | .arith l _ _ _ | .shift l _ _ _ | .comparison l _ _ _
  | .variable l _ | .int l _ | .double l _ => l

/-- The same node at another place. -/
def moveTo (l : Location) : Expr → Expr
  | .call _ name args => .call l name args
  | .arith _ op lhs rhs => .arith l op lhs rhs
  | .shift _ kind lhs rhs => .shift l kind lhs rhs
  | .comparison _ op lhs rhs => .comparison l op lhs rhs
  | .variable _ name => .variable l name
  | .int _ n => .int l n
  | .double _ bits => .double l bits

end Expr

/-- How an arm of a branch tests the target. -/
inductive BranchTest where
  /-- The target compares so with the value. -/
  | compare (op : Comparison) (value : Expr)
  /-- The target equals the value. -/
  | equals (value : Expr)

namespace BranchTest

def relation : BranchTest → Relation
  | .compare op _ => op.relation
  | .equals _ => .eq

def value : BranchTest → Expr
  | .compare _ v => v
  | .equals v => v

end BranchTest

mutual

inductive Stmt where
  /-- Reads a value from the input into a variable. -/
  | read (loc : Location) (target : String)
  /-- Prints a value on a line of its own. -/
  | print (loc : Location) (value : Expr)
  | declare (loc : Location) (name : String) (type : ResultType) (init : Option Expr)
  | assign (loc : Location) (name : String) (value : Expr)
  | ret (loc : Location) (value : Option Expr)
  /-- A call whose result is dropped. -/
  | call (loc : Location) (name : String) (args : List Expr)
  | assert (loc : Location) (condition : Expr)
  | abort (loc : Location)
  /-- A loop whose body runs once before the condition is tested. -/
  | loop (loc : Location) (body : List Stmt) (condition : Expr)
  /-- Runs the first arm whose test holds of the target. -/
  | branch (loc : Location) (target : String) (arms : List BranchArm)
      (otherwise : Option (List Stmt))

inductive BranchArm where
  | mk (test : BranchTest) (body : List Stmt)

end

namespace BranchArm

def test : BranchArm → BranchTest
  | .mk t _ => t

def body : BranchArm → List Stmt
  | .mk _ b => b

end BranchArm

namespace Stmt

def loc : Stmt → Location
  | .read l _ | .print l _ | .declare l _ _ _ | .assign l _ _ | .ret l _ | .call l _ _
  | .assert l _ | .abort l | .loop l _ _ | .branch l _ _ _ => l

/-- The same node at another place. -/
def moveTo (l : Location) : Stmt → Stmt
  | .read _ target => .read l target
  | .print _ value => .print l value
  | .declare _ name type init => .declare l name type init
  | .assign _ name value => .assign l name value
  | .ret _ value => .ret l value
  | .call _ name args => .call l name args
  | .assert _ condition => .assert l condition
  | .abort _ => .abort l
  | .loop _ body condition => .loop l body condition
  | .branch _ target arms otherwise => .branch l target arms otherwise

end Stmt

structure Param where
  name : String
  type : ResultType
  deriving DecidableEq, Repr

structure Function where
  name : String
  result : ResultType
  params : List Param := []
  body : List Stmt
  loc : Location := {}

/-- The body of a program. It gives back the status of the process. -/
structure Entry where
  body : List Stmt
  loc : Location := {}

structure Module where
  name : String := "Main"
  functions : List Function := []
  entry : Option Entry := none

/-- The first function of a name. -/
def Module.function? (m : Module) (name : String) : Option Function :=
  m.functions.find? (·.name == name)

end TypedStack
