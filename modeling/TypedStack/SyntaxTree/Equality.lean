import TypedStack.SyntaxTree.Basic
/-!
# Equality of syntax trees

Two trees are equal if they agree in every node and every location; numbers are compared by their
bit patterns.
-/

set_option autoImplicit false

namespace TypedStack

mutual

def Expr.same : Expr → Expr → Bool
  | .call l name args, .call l' name' args' => l == l' && name == name' && sameExprs args args'
  | .arith l op a b, .arith l' op' a' b' => l == l' && op == op' && a.same a' && b.same b'
  | .shift l k a b, .shift l' k' a' b' => l == l' && k == k' && a.same a' && b.same b'
  | .comparison l op a b, .comparison l' op' a' b' =>
    l == l' && op == op' && a.same a' && b.same b'
  | .variable l name, .variable l' name' => l == l' && name == name'
  | .int l n, .int l' n' => l == l' && n == n'
  | .double l x, .double l' x' => l == l' && x == x'
  | _, _ => false

def sameExprs : List Expr → List Expr → Bool
  | [], [] => true
  | e :: rest, e' :: rest' => e.same e' && sameExprs rest rest'
  | _, _ => false

end

/-- Both are missing, or both are there and agree. -/
def sameOption {α : Type} (same : α → α → Bool) : Option α → Option α → Bool
  | none, none => true
  | some a, some b => same a b
  | _, _ => false

def BranchTest.same : BranchTest → BranchTest → Bool
  | .compare op v, .compare op' v' => op == op' && v.same v'
  | .equals v, .equals v' => v.same v'
  | _, _ => false

mutual

def Stmt.same : Stmt → Stmt → Bool
  | .read l target, .read l' target' => l == l' && target == target'
  | .print l v, .print l' v' => l == l' && v.same v'
  | .declare l name t init, .declare l' name' t' init' =>
    l == l' && name == name' && t == t' && sameOption Expr.same init init'
  | .assign l name v, .assign l' name' v' => l == l' && name == name' && v.same v'
  | .ret l v, .ret l' v' => l == l' && sameOption Expr.same v v'
  | .call l name args, .call l' name' args' => l == l' && name == name' && sameExprs args args'
  | .assert l c, .assert l' c' => l == l' && c.same c'
  | .abort l, .abort l' => l == l'
  | .loop l body c, .loop l' body' c' => l == l' && sameStmts body body' && c.same c'
  | .branch l target arms none, .branch l' target' arms' none =>
    l == l' && target == target' && sameArms arms arms'
  | .branch l target arms (some body), .branch l' target' arms' (some body') =>
    l == l' && target == target' && sameArms arms arms' && sameStmts body body'
  | _, _ => false

def sameStmts : List Stmt → List Stmt → Bool
  | [], [] => true
  | s :: rest, s' :: rest' => s.same s' && sameStmts rest rest'
  | _, _ => false

def sameArms : List BranchArm → List BranchArm → Bool
  | [], [] => true
  | .mk test body :: rest, .mk test' body' :: rest' =>
    test.same test' && sameStmts body body' && sameArms rest rest'
  | _, _ => false

end

def Function.same (f g : Function) : Bool :=
  f.name == g.name && f.result == g.result && f.params == g.params &&
    sameStmts f.body g.body && f.loc == g.loc

def Entry.same (a b : Entry) : Bool := sameStmts a.body b.body && a.loc == b.loc

def sameFunctions : List Function → List Function → Bool
  | [], [] => true
  | f :: rest, g :: rest' => f.same g && sameFunctions rest rest'
  | _, _ => false

def Module.same (m n : Module) : Bool :=
  m.name == n.name && sameFunctions m.functions n.functions &&
    sameOption Entry.same m.entry n.entry

end TypedStack
