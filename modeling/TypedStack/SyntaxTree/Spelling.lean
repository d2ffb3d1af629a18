import TypedStack.SyntaxTree.Basic
/-!
# Names in the interchange form

How the choices of the language are spelled in the JSON form of a tree.
-/

set_option autoImplicit false

namespace TypedStack.SyntaxTree

/-- Types, `void` for a missing one. -/
def types : List (String × ResultType) :=
  [("int", some .int), ("char", some .char), ("float", some .float), ("bool", some .bool),
    ("double", some .double), ("void", none)]

def arithOps : List (String × ArithOp) :=
  [("mult", .mul), ("div", .div), ("plus", .add), ("minus", .sub)]

def shiftKinds : List (String × ShiftKind) := [("left", .left), ("right", .right)]

def comparisons : List (String × Comparison) :=
  [("lt", .lt), ("gt", .gt), ("le", .le), ("ge", .ge), ("eq", .eq)]

/-- The kinds of statements, in their order. -/
def stmtKinds : List String :=
  ["read", "print", "variable_decl", "assign", "return", "call", "assert", "abort", "loop",
    "branch"]

/-- The kinds of expressions, in their order. -/
def exprKinds : List String :=
  ["call", "arith", "shift", "comparison", "identifier", "int_immediate", "float_immediate"]

/-- The kinds of tests in a branch, in their order. -/
def testKinds : List String := ["compare", "value"]

/-- The spelling of a choice. -/
def spell {α : Type} [DecidableEq α] (choices : List (String × α)) (a : α) : String :=
  ((choices.find? (·.2 = a)).map Prod.fst).getD ""

end TypedStack.SyntaxTree
