import TypedStack.Json.Printer
import TypedStack.SyntaxTree.Spelling
/-!
# Writing trees

The interchange form of a tree: an object for each node, with its kind first and its location last.
All fields are written, a missing part as null. A number that has no JSON form is written as null
too, and then cannot be read back.
-/

set_option autoImplicit false

namespace TypedStack

open SyntaxTree

namespace Json

def ofText (s : String) : Json := .scalar (.text s)

def ofInt (n : Int) : Json := .scalar (.number (.ofInt n))

def null : Json := .scalar .null

def ofDouble (bits : UInt64) : Json :=
  match Number.ofDouble? bits with
  | some n => .scalar (.number n)
  | none => null

/-- An object with named fields. -/
def record (fields : List (String × Json)) : Json :=
  .object (fields.map fun (name, v) => (some name, v))

end Json

def Location.toJson (l : Location) : Json :=
  .record [("source", .ofText l.source), ("line", .ofInt l.line.toNat),
    ("column", .ofInt l.column.toNat)]

/-- A node of a kind at a place. -/
def nodeJson (kind : String) (loc : Location) (fields : List (String × Json)) : Json :=
  .record (("kind", .ofText kind) :: fields ++ [("loc", loc.toJson)])

mutual

def Expr.toJson : Expr → Json
  | .call l name args =>
    nodeJson "call" l [("name", .ofText name), ("args", .array (exprsJson args))]
  | .arith l op a b =>
    nodeJson "arith" l
      [("op", .ofText (spell arithOps op)), ("lhs", a.toJson), ("rhs", b.toJson)]
  | .shift l kind a b =>
    nodeJson "shift" l
      [("direction", .ofText (spell shiftKinds kind)), ("lhs", a.toJson), ("rhs", b.toJson)]
  | .comparison l op a b =>
    nodeJson "comparison" l
      [("op", .ofText (spell comparisons op)), ("lhs", a.toJson), ("rhs", b.toJson)]
  | .variable l name => nodeJson "identifier" l [("name", .ofText name)]
  | .int l n => nodeJson "int_immediate" l [("value", .ofInt n.toInt)]
  | .double l bits => nodeJson "float_immediate" l [("value", .ofDouble bits)]

def exprsJson : List Expr → List Json
  | [] => []
  | e :: rest => e.toJson :: exprsJson rest

end

def optionJson {α : Type} (toJson : α → Json) : Option α → Json
  | none => .null
  | some a => toJson a

def typeJson (t : ResultType) : Json := .ofText (spell types t)

def BranchTest.toJson : BranchTest → Json
  | .compare op v =>
    .record [("kind", .ofText "compare"), ("op", .ofText (spell comparisons op)),
      ("value", v.toJson)]
  | .equals v => .record [("kind", .ofText "value"), ("value", v.toJson)]

mutual

def Stmt.toJson : Stmt → Json
  | .read l target => nodeJson "read" l [("target", .ofText target)]
  | .print l v => nodeJson "print" l [("value", v.toJson)]
  | .declare l name t init =>
    nodeJson "variable_decl" l
      [("name", .ofText name), ("type", typeJson t), ("init", optionJson Expr.toJson init)]
  | .assign l name v => nodeJson "assign" l [("name", .ofText name), ("value", v.toJson)]
  | .ret l v => nodeJson "return" l [("value", optionJson Expr.toJson v)]
  | .call l name args =>
    nodeJson "call" l [("name", .ofText name), ("args", .array (exprsJson args))]
  | .assert l c => nodeJson "assert" l [("condition", c.toJson)]
  | .abort l => nodeJson "abort" l []
  | .loop l body c =>
    nodeJson "loop" l [("body", .array (stmtsJson body)), ("condition", c.toJson)]
  | .branch l target arms none =>
    nodeJson "branch" l
      [("target", .ofText target), ("paths", .array (armsJson arms)), ("default", .null)]
  | .branch l target arms (some body) =>
    nodeJson "branch" l
      [("target", .ofText target), ("paths", .array (armsJson arms)),
        ("default", .array (stmtsJson body))]

def stmtsJson : List Stmt → List Json
  | [] => []
  | s :: rest => s.toJson :: stmtsJson rest

def armsJson : List BranchArm → List Json
  | [] => []
  | .mk test body :: rest =>
    .record [("condition", test.toJson), ("body", .array (stmtsJson body))] :: armsJson rest

end

def Param.toJson (p : Param) : Json :=
  .record [("name", .ofText p.name), ("type", typeJson p.type)]

def Function.toJson (f : Function) : Json :=
  .record [("name", .ofText f.name), ("return_type", typeJson f.result),
    ("params", .array (f.params.map Param.toJson)), ("body", .array (stmtsJson f.body)),
    ("loc", f.loc.toJson)]

def Entry.toJson (e : Entry) : Json :=
  .record [("body", .array (stmtsJson e.body)), ("loc", e.loc.toJson)]

def Module.toJson (m : Module) : Json :=
  .record [("name", .ofText m.name), ("functions", .array (m.functions.map Function.toJson)),
    ("entry", optionJson Entry.toJson m.entry)]

/-- The interchange text of a module. -/
def Module.render (m : Module) : String := m.toJson.render

end TypedStack
