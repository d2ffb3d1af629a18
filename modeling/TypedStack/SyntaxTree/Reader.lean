import TypedStack.Json.Reader
import TypedStack.SyntaxTree.Spelling
/-!
# Reading trees

A tree is read from its JSON form. Fields may come in any order, fields that are not known are
skipped and some may be left out. A module, function, entry, parameter, location or arm may also be
written as an array of its fields in order.

Statements are the part of a tree that can nest, so all that stands inside one is held to the
nesting limit and has to be sound, skipped fields included. Everything skipped outside of
statements, or inside the location of an outermost statement, only has to be JSON.
-/

set_option autoImplicit false

namespace TypedStack

namespace SyntaxTree

/-! ## Fields -/

/-- The value of the only field of a name, if there is one. Two fields of the name are an error. -/
def only? (name : String) (fields : List (Option String × Json)) : Option (Option Json) :=
  match fields.filter (fun field => field.1 == some name) with
  | [] => some none
  | [(_, v)] => some (some v)
  | _ => none

/-- The values of the known fields of an object, in the order of the names. -/
def fieldsOf? (known : List String) (fields : List (Option String × Json)) :
    Option (List (Option Json)) :=
  if fields.all (·.1.isSome) then known.mapM (only? · fields) else none

/-- The known fields of an object, or of an array that gives them in order. Fields at the end of an
array may be left off. -/
def record? (known : List String) : Json → Option (List (Option Json))
  | .object fields => fieldsOf? known fields
  | .array items =>
    if items.length ≤ known.length then
      some (items.map some ++ List.replicate (known.length - items.length) none)
    else none
  | .scalar _ => none

/-- A field that may be left out. -/
def orDefault? {α : Type} (default : α) (read : Json → Option α) : Option Json → Option α
  | none => some default
  | some v => read v

/-- A field that may be left out or null. -/
def nullable? {α : Type} (read : Json → Option α) : Option Json → Option (Option α)
  | none => some none
  | some v => if v.isNull then some none else (read v).map some

def list? {α : Type} (read : Json → Option α) : Json → Option (List α)
  | .array items => items.mapM read
  | _ => none

/-! ## Choices -/

/-- A choice by its name. The name may also stand as the only field of an object, with the value
null, or, inside statements, the value of an empty object. -/
def choice? {α : Type} (inStatement : Bool) (choices : List (String × α)) : Json → Option α
  | .scalar (.text s) => choices.lookup s
  | .object [(some s, v)] =>
    match v with
    | .scalar .null => choices.lookup s
    | .object [] => if inStatement then choices.lookup s else none
    | _ => none
  | _ => none

/-- A kind by its name or by its number in the list. -/
def kind? (kinds : List String) (v : Json) : Option String :=
  match v with
  | .scalar (.text s) => if kinds.contains s then some s else none
  | v =>
    match v.int? with
    | some (.ofNat i) => kinds[i]?
    | _ => none

/-! ## Locations -/

def word32? (v : Json) : Option UInt32 :=
  match v.int? with
  | some (.ofNat n) => if n < UInt32.size then some (UInt32.ofNat n) else none
  | _ => none

def location? (v : Json) : Option Location :=
  match record? ["source", "line", "column"] v with
  | some [some source, some line, some column] => do
    some { source := ← source.text?, line := ← word32? line, column := ← word32? column }
  | _ => none

/-! ## Expressions -/

def int64? (v : Json) : Option Int64 :=
  match v.int? with
  | some n =>
    if Int64.minValue.toInt ≤ n ∧ n ≤ Int64.maxValue.toInt then some (Int64.ofInt n) else none
  | none => none

/-- The location of a node. -/
def locationOf? (fields : List (Option String × Json)) : Option Location := do
  orDefault? {} location? (← only? "loc" fields)

/-- The kind of a node. -/
def kindOf? (kinds : List String) (fields : List (Option String × Json)) : Option String := do
  kind? kinds (← (← only? "kind" fields))

/-- An expression, at most `fuel` expressions deep. -/
def expr? : Nat → Json → Option Expr
  | fuel + 1, .object fields => do
    let loc ← locationOf? fields
    match ← kindOf? exprKinds fields with
    | "call" =>
      match fieldsOf? ["name", "args"] fields with
      | some [some name, args] =>
        some (.call loc (← name.text?) (← orDefault? [] (list? (expr? fuel)) args))
      | _ => none
    | "arith" =>
      match fieldsOf? ["op", "lhs", "rhs"] fields with
      | some [some op, some lhs, some rhs] =>
        some (.arith loc (← choice? true arithOps op) (← expr? fuel lhs) (← expr? fuel rhs))
      | _ => none
    | "shift" =>
      match fieldsOf? ["direction", "lhs", "rhs"] fields with
      | some [some kind, some lhs, some rhs] =>
        some (.shift loc (← choice? true shiftKinds kind) (← expr? fuel lhs) (← expr? fuel rhs))
      | _ => none
    | "comparison" =>
      match fieldsOf? ["op", "lhs", "rhs"] fields with
      | some [some op, some lhs, some rhs] =>
        some
          (.comparison loc (← choice? true comparisons op) (← expr? fuel lhs) (← expr? fuel rhs))
      | _ => none
    | "identifier" =>
      match fieldsOf? ["name"] fields with
      | some [some name] => some (.variable loc (← name.text?))
      | _ => none
    | "int_immediate" =>
      match fieldsOf? ["value"] fields with
      | some [some value] => some (.int loc (← int64? value))
      | _ => none
    | "float_immediate" =>
      match fieldsOf? ["value"] fields with
      | some [some value] => some (.double loc (← value.double?))
      | _ => none
    | _ => none
  | _, _ => none

/-! ## Statements -/

/-- The test of an arm: an object, or an array of its kind and its fields. -/
def test? (fuel : Nat) (v : Json) : Option BranchTest := do
  let (kind, fields) ←
    match v with
    | .object fields => do
      let kind ← kindOf? testKinds fields
      let known := if kind == "compare" then ["op", "value"] else ["value"]
      some (kind, ← fieldsOf? known fields)
    | .array (kind :: items) => do some (← kind? testKinds kind, items.map some)
    | _ => none
  match kind, fields with
  | "compare", [some op, some value] =>
    some (.compare (← choice? true comparisons op) (← expr? fuel value))
  | "value", [some value] => some (.equals (← expr? fuel value))
  | _, _ => none

/-- An arm of a branch, from a reader of its test and one of the statements in its body. -/
def arm? (test : Json → Option BranchTest) (stmt : Json → Option Stmt) (v : Json) :
    Option BranchArm :=
  match record? ["condition", "body"] v with
  | some [some condition, some body] => do some (.mk (← test condition) (← list? stmt body))
  | _ => none

/-- A statement, at most `fuel` statements deep. -/
def stmt? : Nat → Json → Option Stmt
  | fuel + 1, .object fields => do
    let loc ← locationOf? fields
    match ← kindOf? stmtKinds fields with
    | "read" =>
      match fieldsOf? ["target"] fields with
      | some [some target] => some (.read loc (← target.text?))
      | _ => none
    | "print" =>
      match fieldsOf? ["value"] fields with
      | some [some value] => some (.print loc (← expr? fuel value))
      | _ => none
    | "variable_decl" =>
      match fieldsOf? ["name", "type", "init"] fields with
      | some [some name, some type, init] =>
        some (.declare loc (← name.text?) (← choice? true types type)
          (← nullable? (expr? fuel) init))
      | _ => none
    | "assign" =>
      match fieldsOf? ["name", "value"] fields with
      | some [some name, some value] => some (.assign loc (← name.text?) (← expr? fuel value))
      | _ => none
    | "return" =>
      match fieldsOf? ["value"] fields with
      | some [value] => some (.ret loc (← nullable? (expr? fuel) value))
      | _ => none
    | "call" =>
      match fieldsOf? ["name", "args"] fields with
      | some [some name, args] =>
        some (.call loc (← name.text?) (← orDefault? [] (list? (expr? fuel)) args))
      | _ => none
    | "assert" =>
      match fieldsOf? ["condition"] fields with
      | some [some condition] => some (.assert loc (← expr? fuel condition))
      | _ => none
    | "abort" => some (.abort loc)
    | "loop" =>
      match fieldsOf? ["body", "condition"] fields with
      | some [some body, some condition] =>
        some (.loop loc (← list? (stmt? fuel) body) (← expr? fuel condition))
      | _ => none
    | "branch" =>
      match fieldsOf? ["target", "paths", "default"] fields with
      | some [some target, some arms, otherwise] =>
        some (.branch loc (← target.text?) (← list? (arm? (test? fuel) (stmt? fuel)) arms)
          (← nullable? (list? (stmt? fuel)) otherwise))
      | _ => none
    | _ => none
  | _, _ => none

/-- The number of arrays and objects that may be open at once. -/
def depthLimit : Nat := 127

/-- A statement that is not inside another one, in a place where `room` more arrays and objects may
be open at once, the statement's own included. -/
def outerStmt? (room : Nat) (v : Json) : Option Stmt :=
  match v with
  | .object fields =>
    if fields.all fun (name, v) => name.isSome && (name == some "loc" || v.isSound (room - 1)) then
      stmt? depthLimit v
    else none
  | _ => none

/-! ## Modules -/

def param? (v : Json) : Option Param :=
  match record? ["name", "type"] v with
  | some [some name, some type] => do
    some { name := ← name.text?, type := ← choice? false types type }
  | _ => none

/-- A function stands in the list of the module, and its statements in a list of its own. -/
def function? (v : Json) : Option Function :=
  match record? ["name", "return_type", "params", "body", "loc"] v with
  | some [some name, some result, params, some body, loc] => do
    some { name := ← name.text?
           result := ← choice? false types result
           params := ← orDefault? [] (list? param?) params
           body := ← list? (outerStmt? (depthLimit - 4)) body
           loc := ← orDefault? {} location? loc }
  | _ => none

/-- The entry stands in the module, and its statements in a list of its own. -/
def entry? (v : Json) : Option Entry :=
  match record? ["body", "loc"] v with
  | some [some body, loc] => do
    some { body := ← list? (outerStmt? (depthLimit - 3)) body
           loc := ← orDefault? {} location? loc }
  | _ => none

end SyntaxTree

open SyntaxTree

/-- The module of a JSON value. -/
def Module.ofJson? (v : Json) : Option Module :=
  match record? ["name", "functions", "entry"] v with
  | some [name, functions, entry] => do
    some { name := ← orDefault? "Main" Json.text? name
           functions := ← orDefault? [] (list? SyntaxTree.function?) functions
           entry := ← nullable? SyntaxTree.entry? entry }
  | _ => none

/-- The module of an interchange text. -/
def Module.parse? (s : String) : Option Module := Json.parse? s >>= Module.ofJson?

end TypedStack
