import TypedStack.Compile.Typing
/-!
# Generating code

Function bodies become symbolic code. An expression leaves its value on the operand stack, above
what was there before; a statement leaves the stack as it was.
-/

set_option autoImplicit false

namespace TypedStack.Compile

open Assembly

/-- What the body of a function is compiled against. -/
structure Surroundings where
  functions : FunctionTable
  /-- What the function gives back. -/
  result : ResultType

/-- A function while its body is being compiled. -/
structure Body where
  scope : Scope
  draft : Draft

/-- A step of code generation. -/
abbrev Lowering := StateT Body (Except CompileError)

namespace Lowering

/-! ## Writing instructions -/

def emit (o : SymbolicOp) : Lowering Unit :=
  modify fun b => { b with draft := b.draft.emit (.op o) }

def mark (l : Label) : Lowering Unit := modify fun b => { b with draft := b.draft.mark l }

def setLine (line : UInt32) : Lowering Unit :=
  modify fun b => { b with draft := b.draft.setLine line }

def freshLabel : Lowering Label :=
  modifyGet fun b =>
    let (l, draft) := b.draft.freshLabel
    (l, { b with draft })

def push (v : Value) : Lowering Unit := emit (.const (.value v))

/-- Adds a slot to the block. -/
def addSlot (t : ValueType) : Lowering UInt16 :=
  modifyGet fun b =>
    let (slot, draft) := b.draft.addSlot t
    (slot, { b with draft })

/-! ## Variables -/

/-- Declares a variable in the scope. -/
def bindName (name : String) (type : ResultType) (loc : Location) : Lowering Variable := fun b =>
  let ⟨scope, draft⟩ := b
  match (Scope.declare name type loc).on scope with
  | (.ok v, scope) => .ok (v, { scope, draft })
  | (.error e, _) => .error e

def lookup (name : String) (loc : Location) : Lowering Variable := do
  liftM ((← get).scope.lookup name loc)

def typeOf (s : Surroundings) (e : Expr) : Lowering ResultType := do
  liftM (Compile.typeOf s.functions (← get).scope e)

/-! ## Short sequences -/

/-- Converts the top value. -/
def cast (source target : ResultType) (loc : Location) : Lowering Unit := do
  checkCast source target loc
  match source, target with
  | some a, some b => if a ≠ b then emit (.cast a b)
  | _, _ => pure ()

/-- Turns the ordering signal on top into a truth value. -/
def signalToBool (relation : Relation) : Lowering Unit := do
  let yes ← freshLabel
  let done ← freshLabel
  emit (.jumpIf relation yes)
  push (.bool false)
  emit (.jump done)
  mark yes
  push (.bool true)
  mark done

/-- Writes a message and ends the program. -/
def fatal (message : String) : Lowering Unit := do
  emit (.printError message)
  push (.int (-1))
  emit .exit

/-- Drops a value that may be there. -/
def drop (t : ResultType) : Lowering Unit :=
  match t with
  | some t => emit (.pop t)
  | none => pure ()

/-! ## Expressions -/

mutual

/-- Leaves the value of an expression, if it has one, on the stack. -/
def expr (s : Surroundings) : Expr → Lowering ResultType
  | .call loc name args => do
    let f ← liftM (s.functions.lookup name loc)
    if args.length ≠ f.params.length then
      throw (.broken loc (.arityMismatch name f.params.length args.length))
    arguments s args f.params
    emit (.call ⟨name, ← liftM f.signature⟩)
    pure f.result
  | .arith loc op lhs rhs => do
    let t := promote (← typeOf s lhs) (← typeOf s rhs)
    let v ← liftM (valueType t loc)
    if v = .bool then throw (.broken loc .boolArithmetic)
    cast (← expr s lhs) t lhs.loc
    cast (← expr s rhs) t rhs.loc
    emit (.arith op v)
    pure t
  | .shift loc kind lhs rhs => do
    let t ← typeOf s lhs
    discard <| liftM (valueType t lhs.loc)
    cast (← expr s lhs) (some .int) lhs.loc
    cast (← expr s rhs) (some .int) rhs.loc
    emit (.shift kind)
    cast (some .int) t loc
    pure t
  | .comparison loc op lhs rhs => do
    let t := promote (← typeOf s lhs) (← typeOf s rhs)
    let v ← liftM (valueType t loc)
    cast (← expr s lhs) t lhs.loc
    cast (← expr s rhs) t rhs.loc
    emit (.compare v)
    signalToBool op.relation
    pure (some .bool)
  | .variable loc name => do
    let v ← lookup name loc
    emit (.load v.type v.slot)
    pure (some v.type)
  | .int _ n => do
    push (.int n)
    pure (some .int)
  | .double _ bits => do
    push (.double bits)
    pure (some .double)

/-- Leaves the arguments of a call on the stack, each converted to the type of its parameter. -/
def arguments (s : Surroundings) : List Expr → List ResultType → Lowering Unit
  | e :: rest, t :: types => do
    cast (← expr s e) t e.loc
    arguments s rest types
  | _, _ => pure ()

end

/-- Leaves the value of an expression, converted to a type, on the stack. -/
def exprAs (s : Surroundings) (e : Expr) (t : ResultType) : Lowering Unit := do
  cast (← expr s e) t e.loc

/-! ## Statements -/

def giveBack (s : Surroundings) (loc : Location) : Option Expr → Lowering Unit
  | some e => do
    match s.result with
    | some t =>
      exprAs s e s.result
      emit (.ret t)
    | none =>
      -- the value is computed for its effects only
      drop (← expr s e)
      setLine loc.line
      emit .retVoid
  | none => do
    match s.result with
    | some t =>
      push (.zero t)
      emit (.ret t)
    | none => emit .retVoid

def declare (s : Surroundings) (loc : Location) (name : String) (type : ResultType)
    (init : Option Expr) : Lowering Unit := do
  if (← get).scope.contains name then throw (.broken loc (.redeclaration name))
  let t ← liftM (valueType type loc)
  match init with
  | some e => exprAs s e type
  | none => push (.zero t)
  -- the scope numbers its variables as the block numbers its slots
  discard (bindName name type loc)
  let slot ← addSlot t
  emit (.store t slot)

/-- The tests of a branch in order: each compares the target with the value of its arm and jumps to
the label of the arm if it holds. -/
def tests (s : Surroundings) (target : Variable) (loc : Location) :
    List BranchArm → Lowering (List Label)
  | [] => pure []
  | .mk test _ :: rest => do
    let value := test.value
    let common := promote (some target.type) (← typeOf s value)
    let t ← liftM (valueType common value.loc)
    emit (.load target.type target.slot)
    cast (some target.type) common loc
    exprAs s value common
    emit (.compare t)
    let arm ← freshLabel
    emit (.jumpIf test.relation arm)
    pure (arm :: (← tests s target loc rest))

mutual

def stmt (s : Surroundings) : Stmt → Lowering Unit
  | .read loc target => do
    setLine loc.line
    let v ← lookup target loc
    emit (.read v.type)
    emit (.store v.type v.slot)
  | .print loc value => do
    setLine loc.line
    let t ← liftM (valueType (← typeOf s value) value.loc)
    discard (expr s value)
    emit (.print t)
  | .declare loc name type init => do
    setLine loc.line
    declare s loc name type init
  | .assign loc name value => do
    setLine loc.line
    let v ← lookup name loc
    exprAs s value (some v.type)
    emit (.store v.type v.slot)
  | .ret loc value => do
    setLine loc.line
    giveBack s loc value
  | .call loc name args => do
    setLine loc.line
    drop (← expr s (.call loc name args))
  | .assert loc condition => do
    setLine loc.line
    let ok ← freshLabel
    exprAs s condition (some .bool)
    emit (.jumpIfTrue ok)
    fatal s!"Assertion failed at {loc.text}"
    mark ok
  | .abort loc => do
    setLine loc.line
    fatal s!"Program aborted at {loc.text}"
  | .loop loc body condition => do
    setLine loc.line
    let start ← freshLabel
    mark start
    stmts s body
    setLine loc.line
    exprAs s condition (some .bool)
    emit (.jumpIfTrue start)
  | .branch loc target arms none => do
    setLine loc.line
    let v ← lookup target loc
    let done ← freshLabel
    let labels ← tests s v loc arms
    emit (.jump done)
    bodies s done arms labels
    mark done
  | .branch loc target arms (some otherwise) => do
    setLine loc.line
    let v ← lookup target loc
    let done ← freshLabel
    let labels ← tests s v loc arms
    let default ← freshLabel
    emit (.jump default)
    bodies s done arms labels
    mark default
    stmts s otherwise
    mark done

def stmts (s : Surroundings) : List Stmt → Lowering Unit
  | [] => pure ()
  | first :: rest => do
    stmt s first
    stmts s rest

/-- The bodies of the arms, each under its label and followed by a jump to the end. -/
def bodies (s : Surroundings) (done : Label) : List BranchArm → List Label → Lowering Unit
  | .mk _ body :: rest, label :: labels => do
    mark label
    stmts s body
    emit (.jump done)
    bodies s done rest labels
  | _, _ => pure ()

end

end Lowering

/-! ## Functions -/

/-- The block of a function. A body that runs off its end gives back the zero value. -/
def lowerBody (functions : FunctionTable) (name : String) (params : List Param)
    (result : ResultType) (body : List Stmt) (loc : Location) :
    Except CompileError Assembly.Block := do
  let scope ← Scope.ofParams params loc
  let types ← params.mapM (fun p => valueType p.type loc)
  let s : Surroundings := { functions, result }
  let draft := (Draft.start name ⟨types, result⟩).setLine loc.line
  let generate : Lowering Unit := do
    Lowering.stmts s body
    Lowering.giveBack s loc none
  let ((), b) ← generate { scope, draft }
  pure b.draft.block

def lowerFunction (functions : FunctionTable) (f : Function) :
    Except CompileError Assembly.Block :=
  lowerBody functions f.name f.params f.result f.body f.loc

/-- The block of the program's body. -/
def lowerEntry (functions : FunctionTable) (e : Entry) : Except CompileError Assembly.Block :=
  lowerBody functions mainName [] (some .int) e.body e.loc

end TypedStack.Compile
