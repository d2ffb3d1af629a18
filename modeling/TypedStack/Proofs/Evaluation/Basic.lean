import TypedStack.Machine.State
import TypedStack.SyntaxTree.Basic
import TypedStack.Value.Arith
/-!
# What modules mean

A big-step semantics on the syntax tree. Nothing here knows of code, slots or offsets: a call has
an environment of its own, an expression has a value in it, and a statement changes it or gives back
from the call. Values carry their types, so conversions are read off the operands. The operations on
values are those of the program; what they do, they are shown to do in `Proofs.Value.Arith`.

A program may run for ever. Two things alone can make it do so, calls and loops, and both are
counted: `Module.invoke n` allows `n` calls inside each other and `n` rounds of every loop, and
what goes beyond is `unfinished`.
-/

set_option autoImplicit false

namespace TypedStack

namespace Evaluation

/-- How far an evaluation gets. -/
inductive Result (α : Type) where
  | value (a : α) (c : Console)
  /-- The program is over, with a status or with an error. -/
  | ended (r : Except RuntimeError Int32) (c : Console)
  /-- The calls or rounds allowed are used up. -/
  | unfinished
  /-- The tree has no meaning, as with a variable that does not exist. -/
  | stuck

/-- Goes on with a value. -/
def Result.andThen {α β : Type} (r : Result α) (f : α → Console → Result β) : Result β :=
  match r with
  | .value a c => f a c
  | .ended r c => .ended r c
  | .unfinished => .unfinished
  | .stuck => .stuck

/-- An evaluation, which reads from the console and writes to it. -/
def Eval (α : Type) : Type := Console → Result α

instance : Monad Eval where
  pure a := fun c => .value a c
  bind x f := fun c => (x c).andThen f

namespace Eval

def stuck {α : Type} : Eval α := fun _ => .stuck

def unfinished {α : Type} : Eval α := fun _ => .unfinished

/-- Ends the program with a status. -/
def exit {α : Type} (status : Int32) : Eval α := fun c => .ended (.ok status) c

/-- Ends the program with an error. -/
def fail {α : Type} (e : RuntimeError) : Eval α := fun c => .ended (.error e) c

/-- What has to be there. -/
def demand {α : Type} : Option α → Eval α
  | some a => pure a
  | none => stuck

/-- Reads a value of a type. -/
def read (t : ValueType) : Eval Value := fun c =>
  match c.input.read t with
  | (.ok v, input) => .value v { c with input }
  | (.error e, _) => .ended (.error e) c

/-- Writes a value on a line of the output. -/
def print (v : Value) : Eval Unit := fun c =>
  .value () { c with outputLines := v.text :: c.outputLines }

/-- Writes a message on a line of the error stream and ends the program. -/
def fatal {α : Type} (message : String) : Eval α := fun c =>
  .ended (.ok (-1)) { c with errorLines := message :: c.errorLines }

end Eval

/-- The values of the variables of one call. -/
abbrev Env := String → Option Value

/-- The environment with a variable changed. -/
def Env.set (env : Env) (name : String) (v : Value) : Env :=
  fun x => if x = name then some v else env x

/-- The wider of two types. -/
def commonType (a b : ValueType) : ValueType :=
  if a = .double ∨ b = .double then .double
  else if a = .float ∨ b = .float then .float
  else if a = .int ∨ b = .int then .int
  else if a = .char ∨ b = .char then .char
  else .bool

/-- Whether a comparison holds of two operands that stand in this order. -/
def holds : Comparison → Ordering → Bool
  | .lt, o => o == .lt
  | .gt, o => o == .gt
  | .le, o => o != .gt
  | .ge, o => o != .lt
  | .eq, o => o == .eq

/-- Two operands, brought to their common type, in an arithmetic operation. -/
def arithmetic (op : ArithOp) (a b : Value) : Eval Value :=
  let t := commonType a.type b.type
  match op.apply (a.cast t) (b.cast t) with
  | .ok v => pure v
  | .error .divisionByZero => .fail .divisionByZero
  | .error (.notNumeric _) => .stuck

/-- The left operand is shifted as an integer and goes back to its type. -/
def shifted (kind : ShiftKind) (a b : Value) : Value :=
  (Value.int (kind.apply a.toInt b.toInt)).cast a.type

/-- Whether a comparison holds of two operands, brought to their common type. -/
def compares (op : Comparison) (a b : Value) : Eval Bool :=
  let t := commonType a.type b.type
  match (a.cast t).order (b.cast t) with
  | some o => pure (holds op o)
  | none => .stuck

/-- What calling a function by name with arguments does. -/
abbrev Calls := String → List Value → Eval (Option Value)

end Evaluation

open Evaluation

/-! ## Expressions -/

mutual

/-- The value of an expression; a call may have none. -/
def Expr.eval (calls : Calls) (env : Env) : Expr → Eval (Option Value)
  | .call _ name args => do calls name (← Expr.evalAll calls env args)
  | .arith _ op lhs rhs => do
    let a ← .demand (← lhs.eval calls env)
    let b ← .demand (← rhs.eval calls env)
    pure (some (← arithmetic op a b))
  | .shift _ kind lhs rhs => do
    let a ← .demand (← lhs.eval calls env)
    let b ← .demand (← rhs.eval calls env)
    pure (some (shifted kind a b))
  | .comparison _ op lhs rhs => do
    let a ← .demand (← lhs.eval calls env)
    let b ← .demand (← rhs.eval calls env)
    pure (some (.bool (← compares op a b)))
  | .variable _ name => do pure (some (← .demand (env name)))
  | .int _ n => pure (some (.int n))
  | .double _ bits => pure (some (.double bits))

/-- The values of expressions, from left to right. -/
def Expr.evalAll (calls : Calls) (env : Env) : List Expr → Eval (List Value)
  | [] => pure []
  | e :: rest => do
    let v ← .demand (← e.eval calls env)
    pure (v :: (← Expr.evalAll calls env rest))

end

/-- The value of an expression that must have one. -/
def Expr.operand (calls : Calls) (env : Env) (e : Expr) : Eval Value := do
  .demand (← e.eval calls env)

/-! ## Statements -/

namespace Evaluation

/-- Where control goes after a statement. -/
inductive Control where
  /-- To the next statement, in this environment. -/
  | next (env : Env)
  /-- Out of the call, with what it gives back. -/
  | returned (v : Option Value)

/-- What a body is executed against. -/
structure Setting where
  calls : Calls
  /-- How many rounds a loop may take. -/
  rounds : Nat
  /-- What the function gives back. -/
  result : ResultType

/-- Runs a body, and again as long as the condition holds after it. -/
def repeatWhile (body : Env → Eval Control) (condition : Env → Eval Value) :
    Nat → Env → Eval Control
  | 0, _ => .unfinished
  | rounds + 1, env => do
    match ← body env with
    | .returned v => pure (.returned v)
    | .next env =>
      if (← condition env).toBool then repeatWhile body condition rounds env
      else pure (.next env)

end Evaluation

/-- Whether the test of an arm holds of the target. -/
def BranchTest.eval (calls : Calls) (env : Env) (target : Value) : BranchTest → Eval Bool
  | .compare op value => do compares op target (← value.operand calls env)
  | .equals value => do compares .eq target (← value.operand calls env)

mutual

/-- What a statement does. -/
def Stmt.exec (s : Setting) (env : Env) : Stmt → Eval Control
  | .read _ target => do
    let old ← .demand (env target)
    pure (.next (env.set target (← .read old.type)))
  | .print _ value => do
    .print (← value.operand s.calls env)
    pure (.next env)
  | .declare _ name type init => do
    let t ← .demand type
    match init with
    | some e => pure (.next (env.set name ((← e.operand s.calls env).cast t)))
    | none => pure (.next (env.set name (.zero t)))
  | .assign _ name value => do
    let old ← .demand (env name)
    pure (.next (env.set name ((← value.operand s.calls env).cast old.type)))
  | .ret _ none => pure (.returned (s.result.map .zero))
  | .ret _ (some value) => do
    let v ← value.eval s.calls env
    match s.result with
    | some t => pure (.returned (some ((← .demand v).cast t)))
    | none => pure (.returned none)
  | .call loc name args => do
    let _ ← (Expr.call loc name args).eval s.calls env
    pure (.next env)
  | .assert loc condition => do
    if (← condition.operand s.calls env).toBool then pure (.next env)
    else .fatal s!"Assertion failed at {loc.text}"
  | .abort loc => .fatal s!"Program aborted at {loc.text}"
  | .loop _ body condition =>
    repeatWhile (fun env => Stmt.execAll s env body) (fun env => condition.operand s.calls env)
      s.rounds env
  | .branch _ target arms none => do
    let v ← .demand (env target)
    BranchArm.execFirst s env v (pure (.next env)) arms
  | .branch _ target arms (some otherwise) => do
    let v ← .demand (env target)
    BranchArm.execFirst s env v (Stmt.execAll s env otherwise) arms

/-- Statements one after the other, up to the first that gives back. -/
def Stmt.execAll (s : Setting) (env : Env) : List Stmt → Eval Control
  | [] => pure (.next env)
  | first :: rest => do
    match ← first.exec s env with
    | .next env => Stmt.execAll s env rest
    | .returned v => pure (.returned v)

/-- The first arm whose test holds of the target, or else the last argument. -/
def BranchArm.execFirst (s : Setting) (env : Env) (target : Value) (otherwise : Eval Control) :
    List BranchArm → Eval Control
  | [] => otherwise
  | .mk test body :: rest => do
    if ← test.eval s.calls env target then Stmt.execAll s env body
    else BranchArm.execFirst s env target otherwise rest

end

/-! ## Modules -/

mutual

/-- The variables that a statement declares, wherever in it that is. -/
def Stmt.declared : Stmt → List (String × ValueType)
  | .declare _ name (some t) _ => [(name, t)]
  | .loop _ body _ => Stmt.declaredAll body
  | .branch _ _ arms none => BranchArm.declaredAll arms
  | .branch _ _ arms (some otherwise) =>
    BranchArm.declaredAll arms ++ Stmt.declaredAll otherwise
  | _ => []

def Stmt.declaredAll : List Stmt → List (String × ValueType)
  | [] => []
  | first :: rest => first.declared ++ Stmt.declaredAll rest

def BranchArm.declaredAll : List BranchArm → List (String × ValueType)
  | [] => []
  | .mk _ body :: rest => Stmt.declaredAll body ++ BranchArm.declaredAll rest

end

namespace Evaluation

/-- The parameters with the arguments converted to their types. -/
def bindArguments : List Param → List Value → Option (List (String × Value))
  | [], [] => some []
  | ⟨name, some t⟩ :: params, v :: args =>
    (bindArguments params args).map ((name, v.cast t) :: ·)
  | _, _ => none

/-- The environment in which a body begins: every variable is there, and those that are no
parameters hold zero. -/
def startEnv (arguments : List (String × Value)) (body : List Stmt) : Env :=
  let zeros := (Stmt.declaredAll body).map fun (name, t) => (name, Value.zero t)
  fun name => (arguments ++ zeros).lookup name

/-- What a call of a body gives back. A body that runs off its end gives back zero. -/
def callBody (s : Setting) (params : List Param) (body : List Stmt) (args : List Value) :
    Eval (Option Value) := do
  let arguments ← .demand (bindArguments params args)
  match ← Stmt.execAll s (startEnv arguments body) body with
  | .next _ => pure (s.result.map .zero)
  | .returned v => pure v

end Evaluation

/-- Calls a function of a module, with at most `n` calls inside each other. -/
def Module.invoke (m : Module) : Nat → Calls
  | 0, _, _ => .unfinished
  | n + 1, name, args => do
    let f ← .demand (m.function? name)
    callBody ⟨m.invoke n, n, f.result⟩ f.params f.body args

/-- The result of the program's body, cut to 32 bits, is the status. -/
def Module.evaluate (m : Module) (n : Nat) : Eval Empty := do
  let entry ← .demand m.entry
  match ← callBody ⟨m.invoke n, n, some .int⟩ [] entry.body [] with
  | some (.int status) => .exit status.toInt32
  | _ => .stuck

/-- The console of a program that has made its input ready. -/
def Console.ready (input : List UInt8) : Console := { Console.ofInput input with opened := true }

/-- On some input the program ends, with a status or with an error, after it has written what the
console holds. -/
def Module.Ends (m : Module) (input : List UInt8) (r : Except RuntimeError Int32) (c : Console) :
    Prop :=
  ∃ n, m.evaluate n (.ready input) = .ended r c

/-- On some input the program runs for ever. -/
def Module.Diverges (m : Module) (input : List UInt8) : Prop :=
  ∀ n, m.evaluate n (.ready input) = .unfinished

end TypedStack
