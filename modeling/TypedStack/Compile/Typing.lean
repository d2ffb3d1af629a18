import TypedStack.Compile.Scope
/-!
# Types of expressions

Operands are brought to the wider of their two types, and any two value types convert into each
other. An expression without a value has no type; it is reported where its value would be used.
-/

set_option autoImplicit false

namespace TypedStack.Compile

/-- The place of a type in the order of promotion. -/
def rank : ValueType → Nat
  | .double => 4
  | .float => 3
  | .int => 2
  | .char => 1
  | .bool => 0

/-- The common type of two operands: the wider one, and none if one is missing. -/
def promote : ResultType → ResultType → ResultType
  | some a, some b => if rank b ≤ rank a then some a else some b
  | _, _ => none

/-- Any value can be converted to any type; only a missing one cannot take part. -/
def checkCast (source target : ResultType) (loc : Location) : Except CompileError Unit :=
  match source, target with
  | some _, some _ => .ok ()
  | _, _ => .error (.broken loc .voidValueUsed)

/-! ## Functions -/

/-- A function as its callers see it. -/
structure FunctionSig where
  params : List ResultType
  result : ResultType
  loc : Location
  deriving DecidableEq, Repr

namespace FunctionSig

def ofFunction (f : Function) : FunctionSig := ⟨f.params.map (·.type), f.result, f.loc⟩

/-- The signature of the function's block. -/
def signature (f : FunctionSig) : Except CompileError Signature := do
  pure ⟨← f.params.mapM (valueType · f.loc), f.result⟩

end FunctionSig

/-- The functions of a module by name. -/
abbrev FunctionTable := Std.HashMap String FunctionSig

namespace FunctionTable

/-- Adds a function, unless its name is taken. -/
def add? (t : FunctionTable) (name : String) (f : FunctionSig) : Option FunctionTable :=
  if t.contains name then none else some (t.insert name f)

def lookup (t : FunctionTable) (name : String) (loc : Location) :
    Except CompileError FunctionSig :=
  match t[name]? with
  | some f => .ok f
  | none => .error (.broken loc (.undefinedFunction name))

end FunctionTable

/-! ## Expressions -/

/-- The type of an expression. Arguments and the operands of a comparison have no part in it. -/
def typeOf (functions : FunctionTable) (scope : Scope) : Expr → Except CompileError ResultType
  | .call loc name _ => do pure (← functions.lookup name loc).result
  | .arith _ _ lhs rhs => do
    pure (promote (← typeOf functions scope lhs) (← typeOf functions scope rhs))
  | .shift _ _ lhs _ => typeOf functions scope lhs
  | .comparison _ _ _ _ => pure (some .bool)
  | .variable loc name => do pure (some (← scope.lookup name loc).type)
  | .int _ _ => pure (some .int)
  | .double _ _ => pure (some .double)

end TypedStack.Compile
