import Std.Data.HashMap
import TypedStack.Compile.Error
/-!
# Variables of a function

Scoping is flat: a name that is declared anywhere in a function stays visible up to its end, and its
slot is never used again.
-/

set_option autoImplicit false

namespace TypedStack.Compile

structure Variable where
  name : String
  type : ValueType
  /-- The number of its slot. -/
  slot : UInt16
  isParam : Bool
  deriving DecidableEq, Repr

/-- The variables bound so far, in the order of their slots, and where to find each name among
them. -/
structure Scope where
  bound : Array Variable := #[]
  byName : Std.HashMap String Nat := ∅

/-- The type of a value that has to be there. -/
def valueType (t : ResultType) (loc : Location) : Except CompileError ValueType :=
  match t with
  | some t => .ok t
  | none => .error (.broken loc .voidValueUsed)

namespace Scope

def contains (s : Scope) (name : String) : Bool := s.byName.contains name

/-- The variable of a name: the index leads to its place. -/
def find? (s : Scope) (name : String) : Option Variable := s.byName[name]?.bind (s.bound[·]?)

def lookup (s : Scope) (name : String) (loc : Location) : Except CompileError Variable :=
  match s.find? name with
  | some v => .ok v
  | none => .error (.broken loc (.undefinedVariable name))

/-- Slots are numbered in 16 bits. -/
def capacity : Nat := 65536

/-- The variable that a name would be bound to: the one in the next slot. -/
def next (s : Scope) (name : String) (type : ResultType) (isParam : Bool) (loc : Location) :
    Except CompileError Variable := do
  let type ← valueType type loc
  if s.contains name then throw (.broken loc (.redeclaration name))
  if capacity ≤ s.bound.size then throw (.internal .tooManyVariables)
  pure { name, type, slot := UInt16.ofNat s.bound.size, isParam }

/-- A change to a scope that may fail. The scope is there in either case. -/
abbrev Change := ExceptT CompileError (StateM Scope)

/-- What a change answers, and the scope after it. -/
def Change.on {α : Type} (x : Change α) (s : Scope) : Except CompileError α × Scope :=
  Id.run (StateT.run (ExceptT.run x) s)

/-- Binds a name to the next slot: its place is noted, and its variable is put there. -/
def bind (name : String) (type : ResultType) (isParam : Bool) (loc : Location) :
    Change Variable := do
  let v ← MonadExcept.ofExcept ((← get).next name type isParam loc)
  modify fun s => { s with byName := s.byName.insert name s.bound.size }
  modify fun s => { s with bound := s.bound.push v }
  pure v

/-- Declares a local variable. -/
def declare (name : String) (type : ResultType) (loc : Location) : Change Variable :=
  bind name type false loc

/-- Binds parameters in their order, up to the first that cannot be bound. -/
def bindParams (loc : Location) : List Param → Change Unit
  | [] => pure ()
  | p :: params => do
    let _ ← bind p.name p.type true loc
    bindParams loc params

/-- The scope of a function in which only its parameters are bound. -/
def ofParams (params : List Param) (loc : Location) : Except CompileError Scope :=
  match (bindParams loc params).on {} with
  | (.ok (), s) => .ok s
  | (.error e, _) => .error e

end Scope

end TypedStack.Compile
