import TypedStack.Code.Op
import TypedStack.Value.Basic
/-!
# Arithmetic on values

Integers and characters wrap around at their width and binary numbers are rounded once. Only the
integral types know a division by zero.
-/

set_option autoImplicit false

namespace TypedStack

open Binary

/-- Why an operation on values has no result. -/
inductive ArithError where
  | divisionByZero
  /-- The operands are not two numbers of one type. -/
  | notNumeric (got : ValueType)
  deriving DecidableEq, Repr

namespace ArithOp

def onInt (op : ArithOp) (a b : Int64) : Except ArithError Int64 :=
  match op with
  | .add => .ok (a + b)
  | .sub => .ok (a - b)
  | .mul => .ok (a * b)
  | .div => if b = 0 then .error .divisionByZero else .ok (a / b)

def onChar (op : ArithOp) (a b : UInt16) : Except ArithError UInt16 :=
  match op with
  | .add => .ok (a + b)
  | .sub => .ok (a - b)
  | .mul => .ok (a * b)
  | .div => if b = 0 then .error .divisionByZero else .ok (a / b)

def onBinary (op : ArithOp) (f : Format) (a b : Nat) : Nat :=
  match op with
  | .add => f.add a b
  | .sub => f.sub a b
  | .mul => f.mul a b
  | .div => f.div a b

/-- The result for two numbers of one type. -/
def apply (op : ArithOp) : Value → Value → Except ArithError Value
  | .int a, .int b => (op.onInt a b).map .int
  | .char a, .char b => (op.onChar a b).map .char
  | .float a, .float b => .ok (Value.ofSingle (op.onBinary .single a.toNat b.toNat))
  | .double a, .double b => .ok (Value.ofDouble (op.onBinary .double a.toNat b.toNat))
  | a, _ => .error (.notNumeric a.type)

end ArithOp

/-- The amount of a shift counts modulo 64. -/
def ShiftKind.apply (kind : ShiftKind) (n amount : Int64) : Int64 :=
  match kind with
  | .left => (n.toUInt64 <<< amount.toUInt64).toInt64
  | .right => (n.toUInt64 >>> amount.toUInt64).toInt64

end TypedStack
