/-!
# Relations

The relations that a conditional jump tests on an ordering signal: a negative number for "less",
zero for "equal", a positive one for "greater".
-/

set_option autoImplicit false

namespace TypedStack

inductive Relation where
  | lt
  | gt
  | le
  | ge
  | eq
  | ne
  deriving DecidableEq, Repr

namespace Relation

def name : Relation → String
  | .lt => "lt"
  | .gt => "gt"
  | .le => "le"
  | .ge => "ge"
  | .eq => "eq"
  | .ne => "ne"

/-- The byte that stands for the relation in code. -/
def tag : Relation → UInt8
  | .lt => 0
  | .gt => 1
  | .le => 2
  | .ge => 3
  | .eq => 4
  | .ne => 5

def ofTag? (byte : UInt8) : Option Relation :=
  if byte = 0 then some .lt
  else if byte = 1 then some .gt
  else if byte = 2 then some .le
  else if byte = 3 then some .ge
  else if byte = 4 then some .eq
  else if byte = 5 then some .ne
  else none

@[simp] theorem ofTag?_tag (r : Relation) : ofTag? r.tag = some r := by
  cases r <;> rfl

/-- Whether the relation holds for an ordering signal. -/
def holds (r : Relation) (signal : Int64) : Bool :=
  match r with
  | .lt => signal < 0
  | .gt => 0 < signal
  | .le => signal ≤ 0
  | .ge => 0 ≤ signal
  | .eq => signal == 0
  | .ne => signal != 0

end Relation

/-- The ordering signal of a comparison. -/
def orderingSignal : Ordering → Int64
  | .lt => -1
  | .eq => 0
  | .gt => 1

end TypedStack
