import TypedStack.Machine.Run
import TypedStack.Proofs.Evaluation.Basic
import TypedStack.Proofs.Value.Arith
/-!
# Values and their types

Which types the operations of the machine give their results, and how comparing and converting
values goes together with what modules mean.

What the operations compute is said elsewhere. For the types that the verifier tracks it is enough
to know that an operation on operands of the right types has a result, and of which type it is;
division by zero is the one way to have none.
-/

set_option autoImplicit false

namespace TypedStack

open Evaluation

/-! ## Values

Operands of one type can be calculated with and compared. -/

/-- Two numbers of one type have a result of that type, unless one is divided by zero. -/
theorem ArithOp.apply_typed (o : ArithOp) {t : ValueType} (ht : t.isNumeric = true) {a b : Value}
    (ha : a.type = t) (hb : b.type = t) :
    o.apply a b = .error .divisionByZero ∨ ∃ v, o.apply a b = .ok v ∧ v.type = t := by
  subst ha
  cases a with
  | int n =>
    cases b with
    | int k =>
      rw [apply, onInt_eq]
      split
      · exact .inl rfl
      · exact .inr ⟨.int _, rfl, rfl⟩
    | _ => cases hb
  | char n =>
    cases b with
    | char k =>
      rw [apply, onChar_eq]
      split
      · exact .inl rfl
      · exact .inr ⟨.char _, rfl, rfl⟩
    | _ => cases hb
  | float x =>
    cases b with
    | float y => exact .inr ⟨_, rfl, rfl⟩
    | _ => cases hb
  | double x =>
    cases b with
    | double y => exact .inr ⟨_, rfl, rfl⟩
    | _ => cases hb
  | bool p => cases ht

/-- Values of one type have an order, also where one of them is a NaN. -/
theorem Value.order_typed {a b : Value} (h : a.type = b.type) : ∃ o, a.order b = some o := by
  cases a <;> cases b <;> first | exact ⟨_, rfl⟩ | cases h

/-! ## Errors

A program that makes sense can still fail, at a division or at its input. -/

/-- What goes wrong only in code that makes no sense: operands, slots, constants, blocks or bytes
that are not there or not of the type that an instruction asks for. -/
def RuntimeError.isFault : RuntimeError → Bool
  | .stackUnderflow | .typeError _ _ | .decode _ | .badConstant _ | .badSlot _ | .unknownBlock _ =>
    true
  | _ => false

/-- A word that is read as a type gives a value of that type. -/
theorem Token.value?_typed {t : ValueType} {token : String} {v : Value}
    (h : Token.value? t token = some v) : v.type = t := by
  cases t <;> simp only [value?, Option.map_eq_some_iff] at h <;> obtain ⟨_, _, rfl⟩ := h <;> rfl

/-- Of the input only a line that is no text is an error. Its end is none. -/
theorem Input.nextFrom_error {lines : List (List UInt8)} {i : Input} {e : RuntimeError}
    (h : nextFrom lines = (.error e, i)) : e = .inputNotText := by
  fun_induction nextFrom lines with
  | case1 => cases h
  | case2 line rest hline =>
    cases h
    rfl
  | case3 line rest s hs hwords ih => exact ih h
  | case4 => cases h

/-- Reading gives a value of the type asked for, or an error that is no fault. -/
theorem Input.read_typed (t : ValueType) (i : Input) :
    (∃ v i', i.read t = (.ok v, i') ∧ v.type = t) ∨
      ∃ e i', i.read t = (.error e, i') ∧ e.isFault = false := by
  unfold read
  rcases hnext : i.next with ⟨e | (_ | token), i'⟩
  · refine .inr ⟨e, i', rfl, ?_⟩
    unfold next at hnext
    split at hnext
    · cases hnext
    · rw [nextFrom_error hnext]
      rfl
  · exact .inr ⟨_, _, rfl, rfl⟩
  · cases hv : Token.value? t token with
    | none => exact .inr ⟨.inputMismatch t token, i', by simp [hv], rfl⟩
    | some v => exact .inl ⟨v, i', by simp [hv], Token.value?_typed hv⟩

/-! ## Conversions and comparisons

The compiler puts conversions where the types of a module need them, and comparisons as jumps on the
signal of an order. Both have to come to what the module means. -/

/-- A value of the type asked for stays as it is. -/
theorem Value.cast_type (v : Value) : v.cast v.type = v := by
  cases v <;> rfl

/-- A relation holds of an ordering signal if the comparison holds of the order. -/
theorem Comparison.relation_holds (op : Comparison) (o : Ordering) :
    op.relation.holds (orderingSignal o) = Evaluation.holds op o := by
  cases op <;> cases o <;> decide

end TypedStack
