import TypedStack.Verification.Flow
import TypedStack.Proofs.Inversion
/-!
# The linear sweep

A verified block is decoded from offset 0 to its end before anything is typed. `Sweep` is the chain
of offsets that this visits, and the table that the sweep fills holds exactly the instructions on it
(`OpTable.at?_iff`).

Bytes can be decoded from any offset, also from one inside an instruction. An offset on the chain is
a place where an instruction begins, and there is only one chain (`Sweep.connect`). So a jump into
the middle of an instruction finds nothing in the table.
-/

set_option autoImplicit false

namespace TypedStack

/-! ## Chains of offsets

The chain is a relation between two offsets and not a list, since all that is ever asked is whether
one offset can be reached from another. -/

/-- Decoding one instruction after the other leads from the first offset to the second. -/
inductive Sweep (code : Array UInt8) : Nat → Nat → Prop
  | refl (offset : Nat) : Sweep code offset offset
  | step {offset next target : Nat} {op : EncodedOp}
      (hd : Segment.decodeAt code offset = .ok (op, next)) (h : Sweep code next target) :
      Sweep code offset target

namespace Sweep

variable {code : Array UInt8} {a b c : Nat}

theorem le (h : Sweep code a b) : a ≤ b := by
  induction h with
  | refl => exact Nat.le_refl _
  | step hd _ ih =>
    have := Segment.decodeAt_bounds hd
    omega

theorem trans (h : Sweep code a b) (h' : Sweep code b c) : Sweep code a c := by
  induction h with
  | refl => exact h'
  | step hd _ ih => exact .step hd (ih h')

theorem snoc {next : Nat} {op : EncodedOp} (h : Sweep code a b)
    (hd : Segment.decodeAt code b = .ok (op, next)) : Sweep code a next :=
  h.trans (.step hd (.refl next))

/-- There is only one chain, so of two offsets on it the lower one leads to the higher one. -/
theorem connect (h : Sweep code a b) (h' : Sweep code a c) (hle : b ≤ c) : Sweep code b c := by
  induction h with
  | refl => exact h'
  | @step a next b op hd hb ih =>
    cases h' with
    | refl =>
      have hlt := Segment.decodeAt_bounds hd
      have hbound := hb.le
      omega
    | step hd' hc =>
      rw [hd] at hd'
      cases hd'
      exact ih hc hle

/-- A chain that goes on from an offset decodes an instruction there. -/
theorem decodes (h : Sweep code a b) (hlt : a < b) :
    ∃ op next, Segment.decodeAt code a = .ok (op, next) := by
  cases h with
  | refl => omega
  | step hd _ => exact ⟨_, _, hd⟩

end Sweep

namespace OpTable

/-! ## The table

The table is filled along the chain. What holds of it is shown for the part that is filled already,
by the recursion of the sweep. -/

theorem at?_setIfInBounds (table : OpTable) {offset : Nat} (h : offset < table.size)
    (entry : EncodedOp × Nat) (o : Nat) :
    at? (table.setIfInBounds offset (some entry)) o =
      if offset = o then some entry else table.at? o := by
  unfold at?
  rw [Array.getElem?_setIfInBounds]
  by_cases ho : offset = o
  · subst ho
    simp [h]
  · simp [ho]

/-- What is behind the sweep does not change any more. By the recursion of the sweep, which only
goes on to higher offsets. -/
theorem at?_fill_lt {code : Array UInt8} {offset : Nat} {table table' : OpTable}
    (hsize : table.size = code.size) (h : fill code offset table = .ok table') {o : Nat}
    (ho : o < offset) : table'.at? o = table.at? o := by
  fun_induction fill code offset table with
  | case1 => cases h
  | case2 offset table hlt op next hd ih =>
    have hnext := Segment.decodeAt_bounds hd
    rw [ih (by simpa using hsize) h (by omega), at?_setIfInBounds _ (by omega), if_neg (by omega)]
  | case3 =>
    cases h
    rfl

theorem at?_fill_of_sweep {code : Array UInt8} {offset : Nat} {table table' : OpTable}
    (hsize : table.size = code.size) (h : fill code offset table = .ok table') {o : Nat}
    (hsweep : Sweep code offset o) (ho : o < code.size) :
    ∃ op next, table'.at? o = some (op, next) := by
  fun_induction fill code offset table with
  | case1 => cases h
  | case2 offset table hlt op next hd ih =>
    have hsize' : (table.setIfInBounds offset (some (op, next))).size = code.size := by
      simpa using hsize
    cases hsweep with
    | refl =>
      -- entered now, and left alone by the rest of the sweep
      have hnext := Segment.decodeAt_bounds hd
      refine ⟨op, next, ?_⟩
      rw [at?_fill_lt hsize' h (by omega), at?_setIfInBounds _ (by omega), if_pos rfl]
    | step hd' hrest =>
      rw [hd] at hd'
      cases hd'
      exact ih hsize' h hrest
  | case3 offset table hlt =>
    have := hsweep.le
    omega

/-- Nothing but the chain is entered, if it was so before. The induction carries along that the
sweep itself is on the chain. -/
theorem sweep_of_at?_fill {code : Array UInt8} {offset : Nat} {table table' : OpTable}
    (hsize : table.size = code.size) (hstart : Sweep code 0 offset)
    (hold : ∀ o op next, table.at? o = some (op, next) →
      Sweep code 0 o ∧ Segment.decodeAt code o = .ok (op, next))
    (h : fill code offset table = .ok table') {o next : Nat} {op : EncodedOp}
    (hat : table'.at? o = some (op, next)) :
    Sweep code 0 o ∧ Segment.decodeAt code o = .ok (op, next) := by
  fun_induction fill code offset table with
  | case1 => cases h
  | case2 offset table hlt op' next' hd ih =>
    refine ih (by simpa using hsize) (hstart.snoc hd) ?_ h
    intro o op next hat
    rw [at?_setIfInBounds _ (by omega)] at hat
    split at hat
    · next heq =>
      cases hat
      subst heq
      exact ⟨hstart, hd⟩
    · exact hold o op next hat
  | case3 =>
    cases h
    exact hold o op next hat

variable {code : Array UInt8} {table : OpTable}

/-- The table of a segment holds the instructions on the chain from offset 0, and no others. -/
theorem at?_iff (h : ofCode code = .ok table) {o next : Nat} {op : EncodedOp} :
    table.at? o = some (op, next) ↔
      Sweep code 0 o ∧ Segment.decodeAt code o = .ok (op, next) := by
  have hsize : (Array.replicate code.size none : OpTable).size = code.size := Array.size_replicate
  have hsound : ∀ {o next : Nat} {op : EncodedOp}, table.at? o = some (op, next) →
      Sweep code 0 o ∧ Segment.decodeAt code o = .ok (op, next) := by
    intro o next op
    refine sweep_of_at?_fill hsize (.refl 0) ?_ h
    intro o op next hat
    unfold at? at hat
    rw [Array.getElem?_replicate] at hat
    split at hat <;> simp at hat
  constructor
  · exact hsound
  · rintro ⟨hsweep, hd⟩
    have hlt := Segment.decodeAt_bounds hd
    obtain ⟨op', next', hat⟩ := at?_fill_of_sweep hsize h hsweep (by omega)
    -- what is entered there can only be what decodes there
    have hd' := (hsound hat).2
    rw [hd] at hd'
    cases hd'
    exact hat

theorem fill_ok {code : Array UInt8} {offset : Nat} {table : OpTable}
    (h : ∀ o, Sweep code offset o → o < code.size →
      ∃ op next, Segment.decodeAt code o = .ok (op, next)) :
    ∃ table', fill code offset table = .ok table' := by
  fun_induction fill code offset table with
  | case1 offset table hlt e he =>
    obtain ⟨op, next, hd⟩ := h offset (.refl _) hlt
    rw [he] at hd
    cases hd
  | case2 offset table hlt op next hd ih => exact ih fun o ho => h o (.step hd ho)
  | case3 offset table => exact ⟨table, rfl⟩

/-- A sweep that succeeds leads to the end of the code. -/
theorem sweep_of_fill {code : Array UInt8} {offset : Nat} {table table' : OpTable}
    (hle : offset ≤ code.size) (h : fill code offset table = .ok table') :
    Sweep code offset code.size := by
  fun_induction fill code offset table with
  | case1 => cases h
  | case2 offset table hlt op next hd ih => exact .step hd (ih (Segment.decodeAt_bounds hd).2 h)
  | case3 offset table hge =>
    obtain rfl : offset = code.size := by omega
    exact .refl _

/-- The code is decoded from offset 0 to its end. -/
theorem ofCode_ok {code : Array UInt8} :
    (∃ table, ofCode code = .ok table) ↔ Sweep code 0 code.size := by
  constructor
  · rintro ⟨table, h⟩
    exact sweep_of_fill (Nat.zero_le _) h
  · intro h
    exact fill_ok fun o ho hlt => (ho.connect h (Nat.le_of_lt hlt)).decodes hlt

end OpTable

end TypedStack
