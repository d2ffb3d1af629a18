import TypedStack.Proofs.Machine.Frames
import TypedStack.Proofs.Machine.Values
/-!
# A stack that is full

The limit on operands is met in one way only: a step has a value to push and there is no room for
it. So a machine with more room would go on from the same state, to one with more operands than the
limit allows and with no more frames (`Machine.step_overflow`). A bound that all states respect
under every limit therefore rules the error out.

This is stated for two machines with one artifact, since a machine that has failed has no next state
to look at. The first finds no room, and the state of the second shows how much it would have
needed.
-/

set_option autoImplicit false

namespace TypedStack

namespace Machine

/-! ## Errors that are not those of a limit

Everything an instruction does before the machine pushes, calls or leaves. The property is handed
from the parts of a computation to the whole, so there is one lemma for each part. -/

/-- An error that comes out, if any, is not that of a limit. The limits belong to the machine, and
so this holds of every computation that does not have the machine for an argument; but it has to be
shown, as the errors of limits are of the same type as the others. -/
def Unlimited {α : Type} (r : Except RuntimeError α) : Prop :=
  ∀ e, r = .error e → e.isLimit = false

namespace Unlimited

variable {α β : Type}

theorem ok (a : α) : Unlimited (.ok a) := by
  intro e h
  cases h

theorem error {e : RuntimeError} (he : e.isLimit = false) :
    Unlimited (.error e : Except RuntimeError α) := by
  intro e' h
  cases h
  exact he

/-- Neither the first part nor what follows it has the error. -/
theorem bind {r : Except RuntimeError α} {k : α → Except RuntimeError β} (h : Unlimited r)
    (hk : ∀ a, Unlimited (k a)) : Unlimited (r >>= k) := by
  intro e he
  rcases except_bind_fails.mp he with hr | ⟨a, -, ha⟩
  · exact h e hr
  · exact hk a e ha

theorem map {r : Except RuntimeError α} (f : α → β) (h : Unlimited r) : Unlimited (r.map f) := by
  intro e he
  cases r with
  | error e' =>
    cases he
    exact h _ rfl
  | ok a => cases he

theorem pop (floor : Nat) (t : ValueType) (operands : Array Value) :
    Unlimited (Machine.pop floor t operands) := by
  unfold Machine.pop
  split
  · exact .error rfl
  · split
    · exact .error rfl
    · split
      · exact .ok _
      · exact .error rfl

theorem popPair (floor : Nat) (t : ValueType) (operands : Array Value) :
    Unlimited (Machine.popPair floor t operands) :=
  .bind (.pop _ _ _) fun _ => .bind (.pop _ _ _) fun _ => .ok _

theorem slotIndex (frame : Frame) (locals : Array Value) (slot : UInt16) :
    Unlimited (Machine.slotIndex frame locals slot) := by
  unfold Machine.slotIndex
  simp only
  split
  · exact .error rfl
  · split
    · exact .ok _
    · exact .error rfl

/-- Reading a value fails for what is in the input, or for want of input. -/
theorem read (t : ValueType) (i : Input) : Unlimited (i.read t).1 := by
  unfold Input.read
  rcases hnext : i.next with ⟨e | (_ | token), i'⟩
  · unfold Input.next at hnext
    split at hnext
    · cases hnext
    · obtain rfl := Input.nextFrom_error hnext
      exact .error rfl
  · exact .error rfl
  · cases hv : Token.value? t token with
    | none =>
      simp only [hv]
      exact .error rfl
    | some v =>
      simp only [hv]
      exact .ok v

end Unlimited

/-- Limits play no part in the effect of an instruction. It takes operands and looks at slots and
constants, and each of these can fail in its own way only. -/
theorem effect_unlimited (op : EncodedOp) (next : Nat) (s : State) :
    Unlimited (effect op next s) := by
  cases op with
  | const i =>
    simp only [effect]
    split
    · exact .error rfl
    · exact .ok _
  | pop t | cast source target | print t | ret t => exact .bind (.pop _ _ _) fun _ => .ok _
  | load t slot =>
    refine .bind (.slotIndex _ _ _) fun index => ?_
    simp only
    split
    · exact .ok _
    · exact .error rfl
  | store t slot => exact .bind (.pop _ _ _) fun _ => .bind (.slotIndex _ _ _) fun _ => .ok _
  | arith o t =>
    refine .bind (.popPair _ _ _) fun r => ?_
    simp only
    split
    · exact .error rfl
    · exact .error rfl
    · exact .ok _
  | shift kind =>
    exact .bind (.map _ (.pop _ _ _)) fun _ => .bind (.map _ (.pop _ _ _)) fun _ => .ok _
  | compare t =>
    refine .bind (.popPair _ _ _) fun r => ?_
    simp only
    split
    · exact .error rfl
    · exact .ok _
  | jumpIf relation target | jumpIfTrue target | exit =>
    exact .bind (.map _ (.pop _ _ _)) fun _ => .ok _
  | jump target | call i | retVoid | openInput => exact .ok _
  | read t =>
    have hread := Unlimited.read t s.console.input
    simp only [effect]
    split
    · split
      · next e i he =>
        rw [he] at hread
        exact .error (hread e rfl)
      · exact .ok _
    · exact .error rfl
  | printError i =>
    simp only [effect]
    split
    · exact .ok _
    · exact .error rfl

variable {m m' : Machine}

/-! ## No room

Two machines, of which the first has no room for an operand. What the second does instead is the
next state that the first lacks. -/

/-- Where one machine has no room for an operand, another may, and is then over the first's
limit. -/
theorem push_overflow {v : Value} {operands : Array Value} {e : RuntimeError}
    (h : m.push v operands = .error e) (hroom : operands.size < m'.limits.operands) :
    m'.push v operands = .ok (operands.push v) ∧ m.limits.operands < (operands.push v).size := by
  have hfull : m.limits.operands ≤ operands.size := by
    unfold push at h
    split at h
    · assumption
    · cases h
  refine ⟨if_neg (Nat.not_le_of_lt hroom), ?_⟩
  rw [Array.size_push]
  exact Nat.lt_succ_of_le hfull

/-- A frame that begins takes operands over and pushes none. -/
theorem activate_ne_overflow {index depth floor : Nat} {locals operands : Array Value} :
    m.activate index depth floor locals operands ≠ .error .stackOverflow := by
  intro h
  unfold activate at h
  split at h
  · cases h
  · split at h
    · cases h
    · simp only at h
      split at h
      · cases h
      · cases h

/-- A block without arguments begins with no operands. -/
theorem begin_ne_overflow {index : Nat} {console : Console} :
    m.begin index [] console ≠ .error .stackOverflow := by
  intro h
  rcases except_bind_fails.mp h with hpush | ⟨operands, -, h⟩
  · cases hpush
  · rcases except_bind_fails.mp h with hactivate | ⟨r, -, hpure⟩
    · exact activate_ne_overflow hactivate
    · cases hpure

/-- Where a machine finds no room for an operand, one with room for it comes to a state that is over
the limit of the first, and has no more frames than before. Two effects push a value: going on with
one, and leaving with a result. Neither begins a frame. -/
theorem perform_overflow {next : Nat} {s : State} {op : EncodedOp} {e : Effect}
    (he : effect op next s = .ok e) (h : m.perform next s e = .error .stackOverflow)
    (hroom : s.operands.size < m'.limits.operands) :
    ∃ s', m'.perform next s e = .ok (.running s') ∧ m.limits.operands < s'.operands.size ∧
      s'.frames.length ≤ s.frames.length := by
  -- What an instruction has taken makes room, so the other machine still has some.
  have hspares := effect_spares he
  cases e with
  | goOn ip console locals operands pushed =>
    have hle : operands.size ≤ s.operands.size := hspares.2.2.size_le
    cases pushed with
    | none => cases h
    | some v =>
      rcases except_bind_fails.mp h with hpush | ⟨_, -, hpure⟩
      · obtain ⟨hpush', hover⟩ := push_overflow hpush (Nat.lt_of_le_of_lt hle hroom)
        refine ⟨_, except_bind_ok.mpr ⟨_, hpush', rfl⟩, hover, ?_⟩
        simp [State.frames]
      · cases hpure
  | call index =>
    rcases except_bind_fails.mp h with hactivate | ⟨_, -, hpure⟩
    · exact absurd hactivate activate_ne_overflow
    · cases hpure
  | leave operands result =>
    have hle : operands.size ≤ s.operands.size := hspares.1.size_le
    simp only [perform, leave] at h ⊢
    cases hcaller : s.callers.back? with
    | none =>
      rw [hcaller] at h
      cases h
    | some caller =>
      rw [hcaller] at h
      cases result with
      | none => cases h
      | some v =>
        rcases except_bind_fails.mp h with hpush | ⟨_, -, hpure⟩
        · have hshrink : (operands.shrink s.frame.stackBase).size ≤ operands.size := by
            rw [Array.size_shrink]
            exact Nat.min_le_right _ _
          obtain ⟨hpush', hover⟩ :=
            push_overflow hpush (Nat.lt_of_le_of_lt (Nat.le_trans hshrink hle) hroom)
          refine ⟨_, except_bind_ok.mpr ⟨_, hpush', rfl⟩, hover, ?_⟩
          simp [State.frames]
        · cases hpure
  | finish status => cases h

/-- **A step that finds no room.** The same for a whole step, whose decoding and effect are those of
the other machine. If the states of a machine with ample limits are known to have no more operands
than some bound, then a machine with that bound for its limit never finds its stack full. -/
theorem step_overflow {s : State} (h : m.step s = .error .stackOverflow)
    (hroom : s.operands.size < m'.limits.operands) :
    ∃ s', m'.step s = .ok (.running s') ∧ m.limits.operands < s'.operands.size ∧
      s'.frames.length ≤ s.frames.length := by
  unfold step at h ⊢
  cases hdecode : s.frame.block.segment.decode s.frame.ip with
  | error e =>
    rw [hdecode] at h
    cases h
  | ok r =>
    rw [hdecode] at h
    simp only [execute_eq] at h ⊢
    rcases except_bind_fails.mp h with heffect | ⟨e, he, hperform⟩
    · cases effect_unlimited _ _ _ _ heffect
    · obtain ⟨s', hs', hover, hframes⟩ := perform_overflow he hperform hroom
      exact ⟨s', except_bind_ok.mpr ⟨e, he, hs'⟩, hover, hframes⟩

end Machine

end TypedStack
