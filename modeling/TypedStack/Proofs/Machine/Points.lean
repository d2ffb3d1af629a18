import TypedStack.Proofs.Machine.Effects
/-!
# A program, one instruction at a time

Running a program gives each of its blocks fuel of its own. Here the instructions of all its blocks
are counted together: `Machine.after` is the point that a program has come to after a number of
them. A program comes to an end in one way if and only if it does so in the other
(`Machine.runProgram_ended_iff`), and what holds of the states at all points is proved by one
induction on the count.

With this the induction for a whole program is done once. An invariant has to hold where a block
begins and has to be kept by a step (`Machine.after_invariant`), and neither of the two mentions
that a program may consist of two blocks.
-/

set_option autoImplicit false

namespace TypedStack

/-! ## Points

A point is what a machine needs to know to go on by one instruction: the state, and which block is
still to come. -/

/-- A program between two instructions: what the block that runs has come to, and the block that
begins when this one returns, if there is one. A program consists of two blocks at most, so one
index is enough. -/
structure Point where
  execution : Execution
  next : Option Nat

/-- What has been written. -/
def Execution.console : Execution → Console
  | .unfinished s => s.console
  | .ended _ c => c

namespace Machine

/-- A block begins, without arguments. -/
def enterAt (m : Machine) (index : Nat) (next : Option Nat) (console : Console) : Point :=
  match m.begin index [] console with
  | .error e => ⟨.ended (.error e) console, none⟩
  | .ok s => ⟨.unfinished s, next⟩

/-- A block is over. If it has returned, the next one begins. -/
def conclude (m : Machine) (next : Option Nat) (r : Except RuntimeError Outcome)
    (console : Console) : Point :=
  match r, next with
  | .ok (.returned _), some index => m.enterAt index none console
  | _, _ => ⟨.ended r console, none⟩

/-- One instruction. Nothing follows the end of a program. -/
def instruction (m : Machine) (p : Point) : Point :=
  match p.execution with
  | .ended _ _ => p
  | .unfinished s =>
    match m.step s with
    | .error e => m.conclude p.next (.error e) s.console
    | .ok (.finished o c) => m.conclude p.next (.ok o) c
    | .ok (.running s) => ⟨.unfinished s, p.next⟩

/-- The point before the first instruction. -/
def launch (m : Machine) (console : Console) : Point :=
  match m.artifact.blockIndex? startName with
  | none => ⟨.ended (.error .notExecutable) console, none⟩
  | some start =>
    match m.artifact.blockIndex? initName with
    | none => m.enterAt start none console
    | some init => m.enterAt init (some start) console

/-- The point after a number of instructions. Once a program is over the point stays the same, so
that the number may be as great as one likes. -/
def after (m : Machine) (console : Console) : Nat → Point
  | 0 => m.launch console
  | n + 1 => m.instruction (m.after console n)

variable {m : Machine} {console : Console}

/-! ## Points and runs

A run with fuel passes over many points at once. Where it ends or is left unfinished, it is at one
of them. -/

theorem after_ended {n k : Nat} {r : Except RuntimeError Outcome} {c : Console}
    (h : (m.after console n).execution = .ended r c) :
    (m.after console (n + k)).execution = .ended r c := by
  induction k with
  | zero => exact h
  | succ k ih =>
    show (m.instruction (m.after console (n + k))).execution = .ended r c
    unfold instruction
    rw [ih]
    exact ih

/-- A block that runs from some point on takes the program as many instructions further. If the
block comes to an end, the program concludes it at some later point. By induction on the fuel. -/
theorem after_runState {next : Option Nat} (fuel : Nat) :
    ∀ {n : Nat} {s : State}, m.after console n = ⟨.unfinished s, next⟩ →
      (∀ s', m.runState fuel s = .unfinished s' →
        m.after console (n + fuel) = ⟨.unfinished s', next⟩) ∧
      ∀ r c, m.runState fuel s = .ended r c → ∃ k, m.after console k = m.conclude next r c := by
  induction fuel with
  | zero =>
    intro n s h
    constructor
    · intro s' hrun
      cases hrun
      exact h
    · intro r c hrun
      cases hrun
  -- One step is one instruction, and the rest of the run begins behind it.
  | succ fuel ih =>
    intro n s h
    have hnext : m.after console (n + 1) = m.instruction ⟨.unfinished s, next⟩ := by
      rw [← h]
      rfl
    simp only [runState]
    cases hs : m.step s with
    | error e =>
      simp only [instruction, hs] at hnext
      constructor
      · intro s' hrun
        cases hrun
      · intro r c hrun
        cases hrun
        exact ⟨n + 1, hnext⟩
    | ok p =>
      cases p with
      | finished o c =>
        simp only [instruction, hs] at hnext
        constructor
        · intro s' hrun
          cases hrun
        · intro r c hrun
          cases hrun
          exact ⟨n + 1, hnext⟩
      | running s₁ =>
        simp only [instruction, hs] at hnext
        obtain ⟨hunfinished, hended⟩ := ih hnext
        constructor
        · intro s' hrun
          rw [show n + (fuel + 1) = n + 1 + fuel by omega]
          exact hunfinished s' hrun
        · exact hended

theorem after_invoke {n index : Nat} {next : Option Nat} {c : Console} (fuel : Nat)
    (h : m.after console n = m.enterAt index next c) :
    (∀ s, m.invoke fuel index [] c = .unfinished s →
      (m.after console (n + fuel)).execution = .unfinished s) ∧
    ∀ r c', m.invoke fuel index [] c = .ended r c' →
      ∃ k, m.after console k = m.conclude next r c' := by
  unfold invoke
  unfold enterAt at h
  cases hbegin : m.begin index [] c with
  | error e =>
    rw [hbegin] at h
    constructor
    · intro s hs
      cases hs
    · intro r c' hr
      cases hr
      exact ⟨n, h⟩
  | ok s =>
    rw [hbegin] at h
    obtain ⟨hunfinished, hended⟩ := after_runState fuel h
    constructor
    · intro s' hs'
      rw [hunfinished s' hs']
    · exact hended

/-- What the last block comes to is what the program comes to. -/
theorem after_last {n index : Nat} {c : Console} (fuel : Nat)
    (h : m.after console n = m.enterAt index none c) :
    (∀ s, m.invoke fuel index [] c = .unfinished s →
      ∃ n, fuel ≤ n ∧ (m.after console n).execution = .unfinished s) ∧
    ∀ r c', m.invoke fuel index [] c = .ended r c' →
      ∃ n, (m.after console n).execution = .ended r c' := by
  obtain ⟨hunfinished, hended⟩ := after_invoke fuel h
  refine ⟨fun s hs => ⟨n + fuel, Nat.le_add_left _ _, hunfinished s hs⟩, fun r c' hr => ?_⟩
  obtain ⟨k, hk⟩ := hended r c' hr
  refine ⟨k, ?_⟩
  rw [hk]
  rcases r with e | (v | status) <;> rfl

/-- What a run with fuel comes to is what the program comes to at some point. -/
theorem after_runProgram (m : Machine) (console : Console) (fuel : Nat) :
    (∀ s, m.runProgram fuel console = .unfinished s →
      ∃ n, fuel ≤ n ∧ (m.after console n).execution = .unfinished s) ∧
    ∀ r c, m.runProgram fuel console = .ended r c →
      ∃ n, (m.after console n).execution = .ended r c := by
  have hlaunch : m.after console 0 = m.launch console := rfl
  unfold launch at hlaunch
  cases hstart : m.artifact.blockIndex? startName with
  | none =>
    simp only [hstart] at hlaunch
    simp only [runProgram, runStages, blocksByName_get, hstart]
    refine ⟨fun s hs => ?_, fun r c hr => ⟨0, ?_⟩⟩
    · cases hs
    · cases hr
      rw [hlaunch]
  | some start =>
    cases hinit : m.artifact.blockIndex? initName with
    | none =>
      simp only [hstart, hinit] at hlaunch
      simp only [runProgram, runStages, blocksByName_get, hstart, hinit]
      exact after_last fuel hlaunch
    | some init =>
      simp only [hstart, hinit] at hlaunch
      obtain ⟨hunfinished, hended⟩ := after_invoke fuel hlaunch
      rw [m.runProgram_eq hstart hinit]
      -- the second block begins only if the first has returned
      cases hfirst : m.invoke fuel init [] console with
      | unfinished s =>
        refine ⟨fun s' hs' => ?_, fun r c hr => ?_⟩
        · cases hs'
          exact ⟨0 + fuel, by omega, hunfinished s hfirst⟩
        · cases hr
      | ended r₁ c₁ =>
        obtain ⟨k, hk⟩ := hended r₁ c₁ hfirst
        rcases r₁ with e | (v | status)
        · refine ⟨fun s hs => ?_, fun r c hr => ⟨k, ?_⟩⟩
          · cases hs
          · cases hr
            rw [hk]
            rfl
        · exact after_last fuel hk
        · refine ⟨fun s hs => ?_, fun r c hr => ⟨k, ?_⟩⟩
          · cases hs
          · cases hr
            rw [hk]
            rfl

/-- **Both ways of counting come to the same ends.** A run with fuel is found among the points. For
the other direction the run is given as much fuel as there are instructions, so that it is
unfinished only if the program is. -/
theorem runProgram_ended_iff (m : Machine) (console : Console) {r : Except RuntimeError Outcome}
    {c : Console} :
    (∃ fuel, m.runProgram fuel console = .ended r c) ↔
      ∃ n, (m.after console n).execution = .ended r c := by
  constructor
  · rintro ⟨fuel, h⟩
    exact (after_runProgram m console fuel).2 r c h
  · rintro ⟨n, h⟩
    refine ⟨n, ?_⟩
    obtain ⟨hunfinished, hended⟩ := after_runProgram m console n
    cases hrun : m.runProgram n console with
    | unfinished s =>
      -- the program would be over before and go on behind
      obtain ⟨k, hle, hk⟩ := hunfinished s hrun
      obtain ⟨j, rfl⟩ := Nat.exists_eq_add_of_le hle
      rw [after_ended h] at hk
      cases hk
    | ended r' c' =>
      obtain ⟨k, hk⟩ := hended r' c' hrun
      have hn : (m.after console (n + k)).execution = .ended r c := after_ended h
      have hk' : (m.after console (k + n)).execution = .ended r' c' := after_ended hk
      rw [Nat.add_comm, hk'] at hn
      exact hn

/-! ## Inductions over programs

Two principles, one for the states that a program comes to and one for the errors that end it. Both
ask for what is known of a block that begins and of a single step. -/

/-- **Invariants of programs.** What a beginning block has and every step keeps, the states at all
points have. The property may depend on the machine, but not on how many instructions were executed.
-/
theorem after_invariant {P : State → Prop}
    (hbegin : ∀ index c s, m.begin index [] c = .ok s → P s)
    (hstep : ∀ s s', P s → m.step s = .ok (.running s') → P s') (n : Nat) :
    ∀ s, (m.after console n).execution = .unfinished s → P s := by
  -- A block begins at the start of the program and where another block has returned.
  have enters : ∀ {index : Nat} {next : Option Nat} {c : Console} {s : State},
      (m.enterAt index next c).execution = .unfinished s → P s := by
    intro index next c s h
    unfold enterAt at h
    split at h
    · cases h
    · next s₀ hs₀ =>
      cases h
      exact hbegin _ _ _ hs₀
  have concludes : ∀ {next : Option Nat} {r : Except RuntimeError Outcome} {c : Console}
      {s : State}, (m.conclude next r c).execution = .unfinished s → P s := by
    intro next r c s h
    unfold conclude at h
    split at h
    · exact enters h
    · cases h
  induction n with
  | zero =>
    intro s h
    simp only [after, launch] at h
    split at h
    · cases h
    · split at h
      · exact enters h
      · exact enters h
  | succ n ih =>
    intro s h
    simp only [after, instruction] at h
    split at h
    · next hended =>
      rw [hended] at h
      cases h
    · next s₀ hs₀ =>
      split at h
      · exact concludes h
      · exact concludes h
      · next s₁ hs₁ =>
        cases h
        exact hstep _ _ (ih _ hs₀) hs₁

/-- What holds of every error with which a block cannot begin or a step fails holds of the error
that ends a program. -/
theorem after_error {P : RuntimeError → Prop} (hnone : P .notExecutable)
    (hbegin : ∀ index c e, m.begin index [] c = .error e → P e)
    (hstep : ∀ n s e, (m.after console n).execution = .unfinished s → m.step s = .error e → P e)
    (n : Nat) : ∀ e c, (m.after console n).execution = .ended (.error e) c → P e := by
  have enters : ∀ {index : Nat} {next : Option Nat} {c c' : Console} {e : RuntimeError},
      (m.enterAt index next c).execution = .ended (.error e) c' → P e := by
    intro index next c c' e h
    unfold enterAt at h
    split at h
    · next e₀ he₀ =>
      cases h
      exact hbegin _ _ _ he₀
    · cases h
  induction n with
  | zero =>
    intro e c h
    simp only [after, launch] at h
    split at h
    · cases h
      exact hnone
    · split at h
      · exact enters h
      · exact enters h
  | succ n ih =>
    intro e c h
    simp only [after, instruction] at h
    split at h
    · exact ih e c h
    · next s hs =>
      split at h
      · next e₀ he₀ =>
        cases h
        exact hstep n s _ hs he₀
      · unfold conclude at h
        split at h
        · exact enters h
        · cases h
      · cases h

theorem runState_invariant {P : State → Prop}
    (hstep : ∀ s s', P s → m.step s = .ok (.running s') → P s') (fuel : Nat) :
    ∀ s s', P s → m.runState fuel s = .unfinished s' → P s' := by
  induction fuel with
  | zero =>
    intro s s' hs h
    cases h
    exact hs
  | succ fuel ih =>
    intro s s' hs h
    simp only [runState] at h
    split at h
    · cases h
    · cases h
    · next s₁ hs₁ => exact ih _ _ (hstep _ _ hs hs₁) h

end Machine

end TypedStack
