import Mathlib.Data.Nat.Find
import TypedStack.Proofs.Machine.Points
/-!
# Limits only cut a run short

Two machines run one artifact, and the second may use at least as much as the first. A limit is
looked at in two places only, where a value is pushed and where a frame begins, and there the first
machine does what the second does or stops. So at every count of instructions the two are at the
same point, or the first was stopped by a limit and has written a part of what the second has
(`Machine.after_stricter`).

To compare the two at the same number of instructions, the blocks of a program have to be counted
together, which is what points are for: with fuel for each block by itself the machine that is
stopped in the first block would have no counterpart for the second.
-/

set_option autoImplicit false

namespace TypedStack

/-! ## Written text

Lines are kept with the latest first, and a text has them from the first on. -/

namespace Console

theorem joinLines_cons (line : String) (lines : List String) :
    joinLines (line :: lines) = joinLines lines ++ line ++ "\n" := by
  simp [joinLines, List.foldl_append]

/-- Lines that are written later come behind the others. -/
theorem joinLines_prefix {lines lines' : List String} (h : lines <:+ lines') :
    (joinLines lines).toList <+: (joinLines lines').toList := by
  obtain ⟨later, rfl⟩ := h
  induction later with
  | nil => exact List.prefix_rfl
  | cons line later ih =>
    rw [List.cons_append, joinLines_cons, String.toList_append, String.toList_append]
    exact ih.trans ((List.prefix_append _ _).trans (List.prefix_append _ _))

end Console

namespace Machine

/-! ## Writing goes on

What has been written stays, instruction by instruction. -/

variable {m m' : Machine}

theorem step_finished {s : State} {o : Outcome} {c : Console}
    (h : m.step s = .ok (.finished o c)) : c = s.console := by
  obtain ⟨op, next, e, -, -, hperform⟩ := step_ok h
  cases e with
  | goOn ip console locals operands pushed =>
    obtain ⟨_, -, hpure⟩ := except_bind_ok.mp hperform
    cases hpure
  | call index =>
    obtain ⟨_, -, hpure⟩ := except_bind_ok.mp hperform
    cases hpure
  | leave operands result =>
    simp only [perform, leave] at hperform
    split at hperform
    · cases hperform
      rfl
    · split at hperform
      · cases hperform
      · obtain ⟨_, -, hpure⟩ := except_bind_ok.mp hperform
        cases hpure
  | finish status =>
    cases hperform
    rfl

/-- What an effect in a state leaves written. -/
def effectConsole (s : State) : Effect → Console
  | .goOn _ console _ _ _ => console
  | .call _ | .leave _ _ | .finish _ => s.console

/-- The machine itself writes nothing; only the effect of an instruction does. -/
theorem perform_console {next : Nat} {s s' : State} {e : Effect}
    (h : m.perform next s e = .ok (.running s')) : s'.console = effectConsole s e := by
  cases e with
  | goOn ip console locals operands pushed =>
    obtain ⟨_, -, hpure⟩ := except_bind_ok.mp h
    cases hpure
    rfl
  | call index =>
    obtain ⟨_, -, hpure⟩ := except_bind_ok.mp h
    cases hpure
    rfl
  | leave operands result =>
    obtain ⟨_, _, -, -, rfl⟩ := perform_leave_running h
    rfl
  | finish status => cases h

theorem step_running {s s' : State} (h : m.step s = .ok (.running s')) :
    s.console.Continues s'.console := by
  obtain ⟨op, next, e, -, heffect, hperform⟩ := step_ok h
  have hspares := effect_spares heffect
  rw [perform_console hperform]
  cases e with
  | goOn ip console locals operands pushed => exact hspares.1
  | call index | leave operands result | finish status => exact .refl _

theorem enterAt_console (m : Machine) (index : Nat) (next : Option Nat) (c : Console) :
    (m.enterAt index next c).execution.console = c := by
  unfold enterAt
  cases hbegin : m.begin index [] c with
  | error e => rfl
  | ok s =>
    obtain ⟨_, _, _, _, -, -, rfl⟩ := begin_ok hbegin
    rfl

theorem conclude_console (m : Machine) (next : Option Nat) (r : Except RuntimeError Outcome)
    (c : Console) : (m.conclude next r c).execution.console = c := by
  unfold conclude
  split
  · exact m.enterAt_console _ _ _
  · rfl

theorem instruction_continues (m : Machine) (p : Point) :
    p.execution.console.Continues (m.instruction p).execution.console := by
  unfold instruction
  split
  · exact .refl _
  · next s hs =>
    rw [hs]
    split
    · rw [conclude_console]
      exact .refl _
    · next o c hfinished =>
      rw [conclude_console, step_finished hfinished]
      exact .refl _
    · next s' hrunning => exact step_running hrunning

/-- What a program has written is the beginning of what it has written later. -/
theorem after_continues (m : Machine) (console : Console) (n k : Nat) :
    (m.after console n).execution.console.Continues
      (m.after console (n + k)).execution.console := by
  induction k with
  | zero => exact .refl _
  | succ k ih => exact ih.trans (m.instruction_continues _)

/-! ## Two machines

A result of the stricter machine is the result of the other, or it is the error of a limit. This is
kept by everything that a step is made of, and on the level of programs the error becomes a point at
which the first machine stays. -/

/-- The first result is the second, or a limit stands in its place. It is not symmetric: the second
may be an error of a limit itself, and then the first is one too. -/
def Stricter {α : Type} (r r' : Except RuntimeError α) : Prop :=
  r = r' ∨ ∃ e, r = .error e ∧ e.isLimit = true

namespace Stricter

variable {α β : Type}

theorem refl (r : Except RuntimeError α) : Stricter r r := .inl rfl

/-- Where the first parts agree, what follows is compared from the same value. -/
theorem bind {r r' : Except RuntimeError α} {k k' : α → Except RuntimeError β}
    (h : Stricter r r') (hk : ∀ a, Stricter (k a) (k' a)) : Stricter (r >>= k) (r' >>= k') := by
  rcases h with rfl | ⟨e, rfl, he⟩
  · cases r with
    | error e => exact .inl rfl
    | ok a => exact hk a
  · exact .inr ⟨e, rfl, he⟩

end Stricter

/-- The machines run one artifact, and the second may use at least as much. The limits are compared
one by one, so not every two machines are related. -/
structure Roomier (m m' : Machine) : Prop where
  artifact : m.artifact = m'.artifact
  operands : m.limits.operands ≤ m'.limits.operands
  frames : m.limits.frames ≤ m'.limits.frames

namespace Roomier

theorem push (h : Roomier m m') (v : Value) (operands : Array Value) :
    Stricter (m.push v operands) (m'.push v operands) := by
  unfold Machine.push
  by_cases hfull : m.limits.operands ≤ operands.size
  · rw [if_pos hfull]
    exact .inr ⟨_, rfl, rfl⟩
  · have hroom : ¬ m'.limits.operands ≤ operands.size := by
      have := h.operands
      omega
    rw [if_neg hfull, if_neg hroom]
    exact .refl _

theorem activate (h : Roomier m m') (index depth floor : Nat) (locals operands : Array Value) :
    Stricter (m.activate index depth floor locals operands)
      (m'.activate index depth floor locals operands) := by
  unfold Machine.activate
  by_cases hdeep : m.limits.frames ≤ depth
  · rw [if_pos hdeep]
    exact .inr ⟨_, rfl, rfl⟩
  · have hroom : ¬ m'.limits.frames ≤ depth := by
      have := h.frames
      omega
    rw [if_neg hdeep, if_neg hroom, h.artifact]
    exact .refl _

/-- The four effects. Only those that push or call can meet a limit. -/
theorem perform (h : Roomier m m') (next : Nat) (s : State) (e : Effect) :
    Stricter (m.perform next s e) (m'.perform next s e) := by
  cases e with
  | goOn ip console locals operands pushed =>
    refine .bind ?_ fun _ => .refl _
    cases pushed with
    | none => exact .refl _
    | some v => exact h.push v operands
  | call index => exact .bind (h.activate _ _ _ _ _) fun _ => .refl _
  | leave operands result =>
    simp only [Machine.perform, leave]
    cases s.callers.back? with
    | none => exact .refl _
    | some caller =>
      cases result with
      | none => exact .refl _
      | some v => exact .bind (h.push _ _) fun _ => .refl _
  | finish status => exact .refl _

/-- The effect of an instruction knows no limits, so both machines have the same one to perform. -/
theorem step (h : Roomier m m') (s : State) : Stricter (m.step s) (m'.step s) := by
  unfold Machine.step
  cases s.frame.block.segment.decode s.frame.ip with
  | error e => exact .refl _
  | ok r =>
    simp only [execute_eq]
    exact .bind (.refl _) fun e => h.perform _ s e

theorem begin (h : Roomier m m') (index : Nat) (console : Console) :
    Stricter (m.begin index [] console) (m'.begin index [] console) :=
  .bind (.refl _) fun _ => .bind (h.activate _ _ _ _ _) fun _ => .refl _

/-- The point of the first machine is that of the second, or a limit has stopped it there. -/
theorem enterAt (h : Roomier m m') (index : Nat) (next : Option Nat) (c : Console) :
    m.enterAt index next c = m'.enterAt index next c ∨
      CutShort (m'.enterAt index next c).execution.console (m.enterAt index next c).execution := by
  rw [enterAt_console]
  rcases h.begin index c with heq | ⟨e, he, hlimit⟩
  · refine .inl ?_
    unfold Machine.enterAt
    rw [heq]
  · refine .inr ⟨e, c, ?_, hlimit, .refl _⟩
    unfold Machine.enterAt
    rw [he]

theorem conclude (h : Roomier m m') (next : Option Nat) (r : Except RuntimeError Outcome)
    (c : Console) :
    m.conclude next r c = m'.conclude next r c ∨
      CutShort (m'.conclude next r c).execution.console (m.conclude next r c).execution := by
  unfold Machine.conclude
  split
  · exact h.enterAt _ _ _
  · exact .inl rfl

theorem launch (h : Roomier m m') (c : Console) :
    m.launch c = m'.launch c ∨
      CutShort (m'.launch c).execution.console (m.launch c).execution := by
  unfold Machine.launch
  rw [h.artifact]
  split
  · exact .inl rfl
  · split
    · exact h.enterAt _ _ _
    · exact h.enterAt _ _ _

/-- One instruction of a program, which may also begin its second block. -/
theorem instruction (h : Roomier m m') (p : Point) :
    m.instruction p = m'.instruction p ∨
      CutShort (m'.instruction p).execution.console (m.instruction p).execution := by
  cases hp : p.execution with
  | ended r c =>
    left
    simp only [Machine.instruction, hp]
  | unfinished s =>
    rcases h.step s with heq | ⟨e, he, hlimit⟩
    · simp only [Machine.instruction, hp, heq]
      split
      · exact h.conclude _ _ _
      · exact h.conclude _ _ _
      · exact .inl rfl
    · -- what the roomier machine does here begins with what has been written so far
      have hwritten := m'.instruction_continues p
      rw [hp] at hwritten
      refine .inr ⟨e, s.console, ?_, hlimit, hwritten⟩
      simp only [Machine.instruction, hp, he]
      rfl

end Roomier

/-- **Machine by machine.** After any number of instructions the machines are at the same point, or
a limit has stopped the first, which then stays where it is while the other writes on. -/
theorem after_stricter (h : Roomier m m') (console : Console) (n : Nat) :
    m.after console n = m'.after console n ∨
      CutShort (m'.after console n).execution.console (m.after console n).execution := by
  induction n with
  | zero => exact h.launch console
  | succ n ih =>
    rcases ih with heq | hcut
    · simp only [after, heq]
      exact h.instruction _
    · obtain ⟨e, written, hended, hlimit, hcontinues⟩ := hcut
      exact .inr ⟨e, written, after_ended (k := 1) hended, hlimit,
        hcontinues.trans (m'.instruction_continues _)⟩

/-- What has been written when an error ends a program was written before the last instruction. -/
theorem console_before_error {console : Console} {n : Nat} {e : RuntimeError} {c : Console}
    (h : (m.after console (n + 1)).execution = .ended (.error e) c) :
    (m.after console n).execution.console = c := by
  have hconsole : (m.after console (n + 1)).execution.console = c := by
    rw [h]
    rfl
  rw [← hconsole]
  simp only [after, instruction]
  split
  · rfl
  · next s hs =>
    rw [hs]
    split
    · rw [conclude_console]
      rfl
    · next o c' hfinished =>
      rw [conclude_console, step_finished hfinished]
      rfl
    · next s' hrunning =>
      simp only [after, instruction, hs, hrunning] at h
      cases h

/-- What an error leaves of a run: the lines written are the beginning of those that the roomier
machine has written, from the same number of instructions on. It is the same whether the instruction
that failed is counted or not. -/
theorem failed_continues (h : Roomier m m') {console : Console} {n k : Nat} {e : RuntimeError}
    {written : Console} (hend : (m.after console n).execution = .ended (.error e) written)
    (hle : n ≤ k + 1) :
    written.Continues (m'.after console k).execution.console := by
  have upto : ∀ {j : Nat}, (m.after console j).execution.console = written → j ≤ k →
      written.Continues (m'.after console k).execution.console := by
    intro j hj hjk
    obtain ⟨i, rfl⟩ := Nat.exists_eq_add_of_le hjk
    refine Console.Continues.trans ?_ (m'.after_continues console j i)
    rcases after_stricter h console j with heq | ⟨e', written', hended, -, hcontinues⟩
    · rw [← heq, hj]
      exact .refl _
    · rw [hended] at hj
      rw [← hj]
      exact hcontinues
  cases n with
  | zero =>
    refine upto (j := 0) ?_ (Nat.zero_le _)
    rw [hend]
    rfl
  | succ n => exact upto (console_before_error hend) (Nat.le_of_succ_le_succ hle)

/-- **Limits only ever cut a run short.** Under limits that are at least as great, a program comes
to the same end with the same lines written, unless a limit ended it before; and what it had written
when a limit ended it is the beginning of what it has written under the greater limits after as many
instructions or more. -/
theorem limits_only_cut_short (a : Artifact) (limits limits' : Limits)
    (hoperands : limits.operands ≤ limits'.operands) (hframes : limits.frames ≤ limits'.frames)
    (input : List UInt8) :
    (∀ r c, (∃ fuel, (Machine.mk a limits).runProgram fuel (.ofInput input) = .ended r c) →
      (∀ e, r = .error e → e.isLimit = false) →
      ∃ fuel, (Machine.mk a limits').runProgram fuel (.ofInput input) = .ended r c) ∧
    ∀ e c, (∃ fuel, (Machine.mk a limits).runProgram fuel (.ofInput input) = .ended (.error e) c) →
      e.isLimit = true →
      ∃ n, ((Machine.mk a limits).after (.ofInput input) n).execution = .ended (.error e) c ∧
        (∀ k < n,
          ((Machine.mk a limits).after (.ofInput input) k).execution ≠ .ended (.error e) c) ∧
        ∀ k, n ≤ k + 1 →
          let c' := ((Machine.mk a limits').after (.ofInput input) k).execution.console
          c.output.toList <+: c'.output.toList ∧ c.errors.toList <+: c'.errors.toList := by
  have hroom : Roomier ⟨a, limits⟩ ⟨a, limits'⟩ := ⟨rfl, hoperands, hframes⟩
  constructor
  · intro r c hends hother
    rw [runProgram_ended_iff] at hends ⊢
    obtain ⟨n, hn⟩ := hends
    refine ⟨n, ?_⟩
    rcases after_stricter hroom (.ofInput input) n with heq | ⟨e, written, hended, hlimit, -⟩
    · rw [← heq]
      exact hn
    · rw [hn] at hended
      cases hended
      rw [hother e rfl] at hlimit
      cases hlimit
  · intro e c hends hlimit
    rw [runProgram_ended_iff] at hends
    classical
    refine ⟨Nat.find hends, Nat.find_spec hends, fun k hk => Nat.find_min hends hk, ?_⟩
    intro k hk
    have hcontinues := failed_continues hroom (Nat.find_spec hends) hk
    exact ⟨Console.joinLines_prefix hcontinues.output, Console.joinLines_prefix hcontinues.errors⟩

/-- A starting block that writes a number and calls a block that writes another. -/
def writingArtifact : Artifact where
  name := "writing"
  blocks := #[
    { name := startName, signature := {}, slots := #[],
      segment := {
        code := #[0x00, 0, 0, 0xF8, 1, 0x50, 1, 0, 0x53], pool := #[.value (.int 7)] } },
    { name := "other", signature := {}, slots := #[],
      segment := { code := #[0x00, 0, 0, 0xF8, 1, 0x53], pool := #[.value (.int 8)] } }]

theorem runProgram_writing (limits : Limits) (fuel : Nat) (c : Console) :
    (Machine.mk writingArtifact limits).runProgram fuel c =
      (Machine.mk writingArtifact limits).invoke fuel 0 [] c := by
  have hstart : writingArtifact.blockIndex? startName = some 0 := by decide +kernel
  have hinit : writingArtifact.blockIndex? initName = none := by decide +kernel
  simp only [runProgram, runStages, blocksByName_get, hstart, hinit]
  rfl

/-- With one frame the call is refused and the first number is written; with two both are, and more
room changes nothing. -/
theorem limits_only_cut_short_writing :
    (∃ fuel, (Machine.mk writingArtifact ⟨1, 1⟩).runProgram fuel (.ofInput []) =
      .ended (.error .callDepthExceeded) { Console.ofInput [] with outputLines := ["7"] }) ∧
    (∃ n, ∀ k, n ≤ k + 1 → "7\n".toList <+:
      ((Machine.mk writingArtifact ⟨1, 2⟩).after (.ofInput []) k).execution.console.output.toList) ∧
    (∃ fuel, (Machine.mk writingArtifact ⟨1, 2⟩).runProgram fuel (.ofInput []) =
      .ended (.ok (.returned none)) { Console.ofInput [] with outputLines := ["8", "7"] }) ∧
    ∃ fuel, (Machine.mk writingArtifact ⟨9, 9⟩).runProgram fuel (.ofInput []) =
      .ended (.ok (.returned none)) { Console.ofInput [] with outputLines := ["8", "7"] } := by
  have hcut : ∃ fuel, (Machine.mk writingArtifact ⟨1, 1⟩).runProgram fuel (.ofInput []) =
      .ended (.error .callDepthExceeded) { Console.ofInput [] with outputLines := ["7"] } :=
    ⟨3, by rw [runProgram_writing]; rfl⟩
  have hends : ∃ fuel, (Machine.mk writingArtifact ⟨1, 2⟩).runProgram fuel (.ofInput []) =
      .ended (.ok (.returned none)) { Console.ofInput [] with outputLines := ["8", "7"] } :=
    ⟨7, by rw [runProgram_writing]; rfl⟩
  refine ⟨hcut, ?_, hends, ?_⟩
  · obtain ⟨n, -, -, hshorter⟩ := (limits_only_cut_short writingArtifact ⟨1, 1⟩ ⟨1, 2⟩
      (by decide) (by decide) []).2 _ _ hcut rfl
    exact ⟨n, fun k hk => (hshorter k hk).1⟩
  · exact (limits_only_cut_short writingArtifact ⟨1, 2⟩ ⟨9, 9⟩ (by decide)
      (by decide) []).1 _ _ hends (by rintro e ⟨⟩)

end Machine

end TypedStack
