import TypedStack.Proofs.Machine.Overflow
import TypedStack.Proofs.Verification.Soundness
/-!
# How high the operand stack of a verified program grows

The verifier knows the operand stack of each block at each offset, so it knows the highest. A
running activation has the operands recorded for the instruction it is at, and a waiting one has
those recorded for its call without the arguments. So a state has at most the highest recorded shape
for each of its frames (`Layered.Typed.height_le`), whatever loops it has gone through, and with
room for as many operands in each frame that may exist a program never runs out of it
(`Machine.operands_within_shapes`).

The bound is a number that can be computed from the artifact, and it does not depend on the input.
It is a product, and so it says nothing about programs whose recursion has no limit but that of the
machine.
-/

set_option autoImplicit false

namespace TypedStack

/-! ## The highest recorded shape

It is a shape of some block at some offset, and no shape of any block is longer. -/

namespace Artifact

/-- All shapes that the verifier records, block by block. -/
def recordedShapes (a : Artifact) : List Shape :=
  a.blocks.toList.flatMap fun b =>
    (((TypingContext.shapes ⟨a.blocks, b⟩).toOption.getD #[]).toList).filterMap id

/-- The length of the longest shape that the verifier records. -/
def greatestShape (a : Artifact) : Nat := (a.recordedShapes.map List.length).max?.getD 0

variable {a : Artifact}

/-- The shapes of the list are those that the verifier records somewhere. -/
theorem mem_recordedShapes {shape : Shape} :
    shape ∈ a.recordedShapes ↔ ∃ b ∈ a.blocks, ∃ offset, a.Records b offset shape := by
  have hblock : ∀ b : Block,
      shape ∈ (((TypingContext.shapes ⟨a.blocks, b⟩).toOption.getD #[]).toList).filterMap id ↔
        ∃ offset, a.Records b offset shape := by
    intro b
    cases hshapes : TypingContext.shapes ⟨a.blocks, b⟩ with
    | error e => simp [Except.toOption, Artifact.Records, hshapes]
    | ok shapes =>
      simp [Except.toOption, Artifact.Records, hshapes, shapeAt, Array.mem_iff_getElem?,
        Option.join_eq_some_iff]
  simp only [recordedShapes, List.mem_flatMap, Array.mem_toList_iff, hblock]

theorem Records.length_le {b : Block} (hb : b ∈ a.blocks) {offset : Nat} {shape : Shape}
    (h : a.Records b offset shape) : shape.length ≤ a.greatestShape := by
  have hmem : shape.length ∈ a.recordedShapes.map List.length :=
    List.mem_map_of_mem (mem_recordedShapes.mpr ⟨b, hb, offset, h⟩)
  unfold greatestShape
  cases hmax : (a.recordedShapes.map List.length).max? with
  | none =>
    rw [List.max?_eq_none_iff.mp hmax] at hmem
    cases hmem
  | some n => exact (List.max?_eq_some_iff.mp hmax).2 _ hmem

/-- Some recorded shape is as long as the greatest. -/
theorem records_greatestShape {b : Block} (hb : b ∈ a.blocks) (hv : a.verifyBlock b = .ok ()) :
    ∃ b' ∈ a.blocks, ∃ offset shape, a.Records b' offset shape ∧
      shape.length = a.greatestShape := by
  have hmem : [] ∈ a.recordedShapes := mem_recordedShapes.mpr ⟨b, hb, 0, records_start hv⟩
  unfold greatestShape
  cases hmax : (a.recordedShapes.map List.length).max? with
  | none =>
    rw [List.map_eq_nil_iff.mp (List.max?_eq_none_iff.mp hmax)] at hmem
    cases hmem
  | some n =>
    obtain ⟨shape, hshape, hlength⟩ := List.mem_map.mp (List.max?_eq_some_iff.mp hmax).1
    obtain ⟨b', hb', offset, hrecords⟩ := mem_recordedShapes.mp hshape
    exact ⟨b', hb', offset, shape, hrecords, hlength⟩

end Artifact

/-! ## States

The operands of a state are those of its activations, one above another. -/

variable {a : Artifact}

/-- Each waiting activation has at most the operands recorded for its call. -/
theorem Activation.Chain.height_le {callee : Block} {waiting : List Activation}
    (h : Activation.Chain a callee waiting) :
    (Activation.stackOf waiting).length ≤ a.greatestShape * waiting.length := by
  induction waiting generalizing callee with
  | nil => simp [Activation.stackOf]
  | cons x outer ih =>
    obtain ⟨hfits, ⟨offset, i, -, -, hrecords⟩, houter⟩ := h
    have hbelow := ih houter
    have hhere := hrecords.length_le hfits.block
    simp only [List.length_append, List.length_reverse, List.length_map] at hhere
    simp only [Activation.stackOf, List.length_append, List.length_reverse, List.length_cons,
      Nat.mul_succ]
    omega

/-- The innermost activation has a recorded shape, and so has each of the others at its call. -/
theorem Layered.Typed.height_le {l : Layered} (h : l.Typed a) :
    l.height ≤ a.greatestShape * l.activations.length := by
  have hbelow := h.chain.height_le
  have hhere := h.shape.length_le h.fits.block
  rw [List.length_map] at hhere
  simp only [Layered.height, Layered.activations, Activation.stackOf, List.length_append,
    List.length_reverse, List.length_cons, Nat.mul_succ]
  omega

/-- The same for the state as the machine keeps it. -/
theorem State.Typed.operands_le {s : State} (h : s.Typed a) :
    s.operands.size ≤ a.greatestShape * s.frames.length := by
  obtain ⟨l, rfl, hl⟩ := h
  have hframes : l.flatten.frames.length = l.activations.length := by
    simp [Layered.flatten, State.frames, Layered.activations]
  rw [hframes]
  exact hl.height_le

/-! ## Runs

A typed state stays typed, and a step that would need more room than there is would lead to a state
that is too high. -/

namespace Machine

variable {m : Machine}

/-- A block that begins without arguments has none to take. -/
theorem begin_bare_typed (ha : ∀ b ∈ m.artifact.blocks, m.artifact.verifyBlock b = .ok ())
    {index : Nat} {console : Console} {s : State} (h : m.begin index [] console = .ok s) :
    s.Typed m.artifact := by
  obtain ⟨operands, f, locals, rest, hpush, hactivate, -⟩ := begin_ok h
  cases hpush
  have hbegins := activate_ok hactivate
  have hcount := hbegins.count_le
  have hparams : ([] : List Value).map Value.type = f.block.signature.params := by
    symm
    rw [List.map_nil, ← List.length_eq_zero_iff]
    simpa using hcount
  rcases begin_typed ha hbegins.block hparams console with ⟨e, he, -⟩ | ⟨s', hs', htyped⟩
  · rw [h] at he
    cases he
  · rw [h] at hs'
    cases hs'
    exact htyped

theorem running_typed (ha : ∀ b ∈ m.artifact.blocks, m.artifact.verifyBlock b = .ok ())
    {s s' : State} (hs : s.Typed m.artifact) (h : m.step s = .ok (.running s')) :
    s'.Typed m.artifact := by
  rcases step_typed ha hs with ⟨e, he, -⟩ | ⟨o, c, hend⟩ | ⟨s₁, hs₁, htyped⟩
  · rw [h] at he
    cases he
  · rw [h] at hend
    cases hend
  · rw [h] at hs₁
    cases hs₁
    exact htyped

/-- So every state that a program comes to is typed. -/
theorem after_typed (ha : ∀ b ∈ m.artifact.blocks, m.artifact.verifyBlock b = .ok ())
    {console : Console} {n : Nat} {s : State}
    (h : (m.after console n).execution = .unfinished s) : s.Typed m.artifact := by
  refine after_invariant (P := fun s => s.Typed m.artifact) ?_ ?_ n s h
  · intro index c s hbegin
    exact begin_bare_typed ha hbegin
  · intro s s' hs hstep
    exact running_typed ha hs hstep

/-- With room for the highest shape in every frame that may exist, a step finds room. If it did not,
the state it leads to without a limit would be typed and would have more operands than typed states
have. -/
theorem step_ne_overflow (ha : ∀ b ∈ m.artifact.blocks, m.artifact.verifyBlock b = .ok ())
    (hroom : m.artifact.greatestShape * m.limits.frames ≤ m.limits.operands) {s : State}
    (hs : s.Typed m.artifact) (hframes : s.frames.length ≤ m.limits.frames) :
    m.step s ≠ .error .stackOverflow := by
  intro h
  -- a machine with room for one more comes to a typed state that is too high
  let roomy : Machine := ⟨m.artifact, ⟨s.operands.size + 1, m.limits.frames⟩⟩
  have hmore : s.operands.size < roomy.limits.operands := Nat.lt_succ_self _
  obtain ⟨s', hs', hover, hfewer⟩ := step_overflow h hmore
  have htyped : s'.Typed m.artifact := running_typed (m := roomy) ha hs hs'
  have hle : s'.operands.size ≤ m.limits.operands := calc
    s'.operands.size ≤ m.artifact.greatestShape * s'.frames.length := htyped.operands_le
    _ ≤ m.artifact.greatestShape * m.limits.frames :=
      Nat.mul_le_mul_left _ (Nat.le_trans hfewer hframes)
    _ ≤ m.limits.operands := hroom
  exact absurd hle (Nat.not_le_of_lt hover)

/-- **The operand stack is bounded by the shapes.** In a verified artifact some recorded shape is
the longest, and at every point of a program's run there are at most as many operands for each
frame. So with room for as many in every frame that may exist no run ends for want of room. -/
theorem operands_within_shapes (m : Machine) (ha : m.artifact.verify = .ok ()) :
    (∀ b ∈ m.artifact.blocks, ∀ offset shape, m.artifact.Records b offset shape →
      shape.length ≤ m.artifact.greatestShape) ∧
    (m.artifact.blocks ≠ #[] → ∃ b ∈ m.artifact.blocks, ∃ offset shape,
      m.artifact.Records b offset shape ∧ shape.length = m.artifact.greatestShape) ∧
    (∀ input n s, (m.after (.ofInput input) n).execution = .unfinished s →
      s.operands.size ≤ m.artifact.greatestShape * s.frames.length) ∧
    (m.artifact.greatestShape * m.limits.frames ≤ m.limits.operands → ∀ input fuel c,
      m.runProgram fuel (.ofInput input) ≠ .ended (.error .stackOverflow) c) := by
  have hblocks := (Artifact.verify_ok.mp ha).2
  refine ⟨fun b hb offset shape h => h.length_le hb, fun hne => ?_, fun input n s h => ?_,
    fun hroom input fuel c h => ?_⟩
  · obtain ⟨b, hb⟩ := Array.exists_mem_of_ne_empty _ hne
    exact Artifact.records_greatestShape hb (hblocks b hb)
  · exact (after_typed hblocks h).operands_le
  · obtain ⟨n, hn⟩ := (after_runProgram m (.ofInput input) fuel).2 _ _ h
    refine after_error (P := fun e => e ≠ .stackOverflow) ?_ ?_ ?_ n _ _ hn rfl
    · rintro ⟨⟩
    · rintro index c e he rfl
      exact begin_ne_overflow he
    · rintro k s e hs he rfl
      have hframed : s.WellFramed m := Visits.wellFramed (.inl ⟨input, k, hs⟩)
      exact step_ne_overflow hblocks hroom (after_typed hblocks hs) hframed.frames_le he

/-- A main block that keeps one operand and calls itself, without end. -/
def recursingArtifact : Artifact where
  name := "recursing"
  blocks := #[
    { name := startName, signature := {}, slots := #[],
      segment := { code := #[0x50, 1, 0, 0xFF], pool := #[], lines := #[] } },
    { name := mainName, signature := { result := some .int }, slots := #[],
      segment := {
        code := #[0x00, 0, 0, 0x50, 1, 0, 0x20, 1, 0x52, 1]
        pool := #[.value (.int 7)]
        lines := #[] } }]

theorem recursingArtifact_verify : recursingArtifact.verify = .ok () := by
  rw [Artifact.verify_ok]
  refine ⟨by decide, fun b hb => ?_⟩
  simp only [recursingArtifact, List.mem_toArray, List.mem_cons, List.not_mem_nil, or_false] at hb
  rcases hb with rfl | rfl
  · decide +kernel
  · decide +kernel

theorem recursingArtifact_greatestShape : recursingArtifact.greatestShape = 2 := by
  decide +kernel

/-- Two operands a frame are enough for a program that calls itself without end. -/
theorem operands_within_shapes_recursing :
    recursingArtifact.verify = .ok () ∧
      (∃ b ∈ recursingArtifact.blocks, ∃ offset shape,
        recursingArtifact.Records b offset shape ∧ shape.length = 2) ∧
      (∃ s, (after ⟨recursingArtifact, ⟨6, 3⟩⟩ (.ofInput []) 4).execution = .unfinished s ∧
        s.operands.size = 2 ∧ s.frames.length = 3) ∧
      ∀ frames input,
        (∀ n s, (after ⟨recursingArtifact, ⟨2 * frames, frames⟩⟩ (.ofInput input) n).execution =
          .unfinished s → s.operands.size ≤ 2 * s.frames.length) ∧
        ∀ fuel c, runProgram ⟨recursingArtifact, ⟨2 * frames, frames⟩⟩ fuel (.ofInput input) ≠
          .ended (.error .stackOverflow) c := by
  have h := fun frames : Nat =>
    operands_within_shapes ⟨recursingArtifact, ⟨2 * frames, frames⟩⟩ recursingArtifact_verify
  simp only [recursingArtifact_greatestShape] at h
  refine ⟨recursingArtifact_verify, (h 0).2.1 (by decide), ?_, fun frames input => ⟨?_, ?_⟩⟩
  · with_unfolding_all exact ⟨_, rfl, rfl, rfl⟩
  · exact (h frames).2.2.1 input
  · exact (h frames).2.2.2 (Nat.le_refl _) input

end Machine

end TypedStack
