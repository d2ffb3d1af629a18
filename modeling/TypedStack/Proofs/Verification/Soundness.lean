import TypedStack.Proofs.Machine.Faults
import TypedStack.Proofs.Verification.Preservation
/-!
# Verified artifacts run without faults

What one step keeps, a run keeps. Seen from the flat states of the machine the layers are an
existential, `State.Typed`; a limit that is reached is no fault, so the limits play no part.

The machine has no error for a frame or a block that is missing, since its states have no room for
that. A loose machine has one, and from the same beginnings it never reports it
(`Machine.looseRun_sound`).

An error that is a fault is one that a check of the verifier is there to rule out. Others are left:
a program can divide by zero, find no more input, or come to a limit.
-/

set_option autoImplicit false

namespace TypedStack

/-! ## Runs

Soundness of a run is soundness of its end or of the state it has come to. -/

/-- The state is a typed one, seen as the arrays in which the machine keeps it. -/
def State.Typed (a : Artifact) (s : State) : Prop := ∃ l : Layered, s = l.flatten ∧ l.Typed a

/-- A run is in a typed state, or has ended without a fault. -/
def Execution.Sound (a : Artifact) : Execution → Prop
  | .unfinished s => s.Typed a
  | .ended (.error e) _ => e.isFault = false
  | .ended (.ok _) _ => True

/-- A loose run goes on, or has ended without a fault. Where something is missing there is always a
fault, whatever it is that is missing. -/
def LooseExecution.Sound : LooseExecution → Prop
  | .unfinished _ => True
  | .ended (.error (.runtime e)) _ => e.isFault = false
  | .ended (.error (.internal _)) _ => False
  | .ended (.error (.outOfRange _)) _ => False
  | .ended (.ok _) _ => True

/-- A loose run that agrees with a sound one is sound. The two end in the same way, and the proper
run has no end in which something is missing. -/
theorem LooseExecution.Agrees.sound {m : Machine} {loose : LooseExecution} {proper : Execution}
    {a : Artifact} (h : Agrees m loose proper) (hproper : proper.Sound a) : loose.Sound := by
  cases h with
  | unfinished => trivial
  | ended result c =>
    cases result with
    | error e => exact hproper
    | ok o => trivial

namespace Machine

variable {m : Machine}

/-- A limit is no fault, so the machine is as sound as its layers. -/
theorem step_typed (ha : ∀ b ∈ m.artifact.blocks, m.artifact.verifyBlock b = .ok ()) {s : State}
    (h : s.Typed m.artifact) :
    (∃ e, m.step s = .error e ∧ e.isFault = false) ∨ (∃ o c, m.step s = .ok (.finished o c)) ∨
      ∃ s', m.step s = .ok (.running s') ∧ s'.Typed m.artifact := by
  obtain ⟨l, rfl, hl⟩ := h
  have hsound := hl.advance ha
  rcases m.step_flatten l with hstep | ⟨hstep, _⟩ | ⟨hstep, _⟩
  · -- within the limits
    rw [hstep]
    rcases hnext : l.advance m.artifact.blocks with e | (l' | ⟨o, c⟩)
    · rw [hnext] at hsound
      exact .inl ⟨e, rfl, hsound⟩
    · rw [hnext] at hsound
      exact .inr (.inr ⟨l'.flatten, rfl, l', rfl, hsound⟩)
    · exact .inr (.inl ⟨o, c, rfl⟩)
  · exact .inl ⟨_, hstep, rfl⟩
  · exact .inl ⟨_, hstep, rfl⟩

theorem runState_sound (ha : ∀ b ∈ m.artifact.blocks, m.artifact.verifyBlock b = .ok ()) (n : Nat) :
    ∀ {s : State}, s.Typed m.artifact → (m.runState n s).Sound m.artifact := by
  induction n with
  | zero => exact fun h => h
  | succ n ih =>
    intro s h
    simp only [runState]
    rcases step_typed ha h with ⟨e, hs, he⟩ | ⟨o, c, hs⟩ | ⟨s', hs, hs'⟩
    · rw [hs]
      exact he
    · rw [hs]
      trivial
    · rw [hs]
      exact ih hs'

/-- A block that begins with arguments of its parameter types is in a typed state. -/
theorem begin_typed (ha : ∀ b ∈ m.artifact.blocks, m.artifact.verifyBlock b = .ok ()) {index : Nat}
    {b : Block} (hb : m.artifact.blocks[index]? = some b) {arguments : List Value}
    (harg : arguments.map Value.type = b.signature.params) (console : Console) :
    (∃ e, m.begin index arguments console = .error e ∧ e.isFault = false) ∨
      ∃ s, m.begin index arguments console = .ok s ∧ s.Typed m.artifact := by
  have hlen : arguments.length = b.signature.params.length := by
    rw [← harg, List.length_map]
  have hmem : b ∈ m.artifact.blocks := Array.mem_of_getElem? hb
  rcases m.begin_flatten hb hlen console with h | ⟨h, _⟩ | ⟨h, _⟩
  · refine .inr ⟨_, h, _, rfl, ?_⟩
    exact ⟨Activation.fits_enter hmem (ha b hmem) harg, Artifact.records_start (ha b hmem), trivial⟩
  · exact .inl ⟨_, h, rfl⟩
  · exact .inl ⟨_, h, rfl⟩

theorem begin_ok_typed (ha : ∀ b ∈ m.artifact.blocks, m.artifact.verifyBlock b = .ok ())
    {index : Nat} {b : Block} (hb : m.artifact.blocks[index]? = some b) {arguments : List Value}
    (harg : arguments.map Value.type = b.signature.params) {console : Console} {start : State}
    (hstart : m.begin index arguments console = .ok start) : start.Typed m.artifact := by
  rcases begin_typed ha hb harg console with ⟨e, h, _⟩ | ⟨s, h, hs⟩
  · rw [hstart] at h
    cases h
  · rw [hstart] at h
    cases h
    exact hs

/-- A loose machine that begins with a block of a verified artifact never finds anything missing,
and ends with no other fault either. -/
theorem looseRun_sound (ha : ∀ b ∈ m.artifact.blocks, m.artifact.verifyBlock b = .ok ())
    {index : Nat} {b : Block} (hb : m.artifact.blocks[index]? = some b) {arguments : List Value}
    (harg : arguments.map Value.type = b.signature.params) {console : Console} {start : State}
    (hstart : m.begin index arguments console = .ok start) {l : Loose} (hl : l.Lays m start)
    (n : Nat) : (l.run m n).Sound := by
  have htyped := begin_ok_typed ha hb harg hstart
  exact (hl.run_agrees n (begin_wellFramed hstart)).sound (runState_sound ha n htyped)

/-- A run from the beginning of a block, with arguments of its parameter types. -/
theorem invoke_sound (ha : ∀ b ∈ m.artifact.blocks, m.artifact.verifyBlock b = .ok ()) {index : Nat}
    {b : Block} (hb : m.artifact.blocks[index]? = some b) {arguments : List Value}
    (harg : arguments.map Value.type = b.signature.params) (fuel : Nat) (console : Console) :
    (m.invoke fuel index arguments console).Sound m.artifact := by
  unfold invoke
  rcases begin_typed ha hb harg console with ⟨e, h, he⟩ | ⟨s, h, hs⟩
  · rw [h]
    exact he
  · rw [h]
    exact runState_sound ha fuel hs

end Machine

/-! ## Programs

The blocks that a program begins with are found by their names, and what its instructions name is
found by numbers. -/

/-- A reserved block that a program begins with takes no arguments. -/
theorem Artifact.reserved_block {a : Artifact}
    (ha : ∀ b ∈ a.blocks, a.verifyBlock b = .ok ()) {name : String}
    (hname : requiredSignature? name = some {}) {index : Nat}
    (h : a.blockIndex? name = some index) :
    ∃ b, a.blocks[index]? = some b ∧ b.signature = {} := by
  unfold Artifact.blockIndex? at h
  obtain ⟨hlt, hb, _⟩ := Array.findIdx?_eq_some_iff_getElem.mp h
  have hmem := Array.getElem_mem hlt
  have hreserved := (verifyBlock_ok.mp (ha _ hmem)).1
  refine ⟨a.blocks[index], Array.getElem?_eq_getElem hlt, ?_⟩
  unfold checkReserved at hreserved
  rw [beq_iff_eq.mp hb, hname] at hreserved
  simp only at hreserved
  split at hreserved
  · assumption
  · cases hreserved

/-- The numbers in an instruction of the innermost frame stay inside what they index. -/
def State.InRange (blocks : Array Block) (s : State) : EncodedOp → Prop
  | .const i | .printError i => i.toNat < s.frame.block.segment.pool.size
  | .load _ n | .store _ n =>
    n.toNat < s.frame.block.slots.size ∧ s.frame.localsBase + n.toNat < s.locals.size
  | .call i => i.toNat < blocks.size
  | .jump target | .jumpIf _ target | .jumpIfTrue target =>
    target.toNat < s.frame.block.segment.code.size
  | _ => True

/-- A recorded shape is that of an instruction inside the code. -/
theorem Artifact.Records.lt_size {a : Artifact} {b : Block} {offset : Nat} {shape : Shape}
    (h : a.Records b offset shape) : offset < b.segment.code.size := by
  obtain ⟨op, next, edges, hd, _⟩ := h.rule
  have := Segment.decodeAt_bounds hd
  omega

/-- A slot of the innermost activation is among those of the machine. -/
theorem Layered.Typed.slot_lt {a : Artifact} {l : Layered} (h : l.Typed a) {n : UInt16}
    {t : ValueType} (hn : l.current.block.slots[n.toNat]? = some t) :
    n.toNat < l.current.block.slots.size ∧
      l.flatten.frame.localsBase + n.toNat < l.flatten.locals.size := by
  have hlt := (Array.getElem?_eq_some_iff.mp hn).1
  have hlen : l.current.slots.length = l.current.block.slots.size := by
    rw [← List.length_map (f := Value.type), h.fits.slots, Array.length_toList]
  refine ⟨hlt, ?_⟩
  simp only [Layered.flatten, Layered.activations, Activation.frame, Activation.slotsOf,
    List.size_toArray, List.length_append]
  omega

/-- The next instruction of a typed state is there, and so is everything that it names. -/
theorem State.Typed.inRange {a : Artifact} {s : State} (h : s.Typed a) :
    ∃ op next, s.frame.block.segment.decode s.frame.ip = .ok (op, next) ∧
      s.InRange a.blocks op := by
  obtain ⟨l, rfl, hl⟩ := h
  obtain ⟨op, next, edges, hd, hrule, hall⟩ := hl.shape.rule
  refine ⟨op, next, hd, ?_⟩
  generalize l.current.operands.map Value.type = shape at hrule
  cases hrule with
  | const hk => exact (Array.getElem?_eq_some_iff.mp hk).1
  | printError hk => exact (Array.getElem?_eq_some_iff.mp hk).1
  | load hn => exact hl.slot_lt hn
  | store hn => exact hl.slot_lt hn
  | call hi => exact (Array.getElem?_eq_some_iff.mp hi).1
  | jump => exact (hall _ List.mem_cons_self).lt_size
  | jumpIf => exact (hall _ List.mem_cons_self).lt_size
  | jumpIfTrue => exact (hall _ List.mem_cons_self).lt_size
  | _ => trivial

namespace Machine

variable {m : Machine}

/-- A program begins with a reserved block, whose signature was checked, so there are no arguments
to have a wrong type. -/
theorem runProgram_sound (ha : ∀ b ∈ m.artifact.blocks, m.artifact.verifyBlock b = .ok ())
    (fuel : Nat) (console : Console) : (m.runProgram fuel console).Sound m.artifact := by
  have hinvoke : ∀ {name : String} {index : Nat} (c : Console), requiredSignature? name = some {} →
      m.artifact.blockIndex? name = some index →
      (m.invoke fuel index [] c).Sound m.artifact := by
    intro name index c hname hindex
    obtain ⟨b, hb, hsig⟩ := Artifact.reserved_block ha hname hindex
    exact invoke_sound ha hb (by rw [hsig]; rfl) fuel c
  cases hstart : m.artifact.blockIndex? startName with
  | none =>
    simp only [runProgram, runStages, blocksByName_get, hstart]
    rfl
  | some start =>
    cases hinit : m.artifact.blockIndex? initName with
    | none =>
      simp only [runProgram, runStages, blocksByName_get, hstart, hinit]
      exact hinvoke console rfl hstart
    | some init =>
      have hfirst := hinvoke console rfl hinit
      rw [m.runProgram_eq hstart hinit]
      split
      · exact hinvoke _ rfl hstart
      · exact hfirst

theorem call_sound (ha : ∀ b ∈ m.artifact.blocks, m.artifact.verifyBlock b = .ok ()) {name : String}
    {index : Nat} {b : Block} (hname : m.artifact.blockIndex? name = some index)
    (hb : m.artifact.blocks[index]? = some b) {arguments : List Value}
    (harg : arguments.map Value.type = b.signature.params) (fuel : Nat) :
    (m.call fuel name arguments).Sound m.artifact := by
  have hlen : arguments.length = b.signature.params.length := by
    rw [← harg, List.length_map]
  have hrun := invoke_sound ha hb harg fuel (Console.ofInput [])
  simp only [call, blocksByName_get, hname, hb, Option.map_some, Option.getD_some, hlen, ne_eq,
    not_true_eq_false, if_false]
  split
  · exact rfl
  · exact hrun

/-- **Verified artifacts run without faults.** Whatever block a run begins with, under whatever
limits and with whatever input, as long as the arguments have the parameter types: after any number
of steps the state consists of activations that have the operands and slots which the verifier
recorded and the block declares, and the next instruction names only what is there. So programs and
calls do not end with a fault.

There is no error for a machine without a frame, since a state always has an innermost one. A loose
machine has that error, and an error for an index that is out of range. It can begin wherever the
machine can, and however long it runs it reports neither. -/
theorem verified_runs_sound (m : Machine) (ha : m.artifact.verify = .ok ()) :
    (∀ (index : Nat) (b : Block) (arguments : List Value) (console : Console) (n : Nat)
      (start s : State), m.artifact.blocks[index]? = some b →
      arguments.map Value.type = b.signature.params →
      m.begin index arguments console = .ok start → m.runState n start = .unfinished s →
      (∃ l : Layered, s = l.flatten ∧ l.Typed m.artifact) ∧
        ∃ op next, s.frame.block.segment.decode s.frame.ip = .ok (op, next) ∧
          s.InRange m.artifact.blocks op) ∧
    (∀ (index : Nat) (b : Block) (arguments : List Value) (console : Console) (start : State),
      m.artifact.blocks[index]? = some b → arguments.map Value.type = b.signature.params →
      m.begin index arguments console = .ok start →
      (∃ l : Loose, l.Lays m start) ∧ ∀ (l : Loose) (n : Nat), l.Lays m start → (l.run m n).Sound) ∧
    (∀ (fuel : Nat) (input : List UInt8),
      (m.runProgram fuel (.ofInput input)).Sound m.artifact) ∧
    (∀ (fuel : Nat) (name : String) (index : Nat) (b : Block) (arguments : List Value),
      m.artifact.blockIndex? name = some index → m.artifact.blocks[index]? = some b →
      arguments.map Value.type = b.signature.params →
      (m.call fuel name arguments).Sound m.artifact) := by
  have hblocks := (Artifact.verify_ok.mp ha).2
  refine ⟨?_, ?_, fun fuel input => runProgram_sound hblocks fuel _, ?_⟩
  · intro index b arguments console n start s hb harg hbegin hrun
    have htyped : s.Typed m.artifact := by
      have hsound := runState_sound hblocks n (begin_ok_typed hblocks hb harg hbegin)
      rw [hrun] at hsound
      exact hsound
    exact ⟨htyped, htyped.inRange⟩
  · intro index b arguments console start hb harg hbegin
    exact ⟨Loose.exists_lays (begin_wellFramed hbegin),
      fun l n hl => looseRun_sound hblocks hb harg hbegin hl n⟩
  · intro fuel name index b arguments hname hb harg
    exact call_sound hblocks hname hb harg fuel

/-- A starting block that calls the main block and ends with its result. -/
def callingArtifact : Artifact where
  name := "calling"
  blocks := #[
    { name := startName, signature := {}, slots := #[],
      segment := { code := #[0x50, 1, 0, 0xFF], pool := #[], lines := #[] } },
    { name := mainName, signature := { result := some .int }, slots := #[],
      segment := { code := #[0x00, 0, 0, 0x52, 1], pool := #[.value (.int 7)], lines := #[] } }]

/-- It verifies: each block has few instructions, and the shapes are found at once. -/
theorem callingArtifact_verify : callingArtifact.verify = .ok () := by
  rw [Artifact.verify_ok]
  refine ⟨by decide, fun b hb => ?_⟩
  simp only [callingArtifact, List.mem_toArray, List.mem_cons, List.not_mem_nil, or_false] at hb
  rcases hb with rfl | rfl
  · decide +kernel
  · decide +kernel

theorem verified_runs_sound_calling :
    callingArtifact.verify = .ok () ∧
      (∀ fuel input, (runProgram ⟨callingArtifact, {}⟩ fuel (.ofInput input)).Sound
        callingArtifact) ∧
      ∀ fuel, (call ⟨callingArtifact, {}⟩ fuel mainName []).Sound callingArtifact := by
  have h := verified_runs_sound ⟨callingArtifact, {}⟩ callingArtifact_verify
  exact ⟨callingArtifact_verify, h.2.2.1,
    fun fuel => h.2.2.2 fuel mainName 1 _ [] (by decide +kernel) rfl rfl⟩

end Machine

end TypedStack
