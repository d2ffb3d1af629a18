import TypedStack.Proofs.Machine.Layers
import TypedStack.Proofs.Machine.Values
import TypedStack.Proofs.Verification.Fixpoint
import TypedStack.Proofs.Verification.Rules
/-!
# A step keeps what the verifier has recorded

The shapes that the verifier records are an invariant of the machine, `Layered.Typed`: the operands
of the innermost activation have the types recorded for the instruction it is at, those of a waiting
activation have the types recorded for its call without the arguments of the call, and the slots of
each activation have the types that its block declares. One step keeps the invariant and does not
fault (`Layered.Typed.advance`), by the typing rule of the instruction.

The machine is looked at in layers, one activation above another with operands and slots of its own.
In the arrays of the machine an activation is a range between two indices, and the verifier, which
types one block at a time, says nothing about what lies outside of it.
-/

set_option autoImplicit false

namespace TypedStack

/-! ## The invariant

It has three parts: what is known of each activation by itself, what the innermost one is about to
do, and how each of the others waits for the one above it. -/

/-- The verifier records a shape for an offset of a block. -/
def Artifact.Records (a : Artifact) (b : Block) (offset : Nat) (shape : Shape) : Prop :=
  ∃ shapes, TypingContext.shapes ⟨a.blocks, b⟩ = .ok shapes ∧ shapeAt shapes offset = some shape

namespace Artifact

variable {a : Artifact} {b : Block}

/-- Where a shape is recorded there is an instruction whose rule applies, and the rule leads to
recorded shapes. -/
theorem Records.rule {offset : Nat} {shape : Shape} (h : a.Records b offset shape) :
    ∃ op next edges, b.segment.decode offset = .ok (op, next) ∧
      TypingContext.Rule ⟨a.blocks, b⟩ next op shape edges ∧
      ∀ edge ∈ edges, a.Records b edge.1 edge.2 := by
  obtain ⟨shapes, hshapes, hs⟩ := h
  obtain ⟨table, hrec⟩ := TypingContext.recorded_closed hshapes
  obtain ⟨op, next, edges, hat, hedges, hall⟩ := hrec.closed offset shape hs
  exact ⟨op, next, edges, ((OpTable.at?_iff hrec.sweep).mp hat).2,
    TypingContext.rule_of_edges hedges, fun e he => ⟨shapes, hshapes, hall e he⟩⟩

theorem records_start (hb : a.verifyBlock b = .ok ()) : a.Records b 0 [] := by
  obtain ⟨_, shapes, hshapes⟩ := verifyBlock_ok.mp hb
  obtain ⟨table, hrec⟩ := TypingContext.recorded_closed hshapes
  exact ⟨shapes, hshapes, hrec.start⟩

/-- The parameters of a verified block are its first slots. -/
theorem params_of_verifyBlock (hb : a.verifyBlock b = .ok ()) :
    b.signature.params <+: b.slots.toList := by
  obtain ⟨_, shapes, hshapes⟩ := verifyBlock_ok.mp hb
  obtain ⟨table, hrec⟩ := TypingContext.recorded_closed hshapes
  exact hrec.params

end Artifact

/-- An activation of a block of the artifact whose slots have the declared types. -/
structure Activation.Fits (a : Artifact) (x : Activation) : Prop where
  block : x.block ∈ a.blocks
  slots : x.slots.map Value.type = x.block.slots.toList

/-- An activation that has called a block: the verifier has recorded for the call the operands that
are left and, on top of them, the arguments. -/
def Activation.Awaits (a : Artifact) (callee : Block) (x : Activation) : Prop :=
  ∃ offset i, x.block.segment.decode offset = .ok (.call i, x.ip) ∧
    a.blocks[i.toNat]? = some callee ∧
    a.Records x.block offset (callee.signature.params.reverse ++ x.operands.map Value.type)

/-- The activations below one of a block: each waits for the one above it. The block is an argument,
since what a waiting activation gets back depends on the signature of what it called. -/
def Activation.Chain (a : Artifact) : Block → List Activation → Prop
  | _, [] => True
  | callee, x :: outer => x.Fits a ∧ x.Awaits a callee ∧ Chain a x.block outer

/-- Every activation has what the verifier has recorded for it. -/
structure Layered.Typed (a : Artifact) (l : Layered) : Prop where
  fits : l.current.Fits a
  shape : a.Records l.current.block l.current.ip (l.current.operands.map Value.type)
  chain : Activation.Chain a l.current.block l.waiting

/-- A step came to a typed state, ended the run, or failed with an error that is no fault. -/
def Layered.Sound (a : Artifact) : Except RuntimeError Layered.Next → Prop
  | .error e => e.isFault = false
  | .ok (.finished _ _) => True
  | .ok (.running l) => l.Typed a

/-! ## One step

An instruction by itself, with three lemmas for what several of them do: going on inside the
activation, beginning another one, and leaving it. -/

theorem takeOperand_cons {v : Value} {t : ValueType} (h : v.type = t) (rest : List Value) :
    takeOperand t (v :: rest) = .ok (v, rest) := by
  simp [takeOperand, h]

/-- The two operands of an instruction that has two, the second on top. -/
theorem operands_pair {operands : List Value} {t u : ValueType} {s : Shape}
    (h : operands.map Value.type = t :: u :: s) :
    ∃ y x rest, operands = y :: x :: rest ∧ y.type = t ∧ x.type = u ∧ rest.map Value.type = s := by
  obtain ⟨y, tail, rfl, hy, htail⟩ := List.map_eq_cons_iff.mp h
  obtain ⟨x, rest, rfl, hx, hrest⟩ := List.map_eq_cons_iff.mp htail
  exact ⟨y, x, rest, rfl, hy, hx, hrest⟩

/-- A declared slot is there and has a value of its type. -/
theorem Activation.Fits.slot {a : Artifact} {x : Activation} (h : x.Fits a) {n : UInt16}
    {t : ValueType} (hn : x.block.slots[n.toNat]? = some t) :
    ∃ v, x.slot n = .ok v ∧ v.type = t := by
  have hget : (x.slots.map Value.type)[n.toNat]? = some t := by
    rw [h.slots, Array.getElem?_toList, hn]
  obtain ⟨v, hv, ht⟩ := Option.map_eq_some_iff.mp (List.getElem?_map ▸ hget)
  have hlt : ¬ x.block.slots.size ≤ n.toNat := by
    have := (Array.getElem?_eq_some_iff.mp hn).1
    omega
  exact ⟨v, by rw [Activation.slot, if_neg hlt, hv], ht⟩

/-- Storing a value of the declared type keeps the types of the slots. -/
theorem Activation.Fits.store {a : Artifact} {x : Activation} (h : x.Fits a) {n : UInt16}
    {v : Value} (hn : x.block.slots[n.toNat]? = some v.type) :
    Activation.Fits a { x with slots := x.slots.set n.toNat v } := by
  refine ⟨h.block, ?_⟩
  show (x.slots.set n.toNat v).map Value.type = x.block.slots.toList
  rw [List.map_set, h.slots]
  apply List.ext_getElem?
  intro k
  rw [List.getElem?_set]
  split
  · next hk =>
    subst hk
    rw [Array.getElem?_toList, hn]
    have := (Array.getElem?_eq_some_iff.mp hn).1
    simp [this]
  · rfl

/-- A block begins with its arguments and zeros. -/
theorem Activation.fits_enter {a : Artifact} {b : Block} (hb : b ∈ a.blocks)
    (hv : a.verifyBlock b = .ok ()) {arguments : List Value}
    (harg : arguments.map Value.type = b.signature.params) :
    (Activation.enter b arguments).Fits a := by
  refine ⟨hb, ?_⟩
  obtain ⟨rest, hrest⟩ := Artifact.params_of_verifyBlock hv
  have hzero : Value.type ∘ Value.zero = id := funext Value.type_zero
  show (arguments ++ _).map Value.type = b.slots.toList
  rw [List.map_append, harg, List.map_map, hzero, List.map_id, ← hrest, List.drop_left]

namespace Layered

variable {a : Artifact} {l : Layered}

/-- Going on inside an activation, whatever the console has come to. -/
theorem Typed.goTo (h : l.Typed a) (c : Console) {ip : Nat} {operands : List Value}
    (hr : a.Records l.current.block ip (operands.map Value.type)) :
    Sound a (.ok ({ l with console := c }.goTo ip operands)) :=
  ⟨⟨h.fits.block, h.fits.slots⟩, hr, h.chain⟩

/-- A result goes where the verifier has recorded it: on top of what the caller has left below the
arguments of its call. Where nobody waits, the run is over. -/
theorem Typed.leave (h : l.Typed a) {result : Option Value}
    (hresult : result.map Value.type = l.current.block.signature.result) :
    Sound a (.ok (l.leave result)) := by
  obtain ⟨console, x, waiting⟩ := l
  cases waiting with
  | nil => trivial
  | cons caller outer =>
    obtain ⟨hfits, ⟨offset, i, hdecode, hcallee, hrec⟩, hchain⟩ := h.chain
    obtain ⟨op, next, edges, hop, hrule, hall⟩ := hrec.rule
    rw [hdecode] at hop
    cases hop
    refine ⟨⟨hfits.block, hfits.slots⟩, ?_, hchain⟩
    -- the rule of the call fixes the shape after it
    generalize hshape : x.block.signature.params.reverse ++ caller.operands.map Value.type = shape
      at hrule
    cases hrule with
    | call hi =>
      simp only at hi
      rw [hcallee] at hi
      cases hi
      have hs := List.append_cancel_left hshape
      subst hs
      have hback := hall _ List.mem_cons_self
      have hmap : (result.toList ++ caller.operands).map Value.type =
          x.block.signature.result.toList ++ caller.operands.map Value.type := by
        rw [List.map_append, ← hresult]
        cases result <;> rfl
      exact hmap ▸ hback

/-- A call begins the block with arguments of its parameter types, and leaves the rest of the
operands waiting. -/
theorem Typed.call (ha : ∀ b ∈ a.blocks, a.verifyBlock b = .ok ()) (h : l.Typed a) {i : UInt16}
    {next : Nat} {callee : Block} {s : Shape}
    (hd : l.current.block.segment.decode l.current.ip = .ok (.call i, next))
    (hi : a.blocks[i.toNat]? = some callee)
    (hs : l.current.operands.map Value.type = callee.signature.params.reverse ++ s) :
    Sound a (l.execute a.blocks (.call i) next) := by
  obtain ⟨arguments, rest, hops, harg, rfl⟩ := List.map_eq_append_iff.mp hs
  have hcount : callee.signature.params.length = arguments.length := by
    rw [← List.length_map (f := Value.type), harg, List.length_reverse]
  have hcallee : callee ∈ a.blocks := Array.mem_of_getElem? hi
  simp only [Layered.execute, hi, hops]
  rw [if_neg (by simp [hcount]), hcount, List.take_left, List.drop_left]
  refine ⟨?_, ?_, ?_⟩
  · -- the last argument is on top, so the order is turned round twice
    refine Activation.fits_enter hcallee (ha callee hcallee) ?_
    rw [List.map_reverse, harg, List.reverse_reverse]
  · exact Artifact.records_start (ha callee hcallee)
  · refine ⟨⟨h.fits.block, h.fits.slots⟩, ⟨l.current.ip, i, hd, hi, ?_⟩, h.chain⟩
    exact hs ▸ h.shape

/-- **One instruction.** It finds the operands that its rule asks for, and what it leaves is what
the rule brings to the next instruction, where the verifier has recorded it. One case per rule. -/
theorem Typed.execute (ha : ∀ b ∈ a.blocks, a.verifyBlock b = .ok ()) (h : l.Typed a)
    {op : EncodedOp} {next : Nat} {edges : List Edge}
    (hd : l.current.block.segment.decode l.current.ip = .ok (op, next))
    (hrule : TypingContext.Rule ⟨a.blocks, l.current.block⟩ next op
      (l.current.operands.map Value.type) edges)
    (hall : ∀ edge ∈ edges, a.Records l.current.block edge.1 edge.2) :
    Sound a (l.execute a.blocks op next) := by
  -- the rule fixes the shape, and with it what the instruction finds on top of the stack
  generalize hs : l.current.operands.map Value.type = shape at hrule
  cases hrule with
  | const hk =>
    simp only [Layered.execute, hk, Option.bind_some, Constant.value?]
    exact h.goTo l.console (by simpa [hs] using hall)
  | pop =>
    obtain ⟨v, rest, hops, hv, rfl⟩ := List.map_eq_cons_iff.mp hs
    simp only [Layered.execute, hops, takeOperand_cons hv]
    exact h.goTo l.console (by simpa using hall)
  | load hn =>
    obtain ⟨v, hv, ht⟩ := h.fits.slot hn
    simp only [Layered.execute, hv]
    show Sound a (if v.type = _ then _ else _)
    rw [if_pos ht]
    exact h.goTo l.console (by simpa [hs, ht] using hall)
  | store hn =>
    obtain ⟨v, rest, hops, rfl, rfl⟩ := List.map_eq_cons_iff.mp hs
    obtain ⟨w, hw, _⟩ := h.fits.slot hn
    simp only [Layered.execute, hops, takeOperand_cons rfl]
    show Sound a (l.current.slot _ >>= _)
    rw [hw]
    have hstored : Layered.Typed a
        { l with current := { l.current with slots := l.current.slots.set _ v } } :=
      ⟨h.fits.store hn, h.shape, h.chain⟩
    exact hstored.goTo l.console (by simpa using hall)
  | arith ht =>
    obtain ⟨y, x, rest, hops, hy, hx, rfl⟩ := operands_pair hs
    simp only [Layered.execute, hops, takeOperand_cons hy, except_ok_bind, takeOperand_cons hx]
    rename_i o t
    rcases o.apply_typed ht hx hy with hzero | ⟨v, hv, hvt⟩
    · simp only [hzero]
      rfl
    · simp only [hv]
      exact h.goTo l.console (by simpa [hvt] using hall)
  | cast =>
    obtain ⟨v, rest, hops, hv, rfl⟩ := List.map_eq_cons_iff.mp hs
    simp only [Layered.execute, hops, takeOperand_cons hv]
    exact h.goTo l.console (by simpa [Value.type_cast] using hall)
  | shift =>
    obtain ⟨y, x, rest, hops, hy, hx, rfl⟩ := operands_pair hs
    simp only [Layered.execute, hops, takeOperand_cons hy, except_ok_bind, takeOperand_cons hx]
    exact h.goTo l.console (by simpa [Value.type] using hall)
  | compare =>
    obtain ⟨y, x, rest, hops, hy, hx, rfl⟩ := operands_pair hs
    obtain ⟨order, horder⟩ := Value.order_typed (hx.trans hy.symm)
    simp only [Layered.execute, hops, takeOperand_cons hy, except_ok_bind, takeOperand_cons hx,
      horder]
    exact h.goTo l.console (by simpa [Value.type] using hall)
  | jump => exact h.goTo _ (by simpa [hs] using hall)
  | jumpIf =>
    obtain ⟨v, rest, hops, hv, rfl⟩ := List.map_eq_cons_iff.mp hs
    simp only [Layered.execute, hops, takeOperand_cons hv]
    refine h.goTo l.console ?_
    split
    · exact hall _ List.mem_cons_self
    · exact hall _ (List.mem_cons_of_mem _ List.mem_cons_self)
  | jumpIfTrue =>
    obtain ⟨v, rest, hops, hv, rfl⟩ := List.map_eq_cons_iff.mp hs
    simp only [Layered.execute, hops, takeOperand_cons hv]
    refine h.goTo l.console ?_
    split
    · exact hall _ List.mem_cons_self
    · exact hall _ (List.mem_cons_of_mem _ List.mem_cons_self)
  | call hi => exact h.call ha hd hi hs
  | ret hr =>
    obtain ⟨v, rest, hops, hv, rfl⟩ := List.map_eq_cons_iff.mp hs
    simp only [Layered.execute, hops, takeOperand_cons hv]
    exact h.leave (by rw [hr, ← hv]; rfl)
  | retVoid hr => exact h.leave (by rw [hr]; rfl)
  | openInput => exact h.goTo _ (by simpa [hs] using hall)
  | read =>
    rename_i t
    by_cases hopened : l.console.opened = true
    · simp only [Layered.execute, if_pos hopened]
      rcases l.console.input.read_typed t with ⟨v, i, hv, ht⟩ | ⟨e, i, he, hfault⟩
      · rw [hv]
        exact h.goTo _ (by simpa [hs, ht] using hall)
      · rw [he]
        exact hfault
    · simp only [Layered.execute, if_neg hopened]
      rfl
  | print =>
    obtain ⟨v, rest, hops, hv, rfl⟩ := List.map_eq_cons_iff.mp hs
    simp only [Layered.execute, hops, takeOperand_cons hv]
    exact h.goTo _ (by simpa using hall)
  | printError hk =>
    simp only [Layered.execute, hk]
    exact h.goTo _ (by simpa [hs] using hall)
  | exit =>
    obtain ⟨v, rest, hops, hv, rfl⟩ := List.map_eq_cons_iff.mp hs
    simp only [Layered.execute, hops, takeOperand_cons hv]
    trivial

/-- **A step of a typed state does not fault and keeps it typed.** There is an instruction, and its
rule applies. -/
theorem Typed.advance (ha : ∀ b ∈ a.blocks, a.verifyBlock b = .ok ()) (h : l.Typed a) :
    Sound a (l.advance a.blocks) := by
  obtain ⟨op, next, edges, hd, hrule, hall⟩ := h.shape.rule
  unfold Layered.advance
  rw [hd]
  exact h.execute ha hd hrule hall

end Layered

end TypedStack
