import Mathlib.Data.List.Nodup
import TypedStack.Proofs.Assembly.Fidelity
import TypedStack.Proofs.Assembly.Typed
import TypedStack.Proofs.Machine.Effects
/-!
# The order of blocks

Two programs with the same blocks in different orders are encoded alike but for the operands of
their calls, which are indices. Two machines that run them side by side are always between the same
two instructions of the same symbolic block, with equal operands and slots (`State.Twins`): a jump
goes to the place of its label in both, and a call goes to the block of its name in both. Nothing is
said of offsets inside instructions, where the bytes of two calls would be taken for different code;
no machine gets there.

The two encoded programs are related through their symbolic form. Comparing the bytes directly would
not do: the pools are equal, but to know that two calls with different indices are of the same block
one has to know what the indices were made from.
-/

set_option autoImplicit false

namespace TypedStack

open Assembly

/-- Two computations fail with the same error, or give results that go together. That the errors are
the same, and not only that both fail, is needed for the ends of programs to be the same. -/
inductive Paired {ε α β : Type} (r : α → β → Prop) : Except ε α → Except ε β → Prop
  | error (e : ε) : Paired r (.error e) (.error e)
  | ok {a : α} {b : β} (h : r a b) : Paired r (.ok a) (.ok b)

namespace Paired

variable {ε α β γ δ : Type} {r : α → β → Prop} {q : γ → δ → Prop}

/-- Both go on from results that go together. -/
theorem bind {x : Except ε α} {y : Except ε β} {f : α → Except ε γ} {g : β → Except ε δ}
    (h : Paired r x y) (hf : ∀ a b, r a b → Paired q (f a) (g b)) :
    Paired q (x >>= f) (y >>= g) := by
  cases h with
  | error e => exact .error e
  | ok h => exact hf _ _ h

theorem same {x : Except ε α} {f : α → Except ε γ} {g : α → Except ε δ}
    (hf : ∀ a, Paired q (f a) (g a)) : Paired q (x >>= f) (x >>= g) := by
  cases x with
  | error e => exact .error e
  | ok a => exact hf a

end Paired

/-! ## Places in symbolic code

An offset of encoded code is a place in symbolic code if an instruction begins there or the code
ends. -/

namespace Assembly

/-- An offset at which an instruction of some code ends or begins. -/
def Between (code : List Instr) (offset : Nat) : Prop :=
  ∃ before after, code = before ++ after ∧ codeSize before = offset

theorem Between.start (code : List Instr) : Between code 0 := ⟨[], code, rfl, rfl⟩

theorem MarkedAt.between {code : List Instr} {l : Label} {offset : Nat}
    (h : MarkedAt code l offset) : Between code offset := by
  obtain ⟨before, after, hcode, hsize⟩ := h
  exact ⟨before, .mark l :: after, hcode, hsize⟩

/-- What stands at an offset between two instructions: an instruction, behind marks that take no
room, or the end of the code. -/
theorem Between.next {code : List Instr} {offset : Nat} (h : Between code offset) :
    (∃ before o after, code = before ++ .op o :: after ∧ codeSize before = offset) ∨
      codeSize code = offset := by
  obtain ⟨before, after, hcode, hsize⟩ := h
  induction after generalizing before with
  | nil =>
    right
    rw [hcode, List.append_nil, hsize]
  | cons i after ih =>
    cases i with
    | op o => exact .inl ⟨before, o, after, hcode, hsize⟩
    | mark l => exact ih (before ++ [.mark l]) (by simp [hcode]) (by simp [hsize])

/-- A name is not found if no block of the program has it. -/
theorem Program.blockIndex?_eq_none {p : Program} {a : Artifact} (h : p.encode = .ok a)
    {name : String} : a.blockIndex? name = none ↔ name ∉ p.blocks.toList.map (·.name) := by
  rw [Program.blockIndex?_encoded h, List.findIdx?_eq_none_iff]
  constructor
  · intro hnone hmem
    simpa using hnone name hmem
  · intro hmem n hn
    rw [beq_eq_false_iff_ne]
    intro heq
    exact hmem (heq ▸ hn)

/-- What is found under a name is the place of a block of the program with this name. -/
theorem Program.blockIndex?_eq_some {p : Program} {a : Artifact} (h : p.encode = .ok a)
    {name : String} {i : Nat} (hi : a.blockIndex? name = some i) :
    ∃ b, p.blocks[i]? = some b ∧ b.name = name := by
  rw [Program.blockIndex?_encoded h, List.findIdx?_eq_some_iff_getElem] at hi
  obtain ⟨hlt, hname, -⟩ := hi
  rw [List.length_map, Array.length_toList] at hlt
  refine ⟨p.blocks[i], Array.getElem?_eq_getElem hlt, ?_⟩
  simpa using hname

/-- Two blocks are encoded forms of one typed block, for programs with different directories. They
have the same size and the same pool, and differ in the operands of calls only. -/
structure Twins (d d' : Directory) (b : Block) (e e' : TypedStack.Block) : Prop where
  typed : ∃ ann, b.Typed ann
  left : Encodes d b e
  right : Encodes d' b e'

namespace Twins

variable {d d' : Directory} {b : Block} {e e' : TypedStack.Block}

theorem signature (h : Twins d d' b e e') : e'.signature = e.signature :=
  h.right.signature.trans h.left.signature.symm

theorem slots (h : Twins d d' b e e') : e'.slots = e.slots :=
  h.right.slots.trans h.left.slots.symm

/-- The constants of typed code are values. -/
theorem const (h : Twins d d' b e e') {c : Constant} (hc : .op (.const c) ∈ b.instrs.toList) :
    ∃ v, c = .value v := by
  obtain ⟨ann, hann⟩ := h.typed
  rw [← hann.instrs] at hc
  obtain ⟨⟨s, i⟩, hmem, rfl⟩ := List.mem_map.mp hc
  obtain ⟨before, after, hsplit⟩ := List.append_of_mem hmem
  obtain ⟨t, hflows⟩ := hann.flows_at hsplit
  obtain ⟨out, hop, -⟩ := hflows.op_typed
  cases hop with
  | const => exact ⟨_, rfl⟩

/-- Between the same two instructions, both blocks decode to the same instruction of the symbolic
block, or both are at their end. -/
theorem decode (h : Twins d d' b e e') {ip : Nat} (hip : Between b.instrs.toList ip) :
    (∃ o op op' next, .op o ∈ b.instrs.toList ∧ Between b.instrs.toList next ∧
      e.segment.decode ip = .ok (op, next) ∧ e'.segment.decode ip = .ok (op', next) ∧
      Placed d e.segment.pool (fun l t => MarkedAt b.instrs.toList l t.toNat) o op ∧
      Placed d' e'.segment.pool (fun l t => MarkedAt b.instrs.toList l t.toNat) o op') ∨
    (e.segment.decode ip = .error (.truncated ip) ∧
      e'.segment.decode ip = .error (.truncated ip)) := by
  rcases hip.next with ⟨before, o, after, hcode, rfl⟩ | hend
  · left
    obtain ⟨op, hdecode, hplaced⟩ := h.left.code.decode hcode
    obtain ⟨op', hdecode', hplaced'⟩ := h.right.code.decode hcode
    refine ⟨o, op, op', _, ?_, ?_, hdecode, hdecode', hplaced, hplaced'⟩
    · rw [hcode]
      simp
    · exact ⟨before ++ [.op o], after, by simp [hcode], by simp⟩
  · right
    have atEnd : ∀ s : Segment, s.code.size = ip → s.decode ip = .error (.truncated ip) := by
      intro s hs
      unfold Segment.decode Segment.decodeAt
      rw [Array.getElem?_eq_none (by omega)]
    exact ⟨atEnd _ (h.left.code.code_size.trans hend), atEnd _ (h.right.code.code_size.trans hend)⟩

end Twins

end Assembly

/-! ## Machines side by side

Relations between what the two machines have, from frames up to runs. The operands, the slots and
the console are not related but equal. -/

section

variable (d d' : Directory)

/-- Two frames are between the same two instructions of one block. -/
structure Frame.Twins (f f' : Frame) : Prop where
  block : ∃ b, Assembly.Twins d d' b f.block f'.block ∧ Between b.instrs.toList f.ip
  rest : f' = { f with block := f'.block }

/-- Two states are alike but for the encoded blocks that they run. -/
inductive State.Twins : State → State → Prop
  | mk {console : Console} {frame frame' : Frame} {callers callers' : Array Frame}
      {locals operands : Array Value} (hframe : Frame.Twins d d' frame frame')
      (hcallers : List.Forall₂ (Frame.Twins d d') callers.toList callers'.toList) :
      State.Twins ⟨console, frame, callers, locals, operands⟩
        ⟨console, frame', callers', locals, operands⟩

/-- Two instructions come to the same. -/
inductive Effect.Twins (code : List Instr) : Effect → Effect → Prop
  | goOn {ip : Nat} {console : Console} {locals operands : Array Value} {pushed : Option Value}
      (hip : Between code ip) :
      Effect.Twins code (.goOn ip console locals operands pushed)
        (.goOn ip console locals operands pushed)
  | call {callee : Callee} {i i' : UInt16} (h : d.resolve callee = .ok i)
      (h' : d'.resolve callee = .ok i') : Effect.Twins code (.call i.toNat) (.call i'.toNat)
  | leave {operands : Array Value} {result : Option Value} :
      Effect.Twins code (.leave operands result) (.leave operands result)
  | finish {status : Int32} : Effect.Twins code (.finish status) (.finish status)

/-- Two machines go on in states that are alike, or end in the same way. -/
inductive Progress.Twins : Progress → Progress → Prop
  | running {s s' : State} (h : State.Twins d d' s s') : Progress.Twins (.running s) (.running s')
  | finished (o : Outcome) (c : Console) : Progress.Twins (.finished o c) (.finished o c)

/-- Two runs are in states that are alike, or have ended in the same way. -/
inductive Execution.Twins : Execution → Execution → Prop
  | unfinished {s s' : State} (h : State.Twins d d' s s') :
      Execution.Twins (.unfinished s) (.unfinished s')
  | ended (r : Except RuntimeError Outcome) (c : Console) :
      Execution.Twins (.ended r c) (.ended r c)

end

variable {d d' : Directory}

/-- **The two encoded forms of one instruction come to the same.** One case per instruction. The
constants are the same values, the labels have the same places, and calls are left to the
machine. -/
theorem effect_twins {b : Assembly.Block} {console : Console} {frame frame' : Frame}
    {callers callers' : Array Frame} {locals operands : Array Value}
    (hblock : Assembly.Twins d d' b frame.block frame'.block)
    (hrest : frame' = { frame with block := frame'.block }) {o : SymbolicOp} {op op' : EncodedOp}
    {next : Nat} (ho : .op o ∈ b.instrs.toList) (hnext : Between b.instrs.toList next)
    (hop : Placed d frame.block.segment.pool (fun l t => MarkedAt b.instrs.toList l t.toNat) o op)
    (hop' : Placed d' frame'.block.segment.pool (fun l t => MarkedAt b.instrs.toList l t.toNat) o
      op') :
    Paired (Effect.Twins d d' b.instrs.toList)
      (Machine.effect op next ⟨console, frame, callers, locals, operands⟩)
      (Machine.effect op' next ⟨console, frame', callers', locals, operands⟩) := by
  obtain ⟨e', ip, localsBase, stackBase⟩ := frame'
  cases hrest
  have hslots : e'.slots = frame.block.slots := hblock.slots
  have hslot : ∀ slot,
      Machine.slotIndex ⟨e', frame.ip, frame.localsBase, frame.stackBase⟩ locals slot =
        Machine.slotIndex frame locals slot := by
    intro slot
    simp only [Machine.slotIndex, hslots]
  -- the places of a label are the same in both
  have htarget : ∀ {l : Label} {t t' : UInt16}, MarkedAt b.instrs.toList l t.toNat →
      MarkedAt b.instrs.toList l t'.toNat → t = t' := fun h h' =>
    UInt16.toNat_inj.mp (MarkedAt.unique hblock.left.code.distinct h h')
  cases hop with
  | const hc =>
    cases hop' with
    | const hc' =>
      obtain ⟨v, rfl⟩ := hblock.const ho
      simp only [Machine.effect, hc, hc']
      exact .ok (.goOn hnext)
  | printError hm =>
    cases hop' with
    | printError hm' =>
      simp only [Machine.effect, hm, hm']
      exact .ok (.goOn hnext)
  | jump ht =>
    cases hop' with
    | jump ht' =>
      obtain rfl := htarget ht ht'
      exact .ok (.goOn ht.between)
  | jumpIf relation ht =>
    cases hop' with
    | jumpIf _ ht' =>
      obtain rfl := htarget ht ht'
      refine .same fun r => .ok (.goOn ?_)
      split
      · exact ht.between
      · exact hnext
  | jumpIfTrue ht =>
    cases hop' with
    | jumpIfTrue ht' =>
      obtain rfl := htarget ht ht'
      refine .same fun r => .ok (.goOn ?_)
      split
      · exact ht.between
      · exact hnext
  | call hc =>
    cases hop' with
    | call hc' => exact .ok (.call hc hc')
  | pop t | cast source target | print t =>
    cases hop'
    exact .same fun r => .ok (.goOn hnext)
  | load t slot =>
    cases hop'
    simp only [Machine.effect, hslot]
    refine .same fun index => ?_
    split
    · exact .ok (.goOn hnext)
    · exact .error _
  | store t slot =>
    cases hop'
    simp only [Machine.effect, hslot]
    exact .same fun r => .same fun index => .ok (.goOn hnext)
  | arith o t =>
    cases hop'
    refine .same fun r => ?_
    simp only
    split
    · exact .error _
    · exact .error _
    · exact .ok (.goOn hnext)
  | shift kind =>
    cases hop'
    exact .same fun amount => .same fun n => .ok (.goOn hnext)
  | compare t =>
    cases hop'
    refine .same fun r => ?_
    simp only
    split
    · exact .error _
    · exact .ok (.goOn hnext)
  | ret t =>
    cases hop'
    exact .same fun r => .ok .leave
  | retVoid =>
    cases hop'
    exact .ok .leave
  | openInput =>
    cases hop'
    exact .ok (.goOn hnext)
  | read t =>
    cases hop'
    simp only [Machine.effect]
    split
    · split
      · exact .error _
      · exact .ok (.goOn hnext)
    · exact .error _
  | exit =>
    cases hop'
    exact .same fun r => .ok .finish

/-- Two programs with the same blocks, and what they are encoded to. One of them being typed, the
other is as well, since types do not depend on the order of blocks. -/
structure Reordered (p p' : Program) (a a' : Artifact) : Prop where
  typed : p.Typed
  blocks : p.blocks.toList.Perm p'.blocks.toList
  left : p.encode = .ok a
  right : p'.encode = .ok a'

namespace Reordered

variable {p p' : Program} {a a' : Artifact}

theorem eq_of_name (h : Reordered p p' a a') {b b' : Assembly.Block} (hb : b ∈ p.blocks.toList)
    (hb' : b' ∈ p'.blocks.toList) (hname : b.name = b'.name) : b = b' :=
  List.inj_on_of_nodup_map h.typed.names hb (h.blocks.mem_iff.mpr hb') hname

/-- Blocks of the same name are encoded to twins. -/
theorem twins (h : Reordered p p' a a') {b b' : Assembly.Block} {i i' : Nat}
    (hb : p.blocks[i]? = some b) (hb' : p'.blocks[i']? = some b') (hname : b.name = b'.name) :
    ∃ e e', a.blocks[i]? = some e ∧ a'.blocks[i']? = some e' ∧
      Assembly.Twins p.directory p'.directory b e e' := by
  obtain ⟨-, -, -, hblocks⟩ := Program.encode_ok h.left
  obtain ⟨-, -, -, hblocks'⟩ := Program.encode_ok h.right
  rw [← Array.getElem?_toList] at hb hb'
  obtain rfl := h.eq_of_name (List.mem_of_getElem? hb) (List.mem_of_getElem? hb') hname
  obtain ⟨e, he, hencodes⟩ := forall₂_getElem? hblocks hb
  obtain ⟨e', he', hencodes'⟩ := forall₂_getElem? hblocks' hb'
  refine ⟨e, e', by simpa using he, by simpa using he', ?_, hencodes, hencodes'⟩
  exact h.typed.blocks b (Array.mem_toList_iff.mp (List.mem_of_getElem? hb))

theorem callee (h : Reordered p p' a a') {callee : Callee} {i i' : UInt16}
    (hi : p.directory.resolve callee = .ok i) (hi' : p'.directory.resolve callee = .ok i') :
    ∃ b e e', a.blocks[i.toNat]? = some e ∧ a'.blocks[i'.toNat]? = some e' ∧
      Assembly.Twins p.directory p'.directory b e e' := by
  obtain ⟨-, hsize, -, -⟩ := Program.encode_ok h.left
  obtain ⟨-, hsize', -, -⟩ := Program.encode_ok h.right
  obtain ⟨b, hb, hname, -⟩ := Program.resolve_block hsize hi
  obtain ⟨b', hb', hname', -⟩ := Program.resolve_block hsize' hi'
  exact ⟨b, h.twins hb hb' (hname.trans hname'.symm)⟩

/-- A name is that of twins, or of no block in either program. -/
theorem blockIndex? (h : Reordered p p' a a') (name : String) :
    (a.blockIndex? name = none ∧ a'.blockIndex? name = none) ∨
    ∃ i i' b e e', a.blockIndex? name = some i ∧ a'.blockIndex? name = some i' ∧
      a.blocks[i]? = some e ∧ a'.blocks[i']? = some e' ∧
      Assembly.Twins p.directory p'.directory b e e' := by
  -- whether there is a block of some name does not depend on the order
  have hnames : name ∈ p.blocks.toList.map (·.name) ↔ name ∈ p'.blocks.toList.map (·.name) :=
    (h.blocks.map _).mem_iff
  by_cases hname : name ∈ p.blocks.toList.map (·.name)
  · right
    obtain ⟨i, hi⟩ : ∃ i, a.blockIndex? name = some i :=
      Option.ne_none_iff_exists'.mp fun hnone =>
        (Program.blockIndex?_eq_none h.left).mp hnone hname
    obtain ⟨i', hi'⟩ : ∃ i', a'.blockIndex? name = some i' :=
      Option.ne_none_iff_exists'.mp fun hnone =>
        (Program.blockIndex?_eq_none h.right).mp hnone (hnames.mp hname)
    obtain ⟨b, hb, hbname⟩ := Program.blockIndex?_eq_some h.left hi
    obtain ⟨b', hb', hbname'⟩ := Program.blockIndex?_eq_some h.right hi'
    obtain ⟨e, e', htwins⟩ := h.twins hb hb' (hbname.trans hbname'.symm)
    exact ⟨i, i', b, e, e', hi, hi', htwins⟩
  · left
    exact ⟨(Program.blockIndex?_eq_none h.left).mpr hname,
      (Program.blockIndex?_eq_none h.right).mpr fun hmem => hname (hnames.mpr hmem)⟩

end Reordered

/-! ## One step of both machines

The effects are the same, and a machine makes the same of the same effect: it has the same limits,
and a call begins twins. From the step upwards nothing is said of code any more, only of frames that
are between the same two instructions. -/

section

variable {a a' : Artifact} (limits : Limits)

theorem activate_twins {b : Assembly.Block} {e e' : Block} {i i' : Nat} (he : a.blocks[i]? = some e)
    (he' : a'.blocks[i']? = some e') (htwins : Assembly.Twins d d' b e e') (depth floor : Nat)
    (locals operands : Array Value) :
    Paired (fun r r' => Frame.Twins d d' r.1 r'.1 ∧ r.2 = r'.2)
      ((Machine.mk a limits).activate i depth floor locals operands)
      ((Machine.mk a' limits).activate i' depth floor locals operands) := by
  simp only [Machine.activate, he, he', htwins.signature, htwins.slots]
  split
  · exact .error _
  · split
    · exact .error _
    · exact .ok ⟨⟨⟨b, htwins, .start _⟩, rfl⟩, rfl⟩

theorem begin_twins {b : Assembly.Block} {e e' : Block} {i i' : Nat} (he : a.blocks[i]? = some e)
    (he' : a'.blocks[i']? = some e') (htwins : Assembly.Twins d d' b e e')
    (arguments : List Value) (console : Console) :
    Paired (State.Twins d d') ((Machine.mk a limits).begin i arguments console)
      ((Machine.mk a' limits).begin i' arguments console) := by
  unfold Machine.begin
  refine .same fun operands => ?_
  refine (activate_twins limits he he' htwins 0 0 #[] operands).bind ?_
  rintro ⟨frame, locals, rest⟩ ⟨frame', _⟩ ⟨hframe, rfl⟩
  exact .ok (.mk hframe .nil)

end

variable {p p' : Program} {a a' : Artifact} (limits : Limits)

theorem perform_twins (h : Reordered p p' a a') {b : Assembly.Block} {console : Console}
    {frame frame' : Frame} {callers callers' : Array Frame} {locals operands : Array Value}
    (hblock : Assembly.Twins p.directory p'.directory b frame.block frame'.block)
    (hrest : frame' = { frame with block := frame'.block })
    (hcallers : List.Forall₂ (Frame.Twins p.directory p'.directory) callers.toList callers'.toList)
    {next : Nat} (hnext : Between b.instrs.toList next) {e e' : Effect}
    (he : Effect.Twins p.directory p'.directory b.instrs.toList e e') :
    Paired (Progress.Twins p.directory p'.directory)
      ((Machine.mk a limits).perform next ⟨console, frame, callers, locals, operands⟩ e)
      ((Machine.mk a' limits).perform next ⟨console, frame', callers', locals, operands⟩ e') := by
  obtain ⟨block', ip, localsBase, stackBase⟩ := frame'
  cases hrest
  -- both frames between the same two other instructions
  have hmoves : ∀ ip, Between b.instrs.toList ip →
      Frame.Twins p.directory p'.directory { frame with ip }
        ⟨block', ip, frame.localsBase, frame.stackBase⟩ := fun ip hip => ⟨⟨b, hblock, hip⟩, rfl⟩
  have hsize : callers'.size = callers.size := hcallers.length_eq.symm
  cases he with
  | goOn hip => exact .same fun operands => .ok (.running (.mk (hmoves _ hip) hcallers))
  | call hi hi' =>
    -- the number of the block is another, and its name the same
    obtain ⟨b', e, e', he, he', htwins⟩ := h.callee hi hi'
    simp only [Machine.perform, hsize]
    refine (activate_twins limits he he' htwins _ _ _ _).bind ?_
    rintro ⟨callee, locals', rest⟩ ⟨callee', _⟩ ⟨hcallee, rfl⟩
    refine .ok (.running (.mk hcallee ?_))
    simp only [Array.toList_push]
    exact List.rel_append hcallers (.cons (hmoves next hnext) .nil)
  | leave =>
    simp only [Machine.perform, Machine.leave]
    rcases forall₂_back hcallers with
      ⟨rfl, rfl⟩ | ⟨below, caller, below', caller', rfl, rfl, hbelow, hcaller⟩
    · exact .ok (.finished _ _)
    · simp only [Array.back?_push, Array.pop_push]
      split
      · exact .ok (.running (.mk hcaller hbelow))
      · exact .same fun operands => .ok (.running (.mk hcaller hbelow))
  | finish => exact .ok (.finished _ _)

theorem step_twins (h : Reordered p p' a a') {s s' : State}
    (hs : State.Twins p.directory p'.directory s s') :
    Paired (Progress.Twins p.directory p'.directory) ((Machine.mk a limits).step s)
      ((Machine.mk a' limits).step s') := by
  cases hs with
  | @mk console frame frame' callers callers' locals operands hframe hcallers =>
    obtain ⟨⟨b, hblock, hip⟩, hrest⟩ := hframe
    have hip' : frame'.ip = frame.ip := by rw [hrest]
    simp only [Machine.step, hip']
    rcases hblock.decode hip with
      ⟨o, op, op', next, ho, hnext, hdecode, hdecode', hop, hop'⟩ | ⟨hdecode, hdecode'⟩
    · simp only [hdecode, hdecode', Machine.execute_eq]
      refine (effect_twins hblock hrest ho hnext hop hop').bind fun e e' he => ?_
      exact perform_twins limits h hblock hrest hcallers hnext he
    · simp only [hdecode, hdecode']
      exact .error _

/-! ## Whole runs

By induction on the fuel, which both use up in step. -/

theorem runState_twins (h : Reordered p p' a a') (fuel : Nat) :
    ∀ {s s' : State}, State.Twins p.directory p'.directory s s' →
      Execution.Twins p.directory p'.directory ((Machine.mk a limits).runState fuel s)
        ((Machine.mk a' limits).runState fuel s') := by
  induction fuel with
  | zero =>
    intro s s' hs
    exact .unfinished hs
  | succ fuel ih =>
    intro s s' hs
    -- an error ends both runs with the lines written so far
    have hconsole : s'.console = s.console := by
      cases hs
      rfl
    have hstep := step_twins limits h hs
    simp only [Machine.runState, hconsole]
    generalize (Machine.mk a limits).step s = r at hstep ⊢
    generalize (Machine.mk a' limits).step s' = r' at hstep ⊢
    cases hstep with
    | error e => exact .ended _ _
    | ok hp =>
      cases hp with
      | running hs₁ => exact ih hs₁
      | finished o c => exact .ended _ _

theorem invoke_twins (h : Reordered p p' a a') {b : Assembly.Block} {e e' : Block} {i i' : Nat}
    (he : a.blocks[i]? = some e) (he' : a'.blocks[i']? = some e')
    (htwins : Assembly.Twins p.directory p'.directory b e e') (fuel : Nat) (console : Console) :
    Execution.Twins p.directory p'.directory ((Machine.mk a limits).invoke fuel i [] console)
      ((Machine.mk a' limits).invoke fuel i' [] console) := by
  have hbegin := begin_twins limits he he' htwins [] console
  unfold Machine.invoke
  generalize (Machine.mk a limits).begin i [] console = r at hbegin ⊢
  generalize (Machine.mk a' limits).begin i' [] console = r' at hbegin ⊢
  cases hbegin with
  | error e => exact .ended _ _
  | ok hs => exact runState_twins limits h fuel hs

/-- The order of the blocks does not matter: with the same fuel both programs are in states that are
alike, or have ended in the same way. The blocks that a program begins with are found by their
names, so they are twins as well. -/
theorem runProgram_twins (h : Reordered p p' a a') (fuel : Nat) (console : Console) :
    Execution.Twins p.directory p'.directory ((Machine.mk a limits).runProgram fuel console)
      ((Machine.mk a' limits).runProgram fuel console) := by
  rcases h.blockIndex? startName with
    ⟨hstart, hstart'⟩ | ⟨start, start', b, e, e', hstart, hstart', he, he', htwins⟩
  · simp only [Machine.runProgram, Machine.runStages, Machine.blocksByName_get, hstart, hstart']
    exact .ended _ _
  rcases h.blockIndex? initName with
    ⟨hinit, hinit'⟩ | ⟨init, init', b₁, e₁, e₁', hinit, hinit', he₁, he₁', htwins₁⟩
  · simp only [Machine.runProgram, Machine.runStages, Machine.blocksByName_get, hstart, hstart',
      hinit, hinit']
    exact invoke_twins limits h he he' htwins fuel console
  · rw [Machine.runProgram_eq _ hstart hinit, Machine.runProgram_eq _ hstart' hinit']
    have hfirst := invoke_twins limits h he₁ he₁' htwins₁ fuel console
    generalize (Machine.mk a limits).invoke fuel init [] console = r at hfirst ⊢
    generalize (Machine.mk a' limits).invoke fuel init' [] console = r' at hfirst ⊢
    cases hfirst with
    | unfinished hs => exact .unfinished hs
    | ended r c =>
      rcases r with error | (v | status)
      · exact .ended _ _
      · exact invoke_twins limits h he he' htwins fuel c
      · exact .ended _ _

/-- In particular both programs end in the same way, with the same lines written. -/
theorem runProgram_ended_twins (h : Reordered p p' a a') (fuel : Nat) (console : Console)
    (r : Except RuntimeError Outcome) (c : Console) :
    (Machine.mk a limits).runProgram fuel console = .ended r c ↔
      (Machine.mk a' limits).runProgram fuel console = .ended r c := by
  have htwins := runProgram_twins limits h fuel console
  generalize (Machine.mk a limits).runProgram fuel console = x at htwins ⊢
  generalize (Machine.mk a' limits).runProgram fuel console = x' at htwins ⊢
  cases htwins with
  | unfinished hs => simp
  | ended r' c' => rfl

end TypedStack
