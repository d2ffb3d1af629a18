import Mathlib.Data.List.Dedup
import Mathlib.Data.List.Perm.Subperm
import TypedStack.Proofs.Assembly.Capacity
/-!
# Which programs can be encoded

A program is encoded unless a size is too large for its field, a label is marked twice or not at
all, or a call does not go to a block as the program declares it. `Program.Encodable` says so
without the passes of the assembler, and can be decided; `Program.encode_ok_iff` shows that it is
exactly what encoding needs.

The condition goes by what the instructions of a block refer to: labels, callees and constants, as
lists in the order of the code. None of the three depends on offsets, so that the condition can be
checked before anything is laid out.
-/

set_option autoImplicit false

namespace TypedStack.Assembly

/-! ## What a block refers to

Read off the instructions, with marks left out. -/

/-- The labels that some code jumps to. -/
def targetsOf (code : List Instr) : List Label := (opsOf code).filterMap Op.target?

/-- The blocks that some code calls. -/
def calleesOf (code : List Instr) : List Callee := (opsOf code).filterMap callee?

/-- The constants and messages that some code uses, each of them once. -/
def constantsOf (code : List Instr) : List Constant := ((opsOf code).filterMap constant?).dedup

theorem mem_targetsOf {code : List Instr} {l : Label} :
    l ∈ targetsOf code ↔ ∃ o, .op o ∈ code ∧ o.target? = some l := by
  simp [targetsOf, mem_opsOf]

theorem mem_calleesOf {code : List Instr} {callee : Callee} :
    callee ∈ calleesOf code ↔ .op (.call callee) ∈ code := by
  simp only [calleesOf, List.mem_filterMap, mem_opsOf]
  constructor
  · rintro ⟨o, ho, hcallee⟩
    cases o with
    | call c =>
      cases hcallee
      exact ho
    | _ => cases hcallee
  · intro h
    exact ⟨_, h, rfl⟩

theorem mem_constantsOf {code : List Instr} {c : Constant} :
    c ∈ constantsOf code ↔ ∃ o, .op o ∈ code ∧ constant? o = some c := by
  simp [constantsOf, mem_opsOf]

/-! ## The condition

Sizes, labels and calls. The number of constants is asked for beside the size of the code, although
it follows from it, since the format has a field for it. -/

/-- The signature that a program declares for a name: that of the first block which has it. -/
def Program.declared? (p : Program) (name : String) : Option Signature :=
  (p.blocks.toList.find? (·.name == name)).map (·.signature)

/-- Everything that the encoded form of a block of a program needs. -/
structure Block.Encodable (p : Program) (b : Block) : Prop where
  name : b.name.utf8ByteSize ≤ wordLimit
  params : b.signature.params.length ≤ 255
  slots : b.slots.size ≤ wordLimit
  /-- No label is marked twice. -/
  distinct : (marksOf b.instrs.toList).Nodup
  /-- Every label jumped to is marked. -/
  targets : ∀ l ∈ targetsOf b.instrs.toList, l ∈ marksOf b.instrs.toList
  /-- Every call is of a block that the program has, with the signature declared for its name. -/
  callees : ∀ callee ∈ calleesOf b.instrs.toList, p.declared? callee.name = some callee.signature
  constants : (constantsOf b.instrs.toList).length ≤ wordLimit
  code : codeSize b.instrs.toList ≤ wordLimit

/-- Everything that the encoded form of a program needs. -/
structure Program.Encodable (p : Program) : Prop where
  size : p.blocks.size ≤ wordLimit
  name : p.name.utf8ByteSize ≤ wordLimit
  blocks : ∀ b ∈ p.blocks, b.Encodable p

theorem Block.encodable_iff {p : Program} {b : Block} :
    b.Encodable p ↔ b.Fits ∧ (marksOf b.instrs.toList).Nodup ∧
      (∀ l ∈ targetsOf b.instrs.toList, l ∈ marksOf b.instrs.toList) ∧
      (∀ callee ∈ calleesOf b.instrs.toList, p.declared? callee.name = some callee.signature) ∧
      (constantsOf b.instrs.toList).length ≤ wordLimit := by
  constructor
  · intro h
    exact ⟨⟨h.name, h.params, h.slots, h.code⟩, h.distinct, h.targets, h.callees, h.constants⟩
  · rintro ⟨⟨hname, hparams, hslots, hcode⟩, hmarks, htargets, hcallees, hconstants⟩
    exact ⟨hname, hparams, hslots, hmarks, htargets, hcallees, hconstants, hcode⟩

theorem Program.encodable_iff {p : Program} :
    p.Encodable ↔ p.blocks.size ≤ wordLimit ∧ p.name.utf8ByteSize ≤ wordLimit ∧
      ∀ b ∈ p.blocks, b.Encodable p := by
  constructor
  · intro h
    exact ⟨h.size, h.name, h.blocks⟩
  · rintro ⟨hsize, hname, hblocks⟩
    exact ⟨hsize, hname, hblocks⟩

instance (p : Program) (b : Block) : Decidable (b.Encodable p) :=
  decidable_of_iff _ Block.encodable_iff.symm

instance (p : Program) : Decidable p.Encodable := decidable_of_iff _ Program.encodable_iff.symm

/-! ## Calls

The directory of a program says of a name what the first block of this name says. -/

/-- What the directory knows of a name is what the program declares. -/
theorem Program.directory_declared (p : Program) (name : String) :
    p.directory[name]?.map Prod.snd = p.declared? name := by
  have hfirst : p.blocks.toList.find? (·.name == name) =
      (p.blocks.toList.zipIdx.find? (·.1.name == name)).map Prod.fst := by
    conv_lhs => rw [← List.zipIdx_map_fst 0 p.blocks.toList, List.find?_map]
    rfl
  rw [Program.directory_eq, Program.declared?, hfirst, Option.map_map, Option.map_map]
  rfl

/-- A call can be resolved if it expects the signature that is declared for its name. -/
theorem Program.resolve_exists {p : Program} {callee : Callee} :
    (∃ i, p.directory.resolve callee = .ok i) ↔
      p.declared? callee.name = some callee.signature := by
  rw [← Program.directory_declared, Option.map_eq_some_iff]
  constructor
  · rintro ⟨i, hi⟩
    obtain ⟨n, hn, -⟩ := Directory.resolve_ok.mp hi
    exact ⟨_, hn, rfl⟩
  · rintro ⟨⟨n, sig⟩, hn, rfl⟩
    exact ⟨_, Directory.resolve_ok.mpr ⟨n, hn, rfl⟩⟩

/-! ## What is encoded meets the condition

From the bytes back to the instructions: what an encoded instruction refers to is there. -/

namespace EncodesCode

variable {d : Directory} {code : List Instr} {s : Segment}

theorem placed (h : EncodesCode d code s) {o : SymbolicOp} (ho : .op o ∈ code) :
    ∃ op : EncodedOp, Placed d s.pool (fun l t => MarkedAt code l t.toNat) o op := by
  obtain ⟨before, after, hcode⟩ := List.append_of_mem ho
  obtain ⟨op, -, hop⟩ := h.decode hcode
  exact ⟨op, hop⟩

/-- A jump that was written goes to a label that stands somewhere. -/
theorem target_marked (h : EncodesCode d code s) {l : Label} (hl : l ∈ targetsOf code) :
    l ∈ marksOf code := by
  obtain ⟨o, ho, htarget⟩ := mem_targetsOf.mp hl
  obtain ⟨op, hop⟩ := h.placed ho
  cases hop with
  | jump hat =>
    cases htarget
    exact hat.mem
  | jumpIf _ hat =>
    cases htarget
    exact hat.mem
  | jumpIfTrue hat =>
    cases htarget
    exact hat.mem
  | _ => cases htarget

theorem callee_resolved (h : EncodesCode d code s) {callee : Callee}
    (hc : callee ∈ calleesOf code) : ∃ i, d.resolve callee = .ok i := by
  obtain ⟨op, hop⟩ := h.placed (mem_calleesOf.mp hc)
  cases hop with
  | call hi => exact ⟨_, hi⟩

/-- The pool has all that the code uses, and it has room for it. The constants of the code, each
once, are found at different places of the pool, so there are no more of them than places. -/
theorem constants_le (h : EncodesCode d code s) : (constantsOf code).length ≤ wordLimit := by
  have hpool : ∀ c ∈ constantsOf code, c ∈ s.pool.toList := by
    intro c hc
    obtain ⟨o, ho, hconst⟩ := mem_constantsOf.mp hc
    obtain ⟨op, hop⟩ := h.placed ho
    cases hop with
    | const hi =>
      cases hconst
      exact Array.mem_toList_iff.mpr (Array.mem_of_getElem? hi)
    | printError hi =>
      cases hconst
      exact Array.mem_toList_iff.mpr (Array.mem_of_getElem? hi)
    | _ => cases hconst
  have hnodup : (constantsOf code).Nodup := List.nodup_dedup _
  have hle := (hnodup.subperm hpool).length_le
  rw [Array.length_toList] at hle
  exact Nat.le_trans hle h.room

end EncodesCode

theorem Encodes.encodable {p : Program} {b : Block} {e : TypedStack.Block}
    (h : Encodes p.directory b e) : b.Encodable p where
  name := h.name_le
  params := h.params_le
  slots := h.slots_le
  distinct := h.code.distinct
  targets _ hl := h.code.target_marked hl
  callees _ hc := Program.resolve_exists.mp (h.code.callee_resolved hc)
  constants := h.code.constants_le
  code := h.code.size_le

/-! ## What meets the condition is encoded

Every reason for which encoding can fail has been listed, and the condition rules each of them out.
-/

/-- A block that meets the condition has a body that can be encoded. -/
theorem Block.Encodable.encodeBody {p : Program} {b : Block} (h : b.Encodable p) :
    ∃ s, Assembly.encodeBody p.directory b = .ok s := by
  cases hbody : Assembly.encodeBody p.directory b with
  | ok s => exact ⟨s, rfl⟩
  | error e =>
    exfalso
    rcases encodeBody_error hbody with ⟨-, hlarge⟩ | hmarks | ⟨callee, hcall, hresolve⟩ |
      ⟨o, l, ho, hl, hnot⟩
    · exact hlarge (Block.encodable_iff.mp h).1
    · exact hmarks h.distinct
    · obtain ⟨i, hi⟩ := Program.resolve_exists.mpr (h.callees callee (mem_calleesOf.mpr hcall))
      rw [hi] at hresolve
      cases hresolve
    · exact hnot (h.targets l (mem_targetsOf.mpr ⟨o, ho, hl⟩))

theorem Block.Encodable.encodeBlock {p : Program} {b : Block} (h : b.Encodable p) :
    ∃ e, Assembly.encodeBlock p.directory b = .ok e := by
  obtain ⟨s, hs⟩ := h.encodeBody
  have hname : checkName b.name = .ok () := checkName_ok.mpr h.name
  refine ⟨_, except_bind_ok.mpr ⟨(), hname, except_bind_ok.mpr ⟨s, ?_, rfl⟩⟩⟩
  rw [hs]
  rfl

/-- A program that meets the condition can be encoded, since each of its blocks can. -/
theorem Program.Encodable.encode {p : Program} (h : p.Encodable) : ∃ a, p.encode = .ok a := by
  have hblocks : ∀ b ∈ p.blocks.toList, ∃ e, encodeBlock p.directory b = .ok e :=
    fun b hb => (h.blocks b (Array.mem_toList_iff.mp hb)).encodeBlock
  obtain ⟨es, hes⟩ := except_mapM_exists.mpr hblocks
  have hmap : p.blocks.toList.toArray.mapM (encodeBlock p.directory) = .ok es.toArray := by
    rw [List.mapM_toArray, hes]
    rfl
  rw [Array.toArray_toList] at hmap
  have hname : checkName p.name = .ok () := checkName_ok.mpr h.name
  refine ⟨⟨p.name, es.toArray⟩, ?_⟩
  simp only [Program.encode, except_throw_bind, except_guard_ok, except_bind_ok, except_pure_ok]
  exact ⟨Nat.not_lt.mpr h.size, (), hname, _, hmap, rfl⟩

/-! ## Exactness

The two directions together. -/

/-- **Encoding is total on encodable programs.** It succeeds for exactly the programs that meet the
condition, which can be decided without encoding anything. Nothing about types is part of it: that
is left to the verifier, and a program with code that no verifier would accept is encoded all the
same. -/
theorem Program.encode_ok_iff (p : Program) : (∃ a, p.encode = .ok a) ↔ p.Encodable := by
  constructor
  · rintro ⟨a, ha⟩
    obtain ⟨-, hsize, hname, hblocks⟩ := Program.encode_ok ha
    refine ⟨hsize, hname, fun b hb => ?_⟩
    obtain ⟨e, -, hencodes⟩ := forall₂_mem_right hblocks.flip (Array.mem_toList_iff.mpr hb)
    exact hencodes.encodable
  · intro h
    exact h.encode

/-- A call agrees with the second block of a name, but the first one counts. -/
example : ¬ Program.Encodable
    { name := "p",
      blocks := #[{ name := "f", signature := ⟨[], none⟩, slots := #[] },
        { name := "f", signature := ⟨[.int], none⟩, slots := #[.int],
          instrs := #[.op (.call ⟨"f", ⟨[.int], none⟩⟩)] }] } := by
  decide

end TypedStack.Assembly
