import TypedStack.Proofs.Assembly.Encodable
/-!
# Reading back what the assembler wrote

Encoded code is decoded from its first byte to its last (`Segment.decodeAll`), which gives every
instruction with the offset it stands at. `Reproduces` says what this list is to the symbolic block:
the same instructions in the same order, with indices for constants, messages and callees, and with
the offset of the instruction behind the mark for a label.

Labels and names are gone from the encoded form. What a number stands for is therefore said by
looking it up: a constant in the pool, a callee among the blocks of the artifact, an offset in the
list.
-/

set_option autoImplicit false

namespace TypedStack

/-! ## Decoding from one end to the other

No instruction is skipped, and no byte is looked at twice. -/

namespace Segment

/-- The instructions from an offset to the end of the code, each behind the offset it stands at. -/
def decodeFrom (code : Array UInt8) (offset : Nat) :
    Except DecodeError (List (Nat × EncodedOp)) :=
  if offset < code.size then
    match _h : decodeAt code offset with
    | .error e => .error e
    | .ok (op, next) => (decodeFrom code next).map ((offset, op) :: ·)
  else .ok []
termination_by code.size - offset
decreasing_by
  have := decodeAt_bounds _h
  omega

/-- The instructions of some code from its first byte on. -/
def decodeAll (code : Array UInt8) : Except DecodeError (List (Nat × EncodedOp)) :=
  decodeFrom code 0

/-- Instructions that follow one another, with their offsets. -/
def listingFrom : Nat → List EncodedOp → List (Nat × EncodedOp)
  | _, [] => []
  | offset, op :: ops => (offset, op) :: listingFrom (offset + op.size) ops

theorem listingFrom_snd (ops : List EncodedOp) (offset : Nat) :
    (listingFrom offset ops).map Prod.snd = ops := by
  induction ops generalizing offset with
  | nil => rfl
  | cons op ops ih => simp [listingFrom, ih]

theorem decodeFrom_step {code : Array UInt8} {offset next : Nat} {op : EncodedOp}
    (h : decodeAt code offset = .ok (op, next)) :
    decodeFrom code offset = (decodeFrom code next).map ((offset, op) :: ·) := by
  have hbounds := decodeAt_bounds h
  rw [decodeFrom, if_pos (by omega)]
  split
  · next he =>
    rw [h] at he
    cases he
  · next he =>
    rw [h] at he
    cases he
    rfl

/-- Decoding written instructions gives them back, and ends where they end. By induction on the
instructions, each of which becomes a part of what stands before the next. -/
theorem decodeFrom_bytes (ops : List EncodedOp) (before : List UInt8) :
    decodeFrom (before ++ ops.flatMap EncodedOp.bytes).toArray before.length
      = .ok (listingFrom before.length ops) := by
  induction ops generalizing before with
  | nil =>
    rw [decodeFrom, if_neg (by simp)]
    rfl
  | cons op ops ih =>
    have hhead := decodeAt_bytes before (ops.flatMap EncodedOp.bytes) op
    have htail := ih (before ++ EncodedOp.bytes op)
    rw [List.length_append, EncodedOp.length_bytes, List.append_assoc] at htail
    rw [List.flatMap_cons, decodeFrom_step hhead, htail]
    rfl

end Segment

theorem Artifact.blockIndex?_eq_names (a : Artifact) (name : String) :
    a.blockIndex? name = (a.blocks.toList.map (·.name)).findIdx? (· == name) := by
  rw [List.findIdx?_map, Artifact.blockIndex?, ← List.findIdx?_toArray]
  rfl

namespace Assembly

/-! ## Offsets of marks

A mark is not encoded. It shows only in the jumps that go to it. -/

/-- Where a jump to a label has to go: to the first instruction behind the mark, or to the end of
the code if there is none. -/
def Arrives (code : List Instr) (listing : List (Nat × EncodedOp)) (stop : Nat) (l : Label)
    (target : UInt16) : Prop :=
  ∃ before after, code = before ++ .mark l :: after ∧
    target.toNat = (listing[(opsOf before).length]?.map Prod.fst).getD stop

/-- The instruction behind some code stands where that code ends. -/
theorem offset_listingFrom {d : Directory} {pool : Array Constant} {rt : Label → UInt16 → Prop}
    (before after : List Instr) {ops : List EncodedOp} (offset : Nat)
    (h : List.Forall₂ (Placed d pool rt) (opsOf (before ++ after)) ops) :
    ((Segment.listingFrom offset ops)[(opsOf before).length]?.map Prod.fst).getD
      (offset + codeSize (before ++ after)) = offset + codeSize before := by
  induction before generalizing ops offset with
  | nil =>
    cases ops with
    | nil =>
      have hsize := length_bytes_of_placed _ h
      simpa [Segment.listingFrom] using hsize.symm
    | cons op ops => simp [Segment.listingFrom]
  | cons i before ih =>
    cases i with
    | mark l => simpa using ih offset h
    | op o =>
      cases h with
      | cons hop hrest =>
        have hnext := ih (offset + o.size) hrest
        simpa [Segment.listingFrom, ← hop.size_eq, Nat.add_assoc] using hnext

/-! ## Callees

A name may be that of several blocks, and then the first is called. The order of blocks does not
change when they are encoded. -/

/-- The directory knows the first block of each name. -/
theorem Program.directory_index (p : Program) (name : String) :
    p.directory[name]?.map Prod.fst = (p.blocks.toList.map (·.name)).findIdx? (· == name) := by
  rw [Program.directory_eq, List.findIdx?_map, List.findIdx?_eq_fst_find?_zipIdx, Option.map_map]
  rfl

/-- Encoding keeps the names, so that the first block of a name stays the first. -/
theorem Program.blockIndex?_encoded {p : Program} {a : Artifact} (h : p.encode = .ok a)
    (name : String) :
    a.blockIndex? name = (p.blocks.toList.map (·.name)).findIdx? (· == name) := by
  obtain ⟨-, -, -, hblocks⟩ := Program.encode_ok h
  rw [Artifact.blockIndex?_eq_names, map_eq_of_forall₂ (hblocks.imp fun _ _ he => he.name)]

/-- A resolved call goes to the first block of the name, and the signature that it was written with
is that of the block. -/
theorem Program.resolve_first {p : Program} {a : Artifact} (h : p.encode = .ok a) {callee : Callee}
    {i : UInt16} (hi : p.directory.resolve callee = .ok i) :
    a.blockIndex? callee.name = some i.toNat ∧
      ∃ e, a.blocks[i.toNat]? = some e ∧ e.signature = callee.signature := by
  obtain ⟨-, hsize, -, hblocks⟩ := Program.encode_ok h
  obtain ⟨n, hn, rfl⟩ := Directory.resolve_ok.mp hi
  obtain ⟨b, hb, -, hsig⟩ := Program.directory_some hn
  have hlt : n < p.blocks.size := (Array.getElem?_eq_some_iff.mp hb).1
  rw [toNat_word (Nat.le_of_lt (Nat.lt_of_lt_of_le hlt hsize))]
  constructor
  · rw [Program.blockIndex?_encoded h, ← Program.directory_index, hn]
    rfl
  · have hb' : p.blocks.toList[n]? = some b := by simpa using hb
    obtain ⟨e, he, hencodes⟩ := forall₂_getElem? hblocks hb'
    exact ⟨e, by simpa using he, hencodes.signature.trans hsig⟩

/-! ## Blocks

All of this for one block, and then for every block of a program. -/

/-- What decoding an encoded block has to give for a symbolic block. -/
structure Reproduces (a : Artifact) (b : Block) (e : TypedStack.Block)
    (listing : List (Nat × EncodedOp)) : Prop where
  name : e.name = b.name
  signature : e.signature = b.signature
  slots : e.slots = b.slots
  decodes : Segment.decodeAll e.segment.code = .ok listing
  /-- A label has one place. -/
  marks : (marksOf b.instrs.toList).Nodup
  ops : List.Forall₂
    (Op.Related (fun c i => e.segment.pool[i.toNat]? = some c)
      (fun text i => e.segment.pool[i.toNat]? = some (.message text))
      (fun callee i => a.blockIndex? callee.name = some i.toNat ∧
        ∃ target, a.blocks[i.toNat]? = some target ∧ target.signature = callee.signature)
      (Arrives b.instrs.toList listing e.segment.code.size))
    (opsOf b.instrs.toList) (listing.map Prod.snd)

/-- What is known of an encoded block is enough to decode it. -/
theorem Encodes.reproduces {p : Program} {a : Artifact} (ha : p.encode = .ok a) {b : Block}
    {e : TypedStack.Block} (h : Encodes p.directory b e) :
    ∃ listing, Reproduces a b e listing := by
  obtain ⟨ops, hops, hcode⟩ := h.code.bytes
  have hbytes : e.segment.code = ([] ++ ops.flatMap EncodedOp.bytes).toArray := by
    rw [List.nil_append, ← hcode, Array.toArray_toList]
  have hdecode : Segment.decodeAll e.segment.code = .ok (Segment.listingFrom 0 ops) := by
    rw [hbytes]
    exact Segment.decodeFrom_bytes ops []
  refine ⟨Segment.listingFrom 0 ops, h.name, h.signature, h.slots, hdecode, h.code.distinct, ?_⟩
  rw [Segment.listingFrom_snd]
  refine hops.imp fun o op hop => ?_
  refine hop.mono (fun _ _ hc => hc) (fun _ _ hm => hm) (fun _ _ hi => p.resolve_first ha hi) ?_
  rintro l target ⟨before, after, hsplit, htarget⟩
  -- the bytes before a mark are those of the instructions before it
  refine ⟨before, after, hsplit, ?_⟩
  rw [hsplit] at hops
  have hoffset := offset_listingFrom before (.mark l :: after) 0 hops
  rw [← hsplit, ← h.code.code_size, Nat.zero_add, Nat.zero_add] at hoffset
  rw [hoffset, htarget]

/-- **Encoding loses nothing.** Decoding what the assembler wrote gives back the program, block by
block and instruction by instruction. Each instruction comes back with the constant, the message,
the block and the place in the code that the symbolic one names, although the bytes have indices and
offsets in their place. -/
theorem encoded_blocks_decode {p : Program} {a : Artifact} (h : p.encode = .ok a) :
    a.name = p.name ∧ a.blocks.size = p.blocks.size ∧
      ∀ (i : Nat) (b : Block), p.blocks[i]? = some b →
        ∃ e listing, a.blocks[i]? = some e ∧ Reproduces a b e listing := by
  obtain ⟨hname, -, -, hblocks⟩ := Program.encode_ok h
  refine ⟨hname, by simpa using hblocks.length_eq.symm, ?_⟩
  intro i b hb
  have hb' : p.blocks.toList[i]? = some b := by simpa using hb
  obtain ⟨e, he, hencodes⟩ := forall₂_getElem? hblocks hb'
  obtain ⟨listing, hlisting⟩ := hencodes.reproduces h
  exact ⟨e, listing, by simpa using he, hlisting⟩

/-- A program with a negative zero, a message, a call to a name that two blocks have, and jumps
forwards, backwards and to the end of the code. -/
def jumpingProgram : Program where
  name := "Main"
  blocks := #[
    { name := "one", signature := { result := some .int }, slots := #[],
      instrs := #[.op (.const (.value (.int 1))), .op (.ret .int)] },
    { name := "one", signature := {}, slots := #[], instrs := #[.op .retVoid] },
    { name := "main", signature := {}, slots := #[.double],
      instrs := #[.mark ⟨0⟩, .op (.const (.value (.double 0x8000000000000000))),
        .op (.store .double 0), .op (.call ⟨"one", { result := some .int }⟩),
        .op (.jumpIf .eq ⟨1⟩), .op (.printError "odd"), .op (.jump ⟨0⟩), .mark ⟨1⟩,
        .op (.jump ⟨2⟩), .mark ⟨2⟩] }]

theorem jumpingProgram_encodes : ∃ a, jumpingProgram.encode = .ok a :=
  Program.Encodable.encode (by decide +kernel)

theorem encoded_blocks_decode_jumping :
    ∃ a, jumpingProgram.encode = .ok a ∧ a.name = "Main" ∧ a.blocks.size = 3 ∧
      ∀ (i : Nat) (b : Block), jumpingProgram.blocks[i]? = some b →
        ∃ e listing, a.blocks[i]? = some e ∧ Reproduces a b e listing := by
  obtain ⟨a, ha⟩ := jumpingProgram_encodes
  exact ⟨a, ha, encoded_blocks_decode ha⟩

end Assembly

end TypedStack
