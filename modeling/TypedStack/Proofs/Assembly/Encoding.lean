import TypedStack.Proofs.Assembly.Fixups
import TypedStack.Proofs.Code.Decoding
/-!
# What the assembler writes

The encoded code of a block is the block's instructions one after the other, each with its constants
in the pool, its callee resolved and its labels replaced by the offsets where they stand
(`EncodesCode`). So decoding at the offset of an instruction gives that instruction
(`EncodesCode.decode`). `Program.encode_ok` says this of all blocks of a program.

Everything that is proved about bytes goes through these two statements. What comes after them is
about symbolic code and its offsets, and neither passes nor fixups are mentioned again.
-/

set_option autoImplicit false

namespace TypedStack

namespace Assembly

/-! ## The second pass

What the layout has found is carried over to the bytes. The relation between symbolic and placed
instructions is composed with the one between placed and encoded instructions. -/

/-- What encoded code is to the symbolic code that it was made from. The instructions are the same
in the same order, and no byte belongs to anything else. -/
structure EncodesCode (d : Directory) (code : List Instr) (s : Segment) : Prop where
  size_le : codeSize code ≤ wordLimit
  distinct : (marksOf code).Nodup
  room : s.pool.size ≤ wordLimit
  used : ∀ c ∈ s.pool, ∃ o ∈ opsOf code, constant? o = some c
  bytes : ∃ ops : List EncodedOp,
    List.Forall₂ (Placed d s.pool fun l t => MarkedAt code l t.toNat) (opsOf code) ops ∧
      s.code.toList = ops.flatMap EncodedOp.bytes
  lines_le : s.lines.size ≤ s.code.size

theorem writeOp_ok {labels : Std.HashMap Label Nat} {s s' : Segment} {p : PlacedOp × UInt32}
    (h : writeOp labels s p = .ok s') :
    ∃ op : EncodedOp, Op.Related Eq Eq Eq (targetOffset labels · = .ok ·) p.1 op ∧
      s' = s.emit op p.2 := by
  unfold writeOp at h
  split at h
  · cases h
  · next op hop =>
    cases h
    have hrel := Op.related_of_traverse hop
    exact ⟨op, hrel.mono (fun _ _ e => except_pure_ok.mp e) (fun _ _ e => except_pure_ok.mp e)
      (fun _ _ e => except_pure_ok.mp e) (fun _ _ e => e), rfl⟩

/-- All of them are written in a row. By induction, the bytes of the rest go behind what is
there. -/
theorem writeOps_ok {labels : Std.HashMap Label Nat} :
    ∀ {ps : List (PlacedOp × UInt32)} {s s' : Segment}, s.lines.size ≤ s.code.size →
      ps.foldlM (writeOp labels) s = .ok s' →
      ∃ ops : List EncodedOp,
        List.Forall₂ (fun p op => Op.Related Eq Eq Eq (targetOffset labels · = .ok ·) p op)
          (ps.map Prod.fst) ops ∧
        s'.code.toList = s.code.toList ++ ops.flatMap EncodedOp.bytes ∧ s'.pool = s.pool ∧
        s'.lines.size ≤ s'.code.size
  | [], s, s', hl, h => by
    cases h
    exact ⟨[], .nil, by simp, rfl, hl⟩
  | p :: ps, s, s', hl, h => by
    obtain ⟨mid, hw, hrest⟩ := except_bind_ok.mp h
    obtain ⟨op, hrel, rfl⟩ := writeOp_ok hw
    obtain ⟨hcode, hpool, hlines⟩ := Segment.writeAll_spec p.2 (EncodedOp.bytes op) s hl
    obtain ⟨ops, hops, hcode', hpool', hlines'⟩ := writeOps_ok hlines hrest
    refine ⟨op :: ops, .cons hrel hops, ?_, hpool'.trans hpool, hlines'⟩
    rw [hcode']
    exact (congrArg (· ++ _) hcode).trans (by simp)

/-- A body is encoded if its sizes fit and its code can be laid out and written. -/
theorem encodeBody_checks {d : Directory} {b : Block} {s : Segment} :
    encodeBody d b = .ok s ↔ b.signature.params.length ≤ 255 ∧ b.slots.size ≤ wordLimit ∧
      ∃ layout, Layout.ofBlock d b = .ok layout ∧ layout.offset ≤ wordLimit ∧
        layout.ops.toList.foldlM (writeOp layout.labels) { pool := layout.pool } = .ok s := by
  rw [encodeBody_eq, layOutAndWrite]
  simp only [except_throw_bind, except_guard_ok, except_bind_ok, Layout.write, Nat.not_lt]

/-- **A body that is encoded is encoded faithfully.** The layout gives the places of labels, the
second pass the bytes, and a label with an offset is a label that stands there. -/
theorem encodeBody_ok {d : Directory} {b : Block} {s : Segment} (h : encodeBody d b = .ok s) :
    EncodesCode d b.instrs.toList s := by
  obtain ⟨_, _, layout, hlayout, hoffset, hwrite⟩ := encodeBody_checks.mp h
  have hl := Layout.holds_ofBlock hlayout
  obtain ⟨ops, hops, hcode, hpool, hlines⟩ := writeOps_ok (by simp) hwrite
  simp only at hpool
  refine ⟨hl.offset ▸ hoffset, hl.distinct, hpool ▸ hl.room, hpool ▸ hl.used,
    ⟨ops, ?_, by simpa using hcode⟩, hlines⟩
  rw [hpool]
  -- an offset that was found is that of a mark, and small enough not to be cut
  have htarget : ∀ (a b' : Label) (t : UInt16), a = b' → targetOffset layout.labels b' = .ok t →
      MarkedAt b.instrs.toList a t.toNat := by
    rintro a _ t rfl ht
    unfold targetOffset at ht
    split at ht
    · next offset ho =>
      cases ht
      have hm := (hl.labels a offset).mp ho
      have hle := hm.le
      rw [hl.offset] at hoffset
      rw [toNat_word (Nat.le_trans hle hoffset)]
      exact hm
    · cases ht
  exact forall₂_comp (fun o p op hop hpo => hop.retarget hpo htarget) hl.ops hops

/-- The size of code is that of its instructions, symbolic or encoded. -/
theorem length_bytes_of_placed {d : Directory} {pool : Array Constant}
    {rt : Label → UInt16 → Prop} :
    ∀ (code : List Instr) {ops : List EncodedOp}, List.Forall₂ (Placed d pool rt) (opsOf code) ops →
      (ops.flatMap EncodedOp.bytes).length = codeSize code
  | [], _, h => by
    cases h
    rfl
  | .mark l :: code, ops, h => by
    simpa using length_bytes_of_placed code h
  | .op o :: code, _, .cons hop hrest => by
    have ih := length_bytes_of_placed code hrest
    simp only [List.flatMap_cons, List.length_append, EncodedOp.length_bytes, ih, codeSize_cons,
      size_op, hop.size_eq]

namespace EncodesCode

variable {d : Directory} {code : List Instr} {s : Segment}

theorem code_size (h : EncodesCode d code s) : s.code.size = codeSize code := by
  obtain ⟨ops, hops, hcode⟩ := h.bytes
  rw [← length_bytes_of_placed code hops, ← hcode, Array.length_toList]

/-- Decoding at the offset of an instruction gives that instruction and the offset behind it. -/
theorem decode (h : EncodesCode d code s) {before after : List Instr} {o : SymbolicOp}
    (hcode : code = before ++ .op o :: after) :
    ∃ op : EncodedOp, s.decode (codeSize before) = .ok (op, codeSize before + o.size) ∧
      Placed d s.pool (fun l t => MarkedAt code l t.toNat) o op := by
  obtain ⟨ops, hops, hbytes⟩ := h.bytes
  have hsplit : opsOf code = opsOf before ++ o :: opsOf after := by simp [hcode]
  rw [hsplit] at hops
  obtain ⟨ops₁, op, ops₂, rfl, h₁, hop, _⟩ := forall₂_split hops
  refine ⟨op, ?_, hop⟩
  -- the bytes are split where the instructions are
  have harray : s.code =
      (ops₁.flatMap EncodedOp.bytes ++
        (EncodedOp.bytes op ++ ops₂.flatMap EncodedOp.bytes)).toArray := by
    rw [← Array.toList_inj, hbytes]
    simp
  have hlen := length_bytes_of_placed before h₁
  have hdec :=
    Segment.decodeAt_bytes (ops₁.flatMap EncodedOp.bytes) (ops₂.flatMap EncodedOp.bytes) op
  rw [hlen, ← harray, ← hop.size_eq] at hdec
  exact hdec

end EncodesCode

/-! ## Whole programs

A program is encoded block by block, with one directory for all of them. -/

/-- An encoded block is what its symbolic block says. -/
structure Encodes (d : Directory) (b : Block) (e : TypedStack.Block) : Prop where
  name : e.name = b.name
  signature : e.signature = b.signature
  slots : e.slots = b.slots
  name_le : b.name.utf8ByteSize ≤ wordLimit
  params_le : b.signature.params.length ≤ 255
  slots_le : b.slots.size ≤ wordLimit
  code : EncodesCode d b.instrs.toList e.segment

theorem checkName_ok {name : String} {u : Unit} :
    checkName name = .ok u ↔ name.utf8ByteSize ≤ wordLimit := by
  unfold checkName
  split
  · simp
    omega
  · simp
    omega

theorem encodeBlock_parts {d : Directory} {b : Block} {e : TypedStack.Block}
    (h : encodeBlock d b = .ok e) : b.name.utf8ByteSize ≤ wordLimit ∧
      ∃ s, encodeBody d b = .ok s ∧ e = ⟨b.name, b.signature, b.slots, s⟩ := by
  unfold encodeBlock at h
  obtain ⟨_, hname, hrest⟩ := except_bind_ok.mp h
  obtain ⟨s, hs, hpure⟩ := except_bind_ok.mp hrest
  exact ⟨checkName_ok.mp hname, s, except_mapError_ok.mp hs, (except_pure_ok.mp hpure).symm⟩

/-- An encoded block has the name, the signature and the slots of its symbolic block. -/
theorem encodeBlock_ok {d : Directory} {b : Block} {e : TypedStack.Block}
    (h : encodeBlock d b = .ok e) : Encodes d b e := by
  obtain ⟨hname, s, hs, rfl⟩ := encodeBlock_parts h
  obtain ⟨hparams, hslots, _⟩ := encodeBody_checks.mp hs
  exact ⟨rfl, rfl, rfl, hname, hparams, hslots, encodeBody_ok hs⟩

/-- What a successful encoding gives: every block encoded, in its place. -/
theorem Program.encode_ok {p : Program} {a : Artifact} (h : p.encode = .ok a) :
    a.name = p.name ∧ p.blocks.size ≤ wordLimit ∧ p.name.utf8ByteSize ≤ wordLimit ∧
      List.Forall₂ (Encodes p.directory) p.blocks.toList a.blocks.toList := by
  unfold Program.encode at h
  simp only [except_throw_bind, except_guard_ok, except_bind_ok] at h
  obtain ⟨hblocks, _, hname, blocks, hmap, hpure⟩ := h
  obtain rfl := except_pure_ok.mp hpure
  refine ⟨rfl, by omega, checkName_ok.mp hname, ?_⟩
  have hlist : p.blocks.toList.mapM (encodeBlock p.directory) = .ok blocks.toList := by
    rw [← Array.toList_mapM, hmap]
    rfl
  exact (except_mapM_ok.mp hlist).imp fun _ _ hb => encodeBlock_ok hb

/-! ## Finding blocks by name

A call names its callee, and the directory turns the name into a number. If two blocks share a name,
the directory knows the first. -/

/-- Blocks are entered from the last to the first, and each entry replaces an older one of the same
name. -/
theorem directory_fold (name : String) (blocks : List (Block × Nat)) :
    (blocks.foldr (fun q (d : Directory) => d.insert q.1.name (q.2, q.1.signature)) ∅)[name]? =
      (blocks.find? (·.1.name == name)).map fun q => (q.2, q.1.signature) := by
  induction blocks with
  | nil => simp
  | cons q blocks ih =>
    -- the entry of the first block is made last
    rw [List.foldr_cons, Std.HashMap.getElem?_insert, ih, List.find?_cons]
    cases q.1.name == name <;> rfl

/-- A name leads to the first block that has it. -/
theorem Program.directory_eq (p : Program) (name : String) :
    p.directory[name]? =
      (p.blocks.toList.zipIdx.find? (·.1.name == name)).map fun q => (q.2, q.1.signature) := by
  unfold Program.directory
  rw [← Array.foldr_toList, Array.toList_zipIdx]
  exact directory_fold name _

/-- What the directory has under a name is a block of this name, with its signature. -/
theorem Program.directory_some {p : Program} {name : String} {i : Nat} {sig : Signature}
    (h : p.directory[name]? = some (i, sig)) :
    ∃ b, p.blocks[i]? = some b ∧ b.name = name ∧ b.signature = sig := by
  rw [Program.directory_eq, Option.map_eq_some_iff] at h
  obtain ⟨⟨b, j⟩, hfind, hq⟩ := h
  cases hq
  have hmem := List.mem_of_find?_eq_some hfind
  have hname := List.find?_some hfind
  rw [List.mem_zipIdx_iff_getElem?] at hmem
  exact ⟨b, by simpa using hmem, by simpa using hname, rfl⟩

/-- Where names are distinct, every block is found under its own. The first block of its name can be
no other. -/
theorem Program.directory_of_distinct {p : Program}
    (hd : (p.blocks.toList.map (·.name)).Nodup) {b : Block} {i : Nat}
    (hb : p.blocks[i]? = some b) : p.directory[b.name]? = some (i, b.signature) := by
  cases hfound : p.directory[b.name]? with
  | none =>
    rw [Program.directory_eq, Option.map_eq_none_iff, List.find?_eq_none] at hfound
    have hmem : (b, i) ∈ p.blocks.toList.zipIdx := by
      rw [List.mem_zipIdx_iff_getElem?]
      simpa using hb
    exact absurd (hfound (b, i) hmem) (by simp)
  | some q =>
    obtain ⟨j, sig⟩ := q
    obtain ⟨b', hb', hname, rfl⟩ := Program.directory_some hfound
    -- names are distinct, so the block found is the one at `i`
    have hi : (p.blocks.toList.map (·.name))[i]? = some b.name := by simp [hb]
    have hj : (p.blocks.toList.map (·.name))[j]? = some b.name := by simp [hb', hname]
    have hlt : i < (p.blocks.toList.map (·.name)).length := (List.getElem?_eq_some_iff.mp hi).1
    obtain rfl := (List.getElem?_inj hlt hd).mp (hi.trans hj.symm)
    rw [hb] at hb'
    cases hb'
    rfl

/-- A call is resolved if the signature it expects is the one that the directory has. -/
theorem Directory.resolve_ok {d : Directory} {callee : Callee} {i : UInt16} :
    d.resolve callee = .ok i ↔
      ∃ n, d[callee.name]? = some (n, callee.signature) ∧ UInt16.ofNat n = i := by
  unfold Directory.resolve
  split
  · next hnone => simp [hnone]
  · next n declared hsome =>
    split
    · next hsig => simp [hsome, hsig]
    · next hsig => simp [hsome, hsig]

/-- A resolved call goes to a block of the name and signature that it was written with. -/
theorem Program.resolve_block {p : Program} (hsize : p.blocks.size ≤ wordLimit) {callee : Callee}
    {i : UInt16} (h : p.directory.resolve callee = .ok i) :
    ∃ b, p.blocks[i.toNat]? = some b ∧ b.name = callee.name ∧ b.signature = callee.signature := by
  obtain ⟨n, hn, rfl⟩ := Directory.resolve_ok.mp h
  obtain ⟨b, hb, hname, hsig⟩ := Program.directory_some hn
  have hlt : n < p.blocks.size := (Array.getElem?_eq_some_iff.mp hb).1
  rw [toNat_word (Nat.le_of_lt (Nat.lt_of_lt_of_le hlt hsize))]
  exact ⟨b, hb, hname, hsig⟩

end Assembly

end TypedStack
