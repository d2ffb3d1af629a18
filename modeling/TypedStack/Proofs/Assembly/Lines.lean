import TypedStack.Proofs.Assembly.Encodable
import TypedStack.Proofs.Code.LineTable
/-!
# The source lines of encoded code

A block lists a source line for every instruction, marks included, and a mark takes no bytes. So
three counts run beside each other, that of instructions, that of bytes and that of entries in the
line table. `spread` gives every byte the line of its instruction. The first pass keeps the lines
with the instructions that it places (`Layout.Holds.fold_lines`) and the second writes them down
(`writeOps_tells`).

What the table has to tell is thereby a list of lines that can be computed from the block alone, one
line for each byte. That the table tells it is an invariant of writing bytes and known from there.
-/

set_option autoImplicit false

namespace TypedStack.Assembly

/-! ## Lines over bytes

A list of items with a line each, spread over the bytes that the items take. -/

section Spread

variable {α : Type} (size : α → Nat)

/-- The line of every byte of a list of items, each of which has one line and takes a number of
bytes. -/
def spread (items : List (α × UInt32)) : List UInt32 :=
  items.flatMap fun q => List.replicate (size q.1) q.2

theorem spread_cons (q : α × UInt32) (items : List (α × UInt32)) :
    spread size (q :: items) = List.replicate (size q.1) q.2 ++ spread size items :=
  List.flatMap_cons

theorem spread_concat (items : List (α × UInt32)) (q : α × UInt32) :
    spread size (items ++ [q]) = spread size items ++ List.replicate (size q.1) q.2 := by
  unfold spread
  rw [List.flatMap_append, List.flatMap_singleton]

end Spread

theorem length_spread (code : List (Instr × UInt32)) :
    (spread Instr.size code).length = codeSize (code.map Prod.fst) := by
  induction code with
  | nil => rfl
  | cons q code ih =>
    rw [List.map_cons, codeSize_cons, ← ih, spread_cons, List.length_append, List.length_replicate]

/-- The bytes of an instruction have the line that is listed for it. -/
theorem spread_getElem? (code : List (Instr × UInt32)) :
    ∀ {k j : Nat} {i : Instr} {line : UInt32}, code[k]? = some (i, line) → j < i.size →
      (spread Instr.size code)[codeSize ((code.map Prod.fst).take k) + j]? = some line := by
  induction code with
  | nil =>
    intro k j i line hk _
    cases hk
  | cons q code ih =>
    intro k j i line hk hj
    rw [spread_cons, List.getElem?_append, List.length_replicate]
    cases k with
    | zero =>
      cases hk
      rw [List.take_zero, codeSize_nil, Nat.zero_add, if_pos hj, List.getElem?_replicate, if_pos hj]
    | succ k =>
      have hrest := ih hk hj
      rw [List.map_cons, List.take_succ_cons, codeSize_cons, Nat.add_assoc, if_neg (by omega),
        Nat.add_sub_cancel_left]
      exact hrest

/-! ## The first pass

The layout keeps instructions with their lines and drops the marks, which have no bytes to have a
line. -/

/-- An instruction is placed with its line, and a mark is not placed. -/
theorem Layout.Holds.add_lines {d : Directory} {code : List Instr} {l l' : Layout} {i : Instr}
    {line : UInt32} (h : l.Holds d code) (ha : l.add d (i, line) = .ok l') :
    spread Op.size l'.ops.toList = spread Op.size l.ops.toList ++ List.replicate i.size line := by
  cases i with
  | mark label =>
    simp only [Layout.add] at ha
    split at ha
    · cases ha
    · cases ha
      rw [size_mark, List.replicate_zero, List.append_nil]
  | op o =>
    simp only [Layout.add] at ha
    split at ha
    · cases ha
    · next p pool hp =>
      cases ha
      obtain ⟨hrel, _⟩ := place_ok h.room hp
      rw [Array.toList_push, spread_concat, size_op, hrel.size_eq]

theorem Layout.Holds.fold_lines {d : Directory} (rest : List (Instr × UInt32)) :
    ∀ {code : List Instr} {l l' : Layout}, l.Holds d code →
      rest.foldlM (Layout.add d) l = .ok l' →
      spread Op.size l'.ops.toList = spread Op.size l.ops.toList ++ spread Instr.size rest := by
  induction rest with
  | nil =>
    intro code l l' _ hf
    cases hf
    exact (List.append_nil _).symm
  | cons q rest ih =>
    intro code l l' h hf
    obtain ⟨mid, hadd, hrest⟩ := except_bind_ok.mp hf
    rw [ih (h.add hadd) hrest, h.add_lines hadd, List.append_assoc, ← spread_cons]

theorem Layout.lines_ofBlock {d : Directory} {b : Block} {l : Layout}
    (h : Layout.ofBlock d b = .ok l) :
    spread Op.size l.ops.toList = spread Instr.size b.lined.toList := by
  rw [Layout.ofBlock_eq] at h
  exact (Layout.holds_empty d).fold_lines _ h

/-! ## The second pass

Each instruction is written with its line for every byte of it. -/

/-- By induction on the instructions: what the table tells grows by the bytes of each. -/
theorem writeOps_tells {labels : Std.HashMap Label Nat} (ps : List (PlacedOp × UInt32)) :
    ∀ {s s' : Segment} {given : List UInt32}, s.Tells given →
      given.length + (spread Op.size ps).length ≤ UInt32.size →
      ps.foldlM (writeOp labels) s = .ok s' → s'.Tells (given ++ spread Op.size ps) := by
  induction ps with
  | nil =>
    intro s s' given h _ hf
    cases hf
    show s.Tells (given ++ [])
    rw [List.append_nil]
    exact h
  | cons p ps ih =>
    intro s s' given h hfits hf
    obtain ⟨mid, hwrite, hrest⟩ := except_bind_ok.mp hf
    obtain ⟨op, hrel, rfl⟩ := writeOp_ok hwrite
    have hsize : (EncodedOp.bytes op).length = p.1.size := by
      rw [EncodedOp.length_bytes, hrel.size_eq]
    rw [spread_cons, List.length_append, List.length_replicate] at hfits
    have hemit := h.writeAll (EncodedOp.bytes op) p.2 (by omega)
    rw [hsize] at hemit
    have htells := ih hemit (by rw [List.length_append, List.length_replicate]; omega) hrest
    rw [spread_cons, ← List.append_assoc]
    exact htells

/-- The line table of an encoded block tells the lines that the block lists. -/
theorem encodeBody_tells {d : Directory} {b : Block} {s : Segment} (h : encodeBody d b = .ok s) :
    s.Tells (spread Instr.size b.lined.toList) := by
  obtain ⟨_, _, layout, hlayout, hoffset, hwrite⟩ := encodeBody_checks.mp h
  have hlines := Layout.lines_ofBlock hlayout
  have hsize : (spread Instr.size b.lined.toList).length ≤ wordLimit := by
    rw [length_spread, Block.lined_fst, ← (Layout.holds_ofBlock hlayout).offset]
    exact hoffset
  rw [← hlines] at hsize ⊢
  apply writeOps_tells _ (Segment.tells_empty layout.pool) _ hwrite
  rw [List.length_nil, Nat.zero_add]
  exact Nat.le_trans hsize (by decide)

theorem encodeBlock_tells {d : Directory} {b : Block} {e : TypedStack.Block}
    (h : encodeBlock d b = .ok e) : e.segment.Tells (spread Instr.size b.lined.toList) := by
  obtain ⟨_, s, hs, rfl⟩ := encodeBlock_parts h
  exact encodeBody_tells hs

/-- An instruction of a block has the line that is listed in its place, or zero where the list is
too short. -/
theorem Block.lined_getElem? {b : Block} {k : Nat} {i : Instr} (h : b.instrs[k]? = some i) :
    b.lined.toList[k]? = some (i, b.lines.getD k 0) := by
  rw [Block.lined, Array.getElem?_toList, Array.getElem?_mapIdx, h]
  rfl

theorem Block.split_at {b : Block} {k : Nat} {i : Instr} (h : b.instrs[k]? = some i) :
    b.instrs.toList = b.instrs.toList.take k ++ i :: b.instrs.toList.drop (k + 1) := by
  rw [← Array.getElem?_toList] at h
  obtain ⟨hlt, hi⟩ := List.getElem?_eq_some_iff.mp h
  rw [← hi, ← List.drop_eq_getElem_cons hlt, List.take_append_drop]

/-- **The line table is faithful.** A table that is written byte by byte tells the line of every
byte, with marks in the order of their offsets, from zero on, and no two neighbours for one line. So
does the table of every encoded block: the bytes that an instruction is decoded from have the line
that the block lists for it, or zero where the list ends before it, whatever operands are patched
into the code later. -/
theorem line_table_faithful :
    (∀ writes : List (UInt8 × UInt32), writes.length < UInt32.size →
      (({} : Segment).writeEach writes).Tells (writes.map Prod.snd)) ∧
    ∀ (d : Directory) (b : Block) (e : TypedStack.Block), encodeBlock d b = .ok e →
      (∃ given, e.segment.Tells given) ∧
      ∀ (k : Nat) (o : SymbolicOp), b.instrs[k]? = some (.op o) →
        ∃ start op, start = codeSize (b.instrs.toList.take k) ∧
          e.segment.decode start = .ok (op, start + o.size) ∧ op.opcode = o.opcode ∧
          ∀ (patches : List (Nat × UInt16)) (offset : Nat),
            start ≤ offset → offset < start + o.size →
            (e.segment.patchEach patches).lineAt offset = b.lines.getD k 0 := by
  constructor
  · intro writes hfew
    have htells := (Segment.tells_empty #[]).writeEach writes (by
      rw [List.length_nil, Nat.zero_add]
      exact Nat.le_of_lt hfew)
    exact htells
  · intro d b e hblock
    have htells := encodeBlock_tells hblock
    refine ⟨⟨_, htells⟩, ?_⟩
    intro k o hk
    obtain ⟨op, hdecode, hplaced⟩ := (encodeBlock_ok hblock).code.decode (Block.split_at hk)
    refine ⟨_, op, rfl, hdecode, hplaced.opcode_eq.symm, ?_⟩
    intro patches offset hlow hhigh
    rw [Segment.lineAt_patchEach]
    apply htells.lineAt
    have hinside : offset - codeSize (b.instrs.toList.take k) < (Instr.op o).size := by
      rw [size_op]
      omega
    have hline := spread_getElem? _ (Block.lined_getElem? hk) hinside
    rw [Block.lined_fst, Nat.add_sub_cancel' hlow] at hline
    exact hline

/-- Jumps over a mark and back to one. The lines go down again, and there are fewer of them than
instructions. -/
def markedBlock : Block where
  name := "f"
  signature := {}
  slots := #[]
  instrs := #[.mark ⟨0⟩, .op (.const (.value (.bool true))), .op (.jumpIfTrue ⟨1⟩),
    .op (.jump ⟨0⟩), .mark ⟨1⟩, .op .retVoid]
  lines := #[4, 5, 5, 3]

theorem line_table_faithful_marked : ∃ e,
    encodeBlock (Program.directory { name := "Main" }) markedBlock = .ok e ∧
      (∀ offset < 6, e.segment.lineAt offset = 5) ∧
      (∀ offset, 6 ≤ offset → offset < 9 → e.segment.lineAt offset = 3) ∧
      e.segment.lineAt 9 = 0 := by
  have hencodable : markedBlock.Encodable { name := "Main" } := by
    constructor <;> decide +kernel
  obtain ⟨e, he⟩ := hencodable.encodeBlock
  have hlines := (line_table_faithful.2 _ _ e he).2
  obtain ⟨_, _, rfl, _, _, hconst⟩ := hlines 1 _ rfl
  obtain ⟨_, _, rfl, _, _, htest⟩ := hlines 2 _ rfl
  obtain ⟨_, _, rfl, _, _, hjump⟩ := hlines 3 _ rfl
  obtain ⟨_, _, rfl, _, _, hret⟩ := hlines 5 _ rfl
  refine ⟨e, he, ?_, hjump [], hret [] 9 (by decide) (by decide)⟩
  intro offset hlt
  by_cases hfirst : offset < 3
  · exact hconst [] offset (Nat.zero_le _) hfirst
  · exact htest [] offset (Nat.le_of_not_lt hfirst) hlt

end TypedStack.Assembly
