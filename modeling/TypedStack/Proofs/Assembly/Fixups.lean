import TypedStack.Proofs.Assembly.Layout
import TypedStack.Proofs.Code.Writing
/-!
# Fixups

The encoder writes a jump before it knows where the jump goes, and patches it at the end. Code laid
out first and then written with its labels resolved is easier to reason about, and it is the same
code: `encodeBody_eq` equates the two, failures included.

The argument has two halves. Step by step the pass and the layout agree (`Follows`): the pass has
the pool, the marks and the size of the layout, its segment is the laid out instructions written
with blanks, and its fixups are the places of those blanks. And filling the blanks of written code
in, one after the other, gives what writing resolved instructions gives (`fill_blanks`), since a
patch commutes with everything written behind it.
-/

set_option autoImplicit false

namespace TypedStack.Assembly

/-! ## The second pass

What the pass would do if it knew all labels from the start. It has no fixups and overwrites
nothing. -/

/-- Appends one instruction, with its label resolved. -/
def writeOp (labels : Std.HashMap Label Nat) (s : Segment) (placed : PlacedOp × UInt32) :
    Except BlockError Segment :=
  match placed.1.traverse pure pure pure (targetOffset labels) with
  | .error e => .error e
  | .ok op => .ok (s.emit op placed.2)

/-- The code of a layout, whose labels are all known. -/
def Layout.write (l : Layout) : Except BlockError Segment :=
  l.ops.toList.foldlM (writeOp l.labels) { pool := l.pool }

/-! ## Blanks

A jump is first written with zero for its label. The place of the zero is the last word of the jump,
whatever else the jump holds, so that it can be found from where the jump ends. -/

/-- The instructions written with zero for every label. -/
def writeBlanks (ops : List (PlacedOp × UInt32)) (s : Segment) : Segment :=
  ops.foldl (fun s q => s.emit q.1.blank q.2) s

/-- The fixup of an instruction that ends at an offset, if it has a label. -/
def fixup? (o : PlacedOp) (stop : Nat) : Option Fixup :=
  o.target?.map fun label => ⟨stop - 2, label⟩

/-- The blanks of instructions that are written from an offset on, in the order in which they are
written. -/
def blanks : List (PlacedOp × UInt32) → Nat → List Fixup
  | [], _ => []
  | q :: ops, start => (fixup? q.1 (start + q.1.size)).toList ++ blanks ops (start + q.1.size)

/-- The number of bytes that instructions take. -/
def opsSize (ops : List (PlacedOp × UInt32)) : Nat := (ops.map fun q => q.1.size).foldr (· + ·) 0

theorem size_blank (o : PlacedOp) : o.blank.size = o.size := by
  cases o with
  | arith op t => cases op <;> rfl
  | shift kind => cases kind <;> rfl
  | _ => rfl

theorem size_place {d : Directory} {o : SymbolicOp} {pool pool' : Array Constant} {p : PlacedOp}
    (hsize : pool.size ≤ wordLimit) (h : place d o pool = .ok (p, pool')) : p.size = o.size :=
  ((place_ok hsize h).1.size_eq).symm

theorem writeBlanks_concat (ops : List (PlacedOp × UInt32)) (q : PlacedOp × UInt32) (s : Segment) :
    writeBlanks (ops ++ [q]) s = (writeBlanks ops s).emit q.1.blank q.2 :=
  List.foldl_concat ..

/-- The code does not depend on the pool, which grows while it is written. -/
theorem writeBlanks_setPool (pool : Array Constant) :
    ∀ (ops : List (PlacedOp × UInt32)) (s : Segment),
      writeBlanks ops { s with pool } = { writeBlanks ops s with pool }
  | [], _ => rfl
  | q :: ops, s => by
    have ih := writeBlanks_setPool pool ops (s.emit q.1.blank q.2)
    rw [← Segment.emit_setPool] at ih
    exact ih

/-- The blank of a further instruction comes behind those of the others, at an offset that they
determine. -/
theorem blanks_concat (q : PlacedOp × UInt32) :
    ∀ (ops : List (PlacedOp × UInt32)) (start : Nat),
      blanks (ops ++ [q]) start =
        blanks ops start ++ (fixup? q.1 (start + opsSize ops + q.1.size)).toList
  | [], start => by simp [blanks, opsSize]
  | p :: ops, start => by
    have ih := blanks_concat q ops (start + p.1.size)
    simp only [List.cons_append, blanks, ih, List.append_assoc, opsSize, List.map_cons,
      List.foldr_cons, Nat.add_assoc]

theorem opsSize_concat (ops : List (PlacedOp × UInt32)) (q : PlacedOp × UInt32) :
    opsSize (ops ++ [q]) = opsSize ops + q.1.size := by
  induction ops with
  | nil => simp [opsSize]
  | cons p ops ih =>
    simp only [opsSize, List.map_cons, List.foldr_cons, List.cons_append] at ih ⊢
    omega

/-! ## The pass follows the layout

One step of the pass beside one step of the layout. Both look at the same things before they do
anything, so they fail together; otherwise the correspondence is kept. -/

/-- What the encoder has written and noted, in terms of the layout of the same code. The size of the
code is the offset of the layout, which is why a mark gets the same offset from both. -/
structure Follows (e : Encoder) (l : Layout) : Prop where
  segment : e.segment = { writeBlanks l.ops.toList {} with pool := l.pool }
  marks : e.marks = l.labels
  fixups : e.fixups.toList = blanks l.ops.toList 0
  size : e.segment.code.size = l.offset
  offset : l.offset = opsSize l.ops.toList
  room : l.pool.size ≤ wordLimit

theorem follows_empty : Follows {} {} where
  segment := rfl
  marks := rfl
  fixups := rfl
  size := rfl
  offset := rfl
  room := by simp [wordLimit]

theorem Encoder.emit_segment (e : Encoder) (o : PlacedOp) (line : UInt32) :
    (e.emit o line).segment = e.segment.emit o.blank line := by
  unfold Encoder.emit
  dsimp only
  split <;> rfl

theorem Encoder.emit_marks (e : Encoder) (o : PlacedOp) (line : UInt32) :
    (e.emit o line).marks = e.marks := by
  unfold Encoder.emit
  dsimp only
  split <;> rfl

/-- A jump leaves a fixup for the word that it ends with. -/
theorem Encoder.emit_fixups (e : Encoder) (o : PlacedOp) (line : UInt32) :
    (e.emit o line).fixups.toList =
      e.fixups.toList ++ (fixup? o (e.segment.code.size + o.size)).toList := by
  have hsize := Segment.emit_size e.segment o.blank line
  rw [size_blank] at hsize
  unfold Encoder.emit fixup?
  cases o.target? with
  | none => simp
  | some label => simp [hsize]

/-- Writing an instruction and laying it out keep the pass in step with the layout. -/
theorem Follows.emit {e : Encoder} {l : Layout} (h : Follows e l) {pool : Array Constant}
    (hroom : pool.size ≤ wordLimit) (o : PlacedOp) (line : UInt32) :
    Follows (Encoder.emit ⟨{ e.segment with pool }, e.marks, e.fixups⟩ o line)
      ⟨pool, l.labels, l.offset + o.size, l.ops.push (o, line)⟩ where
  segment := by
    rw [Encoder.emit_segment, h.segment, Array.toList_push, writeBlanks_concat,
      ← Segment.emit_setPool]
  marks := by rw [Encoder.emit_marks, h.marks]
  fixups := by
    have hstart : e.segment.code.size = 0 + opsSize l.ops.toList := by
      rw [h.size, h.offset, Nat.zero_add]
    rw [Encoder.emit_fixups, Array.toList_push, blanks_concat, h.fixups, hstart]
  size := by rw [Encoder.emit_segment, Segment.emit_size, size_blank, h.size]
  offset := by rw [h.offset, Array.toList_push, opsSize_concat]
  room := hroom

/-- A mark binds its label to the size of the code written, which is the offset laid out. -/
theorem Follows.mark {e : Encoder} {l : Layout} (h : Follows e l) (label : Label) :
    Follows { e with marks := e.marks.insert label e.segment.code.size }
      { l with labels := l.labels.insert label l.offset } :=
  ⟨h.segment, by rw [h.marks, h.size], h.fixups, h.size, h.offset, h.room⟩

/-- Adding an instruction fails for both alike, or keeps the pass in step with the layout. -/
theorem Follows.add {d : Directory} {e : Encoder} {l : Layout} (h : Follows e l)
    (q : Instr × UInt32) :
    (∃ cause, e.add d q = .error cause ∧ l.add d q = .error cause) ∨
      ∃ e' l', e.add d q = .ok e' ∧ l.add d q = .ok l' ∧ Follows e' l' := by
  obtain ⟨i, line⟩ := q
  cases i with
  | mark label =>
    unfold Encoder.add Layout.add
    dsimp only
    rw [h.marks]
    split
    · exact .inl ⟨_, rfl, rfl⟩
    · exact .inr ⟨_, _, rfl, rfl, h.marks ▸ h.mark label⟩
  | op o =>
    have hpool : e.segment.pool = l.pool := congrArg Segment.pool h.segment
    unfold Encoder.add Layout.add
    dsimp only
    rw [hpool]
    cases hplace : place d o l.pool with
    | error cause => exact .inl ⟨cause, rfl, rfl⟩
    | ok placed =>
      have hsize := size_place h.room hplace
      have hroom := (place_ok h.room hplace).2.2.1
      refine .inr ⟨_, _, rfl, rfl, ?_⟩
      rw [← hsize]
      exact h.emit hroom placed.1 line

/-- So the whole pass is in step with the whole layout, or both fail for the same reason. -/
theorem Follows.fold {d : Directory} (code : List (Instr × UInt32)) :
    ∀ {e : Encoder} {l : Layout}, Follows e l →
      (∃ cause, code.foldlM (Encoder.add d) e = .error cause ∧
        code.foldlM (Layout.add d) l = .error cause) ∨
      ∃ e' l', code.foldlM (Encoder.add d) e = .ok e' ∧ code.foldlM (Layout.add d) l = .ok l' ∧
        Follows e' l' := by
  induction code with
  | nil =>
    intro e l h
    exact .inr ⟨e, l, rfl, rfl, h⟩
  | cons q code ih =>
    intro e l h
    rw [List.foldlM_cons, List.foldlM_cons]
    rcases h.add (d := d) q with ⟨cause, he, hl⟩ | ⟨e', l', he, hl, h'⟩
    · rw [he, hl]
      exact .inl ⟨cause, rfl, rfl⟩
    · rw [he, hl]
      exact ih h'

/-! ## Filling blanks in

When the pass is over, its fixups are gone through from the first to the last. In the two passes a
jump is resolved when it is written. To get from the one to the other, each patch has to be moved to
where its jump is written. -/

/-- Filling a blank in and writing on may be exchanged. -/
theorem patchWord_writeBlanks {offset : Nat} (n : UInt16) :
    ∀ (ops : List (PlacedOp × UInt32)) {s : Segment}, offset + 2 ≤ s.code.size →
      (writeBlanks ops s).patchWord offset n = writeBlanks ops (s.patchWord offset n)
  | [], _, _ => rfl
  | q :: ops, s, h => by
    have hwritten : offset + 2 ≤ (s.emit q.1.blank q.2).code.size := by
      rw [Segment.emit_size]
      omega
    have ih := patchWord_writeBlanks n ops hwritten
    rw [Segment.emit, Segment.patchWord_writeAll n q.2 _ h] at ih
    exact ih

section

variable {labels : Std.HashMap Label Nat} {o : PlacedOp} {label : Label}

theorem writeOp_plain (h : o.target? = none) (s : Segment) (line : UInt32) :
    writeOp labels s (o, line) = .ok (s.emit o.blank line) := by
  cases o with
  | jump l | jumpIf r l | jumpIfTrue l => cases h
  | _ => rfl

theorem writeOp_unbound {cause : BlockError} (h : o.target? = some label)
    (hlabel : targetOffset labels label = .error cause) (s : Segment) (line : UInt32) :
    writeOp labels s (o, line) = .error cause := by
  cases o with
  | jump l | jumpIf r l | jumpIfTrue l =>
    cases h
    simp [writeOp, Op.traverse, hlabel, Functor.map, Except.map]
  | _ => cases h

/-- A jump written with its label resolved is the jump written with a blank, patched in the word
that it ends with. -/
theorem writeOp_jump {n : UInt16} (h : o.target? = some label)
    (hlabel : targetOffset labels label = .ok n) (s : Segment) (line : UInt32) :
    writeOp labels s (o, line) =
      .ok ((s.emit o.blank line).patchWord (s.code.size + o.size - 2) n) := by
  -- the word stands behind the opcode and, in one of the three, the relation
  have hpatch : ∀ before : List UInt8,
      (s.writeAll (before ++ EncodedOp.wordBytes 0) line).patchWord
          (s.code.size + before.length) n =
        s.writeAll (before ++ EncodedOp.wordBytes n) line := by
    intro before
    rw [Segment.writeAll_append, Segment.writeAll_append, ← Segment.writeAll_size line before s]
    exact Segment.patchWord_last _ 0 n line
  cases o with
  | jump l =>
    cases h
    simp only [writeOp, Op.traverse, hlabel, Functor.map, Except.map]
    exact congrArg Except.ok (hpatch [Opcode.jump.byte]).symm
  | jumpIf relation l =>
    cases h
    simp only [writeOp, Op.traverse, hlabel, Functor.map, Except.map]
    exact congrArg Except.ok (hpatch [Opcode.jumpIf.byte, relation.tag]).symm
  | jumpIfTrue l =>
    cases h
    simp only [writeOp, Op.traverse, hlabel, Functor.map, Except.map]
    exact congrArg Except.ok (hpatch [Opcode.jumpIfTrue.byte]).symm
  | _ => cases h

/-- A jump has room for the word that it ends with. -/
theorem two_le_size (h : o.target? = some label) : 2 ≤ o.size := by
  cases o with
  | jump l | jumpIf r l | jumpIfTrue l => exact Nat.le_of_ble_eq_true rfl
  | _ => cases h

end

/-- **Patching is writing.** Filling in the blanks of written code gives the code written with
resolved labels; the first label that is not bound is reported by both. By induction on the
instructions. -/
theorem fill_blanks (labels : Std.HashMap Label Nat) :
    ∀ (ops : List (PlacedOp × UInt32)) (s : Segment),
      (blanks ops s.code.size).foldlM (applyFixup labels) (writeBlanks ops s) =
        ops.foldlM (writeOp labels) s
  | [], _ => rfl
  | (o, line) :: ops, s => by
    have hsize : (s.emit o.blank line).code.size = s.code.size + o.size := by
      rw [Segment.emit_size, size_blank]
    rw [List.foldlM_cons, blanks]
    change List.foldlM _ (writeBlanks ops (s.emit o.blank line)) _ = _
    cases htarget : o.target? with
    | none =>
      have ih := fill_blanks labels ops (s.emit o.blank line)
      rw [writeOp_plain htarget, fixup?, htarget, ← hsize]
      exact ih
    | some label =>
      rw [fixup?, htarget, Option.map_some, Option.toList_some, List.singleton_append,
        List.foldlM_cons, applyFixup]
      cases hlabel : targetOffset labels label with
      | error cause =>
        rw [writeOp_unbound htarget hlabel]
        rfl
      | ok n =>
        -- the patch is moved before everything that is written behind the jump
        have hinside : s.code.size + o.size - 2 + 2 ≤ (s.emit o.blank line).code.size := by
          have := two_le_size htarget
          omega
        have ih := fill_blanks labels ops
          ((s.emit o.blank line).patchWord (s.code.size + o.size - 2) n)
        rw [Segment.patchWord_size, hsize] at ih
        rw [writeOp_jump htarget hlabel]
        dsimp only
        rw [patchWord_writeBlanks n ops hinside]
        exact ih

/-! ## One pass is two

The two halves put together. The checks on sizes are the same in both and stand in the same order.
-/

/-- The body of a block, laid out first and then written. -/
def layOutAndWrite (d : Directory) (b : Block) : Except BlockError Segment := do
  if 255 < b.signature.params.length then throw .tooManyParams
  if wordLimit < b.slots.size then throw .tooManySlots
  let layout ← Layout.ofBlock d b
  if wordLimit < layout.offset then throw .codeTooLarge
  layout.write

/-- Once the pass is over, its fixups give the code of the layout. -/
theorem Follows.write {e : Encoder} {l : Layout} (h : Follows e l) :
    e.fixups.foldlM (applyFixup e.marks) e.segment = l.write := by
  have hfill := fill_blanks l.labels l.ops.toList { pool := l.pool }
  rw [writeBlanks_setPool l.pool l.ops.toList {}, ← h.segment] at hfill
  rw [← Array.foldlM_toList, h.marks, h.fixups]
  exact hfill

/-- **One pass is two.** Encoding in one pass, with fixups for the labels, is laying the code out
and then writing it: the same code in the end, or the same failure. -/
theorem encodeBody_eq (d : Directory) (b : Block) : encodeBody d b = layOutAndWrite d b := by
  unfold encodeBody layOutAndWrite Layout.ofBlock
  rw [← Array.foldlM_toList, ← Array.foldlM_toList]
  rcases follows_empty.fold (d := d) b.lined.toList with ⟨cause, he, hl⟩ | ⟨e, l, he, hl, h⟩
  · rw [he, hl]
    rfl
  · rw [he, hl]
    simp only [bind, Except.bind, h.size, h.write]

end TypedStack.Assembly
