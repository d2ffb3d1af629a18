import TypedStack.Code.Segment
/-!
# Writing and patching bytes

What writing appends to a segment, and what patching a word of it does. The two commute where the
word was written before (`Segment.patchWord_writeAll`), and patching the word written last is the
same as having written the other one (`Segment.patchWord_last`): an encoder may leave a word open
and fill it in when the rest of the code stands.

Neither is obvious from the code alone, since a segment also keeps a line table. The table depends
on the lines that come with the bytes and on the size of the code, and on neither the bytes nor the
constants.
-/

set_option autoImplicit false

namespace TypedStack.Segment

/-! ## Writing bytes

Three parts of a segment and what writing does to each of them: the code grows by the byte, the line
table by at most a mark, the pool not at all. -/

theorem write_code (s : Segment) (byte : UInt8) (line : UInt32) :
    (s.write byte line).code = s.code.push byte := by
  unfold write
  dsimp only
  split <;> rfl

theorem write_pool (s : Segment) (byte : UInt8) (line : UInt32) :
    (s.write byte line).pool = s.pool := by
  unfold write
  dsimp only
  split <;> rfl

/-- At most one mark is made for each byte. -/
theorem write_lines (s : Segment) (byte : UInt8) (line : UInt32)
    (h : s.lines.size ≤ s.code.size) :
    (s.write byte line).lines.size ≤ (s.write byte line).code.size := by
  unfold write
  dsimp only
  split
  · simp only [Array.size_push]
    omega
  · simp only [Array.size_push]
    omega

/-- Bytes go to the end of the code; the pool is left alone, and the line table stays within the
size of the code. -/
theorem writeAll_spec (line : UInt32) :
    ∀ (bytes : List UInt8) (s : Segment), s.lines.size ≤ s.code.size →
      (s.writeAll bytes line).code.toList = s.code.toList ++ bytes ∧
      (s.writeAll bytes line).pool = s.pool ∧
      (s.writeAll bytes line).lines.size ≤ (s.writeAll bytes line).code.size
  | [], s, h => ⟨by simp [writeAll], rfl, h⟩
  | byte :: bytes, s, h => by
    have ih := writeAll_spec line bytes (s.write byte line) (write_lines s byte line h)
    rw [write_code, write_pool] at ih
    simpa [writeAll] using ih

theorem writeAll_append (s : Segment) (first second : List UInt8) (line : UInt32) :
    s.writeAll (first ++ second) line = (s.writeAll first line).writeAll second line :=
  List.foldl_append

theorem writeAll_size (line : UInt32) :
    ∀ (bytes : List UInt8) (s : Segment),
      (s.writeAll bytes line).code.size = s.code.size + bytes.length
  | [], _ => rfl
  | byte :: bytes, s => by
    have ih := writeAll_size line bytes (s.write byte line)
    rw [write_code, Array.size_push] at ih
    rw [List.length_cons, Nat.add_comm bytes.length, ← Nat.add_assoc, ← ih]
    rfl

theorem emit_size (s : Segment) (op : EncodedOp) (line : UInt32) :
    (s.emit op line).code.size = s.code.size + op.size := by
  rw [emit, writeAll_size, EncodedOp.length_bytes]

/-- Code may be written before or after the pool is known. -/
theorem write_setPool (s : Segment) (pool : Array Constant) (byte : UInt8) (line : UInt32) :
    ({ s with pool } : Segment).write byte line = { s.write byte line with pool } := by
  unfold write
  dsimp only
  split <;> rfl

theorem emit_setPool (s : Segment) (pool : Array Constant) (op : EncodedOp) (line : UInt32) :
    ({ s with pool } : Segment).emit op line = { s.emit op line with pool } := by
  unfold emit writeAll
  generalize EncodedOp.bytes op = bytes
  induction bytes generalizing s with
  | nil => rfl
  | cons byte bytes ih =>
    rw [List.foldl_cons, List.foldl_cons, write_setPool, ih]

/-! ## Patching

A patch replaces two bytes of the code. It never makes the code longer, so a patch at a wrong place
would be lost; the statements are for places that are inside. -/

@[simp] theorem patchWord_size (s : Segment) (offset : Nat) (n : UInt16) :
    (s.patchWord offset n).code.size = s.code.size := by
  simp [patchWord]

/-- An element that is there already may be replaced before or after another one is added. -/
theorem setIfInBounds_push {α : Type} (xs : Array α) {i : Nat} (a b : α) (h : i < xs.size) :
    (xs.push b).setIfInBounds i a = (xs.setIfInBounds i a).push b := by
  apply Array.ext
  · simp
  · intro j _ _
    grind

/-- A word that stands in the code already may be patched before or after the next byte is written:
the line table does not look at the code but for its size. -/
theorem patchWord_write {s : Segment} {offset : Nat} (h : offset + 2 ≤ s.code.size) (n : UInt16)
    (byte : UInt8) (line : UInt32) :
    (s.write byte line).patchWord offset n = (s.patchWord offset n).write byte line := by
  have hcode : ((s.code.push byte).setIfInBounds offset n.toUInt8).setIfInBounds (offset + 1)
      (n >>> 8).toUInt8 = (s.patchWord offset n).code.push byte := by
    rw [setIfInBounds_push _ _ _ (by omega), setIfInBounds_push _ _ _ (by simp; omega)]
    rfl
  have hsize := s.patchWord_size offset n
  unfold write
  dsimp only
  rw [hsize]
  split
  · rw [if_pos (by assumption), patchWord, hcode]
    rfl
  · rw [if_neg (by assumption), patchWord, hcode]
    rfl

/-- The same for any number of bytes, one after another. -/
theorem patchWord_writeAll {offset : Nat} (n : UInt16) (line : UInt32) :
    ∀ (bytes : List UInt8) {s : Segment}, offset + 2 ≤ s.code.size →
      (s.writeAll bytes line).patchWord offset n = (s.patchWord offset n).writeAll bytes line
  | [], _, _ => rfl
  | byte :: bytes, s, h => by
    have hwritten : offset + 2 ≤ (s.write byte line).code.size := by
      rw [write_code, Array.size_push]
      omega
    have ih := patchWord_writeAll n line bytes hwritten
    rw [patchWord_write h] at ih
    exact ih

/-- The bytes of a word in the two ways in which they are computed: by division when a word is
written, by a shift when it is patched. -/
theorem wordBytes_eq (n : UInt16) : EncodedOp.wordBytes n = [n.toUInt8, (n >>> 8).toUInt8] := by
  have hlow : UInt8.ofNat n.toNat = n.toUInt8 := rfl
  have hhigh : UInt8.ofNat (n.toNat / 256) = (n >>> 8).toUInt8 := by
    apply UInt8.toNat_inj.mp
    simp [Nat.shiftRight_eq_div_pow]
  rw [EncodedOp.wordBytes, littleEndian, littleEndian, littleEndian, hlow, hhigh]

/-- Patching the word at the end of the code is the same as writing the new word in its place: the
marks of the line table are made for the lines given and not for the bytes. -/
theorem patchWord_last (s : Segment) (old new : UInt16) (line : UInt32) :
    (s.writeAll (EncodedOp.wordBytes old) line).patchWord s.code.size new =
      s.writeAll (EncodedOp.wordBytes new) line := by
  have hcode : ∀ low high : UInt8,
      (((s.code.push low).push high).setIfInBounds s.code.size new.toUInt8).setIfInBounds
        (s.code.size + 1) (new >>> 8).toUInt8 =
      (s.code.push new.toUInt8).push (new >>> 8).toUInt8 := by
    intro low high
    apply Array.ext
    · simp
    · intro j _ _
      grind
  rw [wordBytes_eq, wordBytes_eq]
  simp only [writeAll, List.foldl_cons, List.foldl_nil]
  by_cases hline : s.lines.back?.map (·.line) = some line
  · simp [write, hline, patchWord, hcode]
  · simp [write, hline, patchWord, hcode]

end TypedStack.Segment
