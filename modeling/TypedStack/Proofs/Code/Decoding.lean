import TypedStack.Code.Segment
/-!
# Decoding what was encoded

Every encoded instruction decodes to itself, whatever stands before and after it (`decodeAt_bytes`).
The three readers below it (`typeAt`, `relationAt`, `wordAt`) are each given one lemma on a byte
list that is split at the instruction, so that no later proof looks at single bytes.

That the list is split is what makes this of use: the position of the instruction is the length of
what stands before it, and the same statement serves for every instruction of a block.
-/

set_option autoImplicit false

namespace TypedStack

namespace Segment

/-- Behind the split the bytes are counted from it. A byte beyond the end counts as zero, on both
sides. -/
theorem byteAt_append (before rest : List UInt8) (k : Nat) :
    byteAt (before ++ rest).toArray (before.length + k) = rest.getD k 0 := by
  simp [byteAt, List.getElem?_append_right]

theorem typeAt_append {before rest : List UInt8} {k : Nat} {t : ValueType}
    (h : rest.getD k 0 = t.tag) :
    typeAt (before ++ rest).toArray (before.length + k) = .ok t := by
  simp only [typeAt, byteAt_append, h, ValueType.ofTag?_tag]

theorem relationAt_append {before rest : List UInt8} {k : Nat} {r : Relation}
    (h : rest.getD k 0 = r.tag) :
    relationAt (before ++ rest).toArray (before.length + k) = .ok r := by
  simp only [relationAt, byteAt_append, h, Relation.ofTag?_tag]

theorem ofNat_wordBytes (n : UInt16) :
    UInt16.ofNat ((UInt8.ofNat n.toNat).toNat + 256 * (UInt8.ofNat (n.toNat / 256)).toNat) = n := by
  apply UInt16.toNat_inj.mp
  have h := n.toNat_lt
  simp
  omega

/-- A word is found where its low and its high byte stand in a row. -/
theorem wordAt_append {before rest : List UInt8} {k : Nat} {n : UInt16}
    (hlow : rest.getD k 0 = UInt8.ofNat n.toNat)
    (hhigh : rest.getD (k + 1) 0 = UInt8.ofNat (n.toNat / 256)) :
    wordAt (before ++ rest).toArray (before.length + k) = n := by
  rw [wordAt, byteAt_append, Nat.add_assoc, byteAt_append, hlow, hhigh, ofNat_wordBytes]

/-- The operands of an encoded instruction are found behind its opcode. -/
theorem operandsAt_bytes (before after : List UInt8) (op : EncodedOp) :
    operandsAt (before ++ (EncodedOp.bytes op ++ after)).toArray (before.length + 1) op.opcode
      = .ok op := by
  cases op with
  | const n | printError n | call n | jump n | jumpIfTrue n =>
    simp only [operandsAt, Op.opcode]
    rw [wordAt_append (n := n) rfl rfl]
  | pop t | compare t | ret t | read t | print t =>
    simp only [operandsAt, Op.opcode]
    rw [typeAt_append (t := t) rfl]
    rfl
  | arith o t =>
    cases o <;> exact congrArg (Except.map _) (typeAt_append (t := t) rfl)
  | load t n | store t n =>
    simp only [operandsAt, Op.opcode, Nat.add_assoc]
    rw [typeAt_append (t := t) rfl, wordAt_append (n := n) rfl rfl]
    rfl
  | cast source target =>
    simp only [operandsAt, Op.opcode, Nat.add_assoc]
    rw [typeAt_append (t := source) rfl, typeAt_append (t := target) rfl]
    rfl
  | jumpIf r n =>
    simp only [operandsAt, Op.opcode, Nat.add_assoc]
    rw [relationAt_append (r := r) rfl, wordAt_append (n := n) rfl rfl]
    rfl
  | shift kind => cases kind <;> rfl
  | retVoid | openInput | exit => rfl

/-- **Encoded instructions are decoded.** The instruction at the split is decoded as itself, and the
next one is found behind its last byte. -/
theorem decodeAt_bytes (before after : List UInt8) (op : EncodedOp) :
    decodeAt (before ++ (EncodedOp.bytes op ++ after)).toArray before.length
      = .ok (op, before.length + op.size) := by
  have hsize : ¬ (before ++ (EncodedOp.bytes op ++ after)).toArray.size
      < before.length + op.opcode.size := by
    have hlen : (EncodedOp.bytes op).length = op.opcode.size := EncodedOp.length_bytes op
    simp only [List.size_toArray, List.length_append]
    omega
  have hbyte : (before ++ (EncodedOp.bytes op ++ after)).toArray[before.length]?
      = some op.opcode.byte := by
    simp [EncodedOp.bytes]
  unfold decodeAt
  rw [hbyte]
  simp only [Opcode.ofByte?_byte, if_neg hsize, operandsAt_bytes]
  rfl

end Segment

end TypedStack
