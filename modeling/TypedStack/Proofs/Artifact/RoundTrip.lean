import TypedStack.Artifact.Reader
import TypedStack.Proofs.Inversion
/-!
# Reading back what was written

Counts are cut to the width of their fields when they are written. An artifact is read back from its
own bytes if and only if all of its counts fit (`ofBytes_toBytes`): a field that fits is read as it
was written, and nothing that is ever read has a count that does not fit.

The two halves have a small calculus each. `Reads` says that a step reads given bytes as a given
value, wherever they stand, and is closed under the composition of steps; `Gives` says what can be
said of whatever a step reads. The proofs about fields then follow the reader line by line.
-/

set_option autoImplicit false

namespace TypedStack

/-! ## Sizes

What has to fit: the lengths of texts in two bytes, the number of parameters in one, the numbers of
slots, constants and blocks in two, and the lengths of code and line table in four. -/

/-- The length of a message fits its field. -/
def Constant.Fits : Constant → Prop
  | .value _ => True
  | .message text => text.utf8ByteSize ≤ 65535

instance : (c : Constant) → Decidable c.Fits
  | .value _ => inferInstanceAs (Decidable True)
  | .message text => inferInstanceAs (Decidable (text.utf8ByteSize ≤ 65535))

/-- The sizes of a segment fit their fields. -/
def Segment.Fits (s : Segment) : Prop :=
  s.pool.size ≤ 65535 ∧ (∀ c ∈ s.pool, c.Fits) ∧ s.code.size ≤ 4294967295 ∧
    s.lines.size ≤ 4294967295

instance (s : Segment) : Decidable s.Fits :=
  inferInstanceAs (Decidable (_ ∧ (∀ c ∈ s.pool, c.Fits) ∧ _ ∧ _))

/-- The sizes of a block fit their fields. -/
def Block.Fits (b : Block) : Prop :=
  b.name.utf8ByteSize ≤ 65535 ∧ b.signature.params.length ≤ 255 ∧ b.slots.size ≤ 65535 ∧
    b.segment.Fits

instance (b : Block) : Decidable b.Fits := inferInstanceAs (Decidable (_ ∧ _ ∧ _ ∧ _))

/-- Every count of the artifact fits the field that it is written to. -/
def Artifact.Fits (a : Artifact) : Prop :=
  a.name.utf8ByteSize ≤ 65535 ∧ a.blocks.size ≤ 65535 ∧ ∀ b ∈ a.blocks, b.Fits

instance (a : Artifact) : Decidable a.Fits :=
  inferInstanceAs (Decidable (_ ∧ _ ∧ ∀ b ∈ a.blocks, b.Fits))

/-! ## Texts

A text is written as its bytes behind their number, and read only if the bytes encode one. -/

theorem textOfBytes?_textBytes (s : String) : textOfBytes? (textBytes s) = some s := by
  unfold textOfBytes? String.fromUTF8?
  exact dif_pos s.isValidUTF8

/-- A text that was decoded has as many bytes as it was decoded from. -/
theorem utf8ByteSize_of_textOfBytes? {bytes : List UInt8} {s : String}
    (h : textOfBytes? bytes = some s) : s.utf8ByteSize = bytes.length := by
  unfold textOfBytes? String.fromUTF8? at h
  split at h
  · cases h
    rfl
  · cases h

/-- A field of so many bytes holds no greater number. -/
theorem ofLittleEndian_lt (bytes : List UInt8) :
    ofLittleEndian bytes < Nat.pow 256 bytes.length := by
  induction bytes with
  | nil => exact Nat.one_pos
  | cons byte rest ih =>
    have hbyte := byte.toNat_lt
    have hstep : Nat.pow 256 (rest.length + 1) = 256 * Nat.pow 256 rest.length := Nat.mul_comm _ _
    rw [ofLittleEndian, List.length_cons, hstep]
    omega

namespace Artifact

variable {α β : Type}

/-! ## Fields that are read as they were written

One lemma for each function of the writer, about the function of the reader with the same name. -/

/-- The step reads exactly these bytes, whatever stands behind them, as the value. -/
def Reads (item : Reading α) (bytes : List UInt8) (x : α) : Prop :=
  ∀ rest position, item ⟨bytes ++ rest, position⟩ = .ok (x, ⟨rest, position + bytes.length⟩)

namespace Reads

theorem pure (x : α) : Reads (Pure.pure x) [] x := fun _ _ => rfl

/-- Two steps in a row read their bytes in a row. -/
theorem bind {item : Reading α} {f : α → Reading β} {bytes more : List UInt8} {x : α} {y : β}
    (h : Reads item bytes x) (hf : Reads (f x) more y) : Reads (item >>= f) (bytes ++ more) y := by
  intro rest position
  refine state_bind_ok.mpr ⟨x, ⟨more ++ rest, position + bytes.length⟩, ?_, ?_⟩
  · rw [List.append_assoc]
    exact h _ position
  · rw [hf, List.length_append, Nat.add_assoc]

theorem bindNil {item : Reading α} {f : α → Reading β} {bytes : List UInt8} {x : α} {y : β}
    (h : Reads item bytes x) (hf : Reads (f x) [] y) : Reads (item >>= f) bytes y := by
  have hbind := h.bind hf
  rwa [List.append_nil] at hbind

/-- What is done with a value after it was read does not matter for the bytes. -/
theorem map {item : Reading α} {bytes : List UInt8} {x : α} (h : Reads item bytes x) (f : α → β) :
    Reads (f <$> item) bytes (f x) :=
  fun rest position => state_map_ok.mpr ⟨x, h rest position, rfl⟩

end Reads

theorem reads_take (bytes : List UInt8) : Reads (take bytes.length) bytes bytes := by
  intro rest position
  simp [take]

/-- A number that fits is read back. Only here the condition on sizes is used. -/
theorem reads_number {width n : Nat} (h : n < Nat.pow 256 width) :
    Reads (number width) (littleEndian width n) n := by
  have htake := (reads_take (littleEndian width n)).map ofLittleEndian
  rw [length_littleEndian, ofLittleEndian_littleEndian, Nat.mod_eq_of_lt h] at htake
  exact htake

theorem reads_byte (b : UInt8) : Reads byte [b] b := by
  have hlt : b.toNat < Nat.pow 256 1 := b.toNat_lt
  have h := (reads_number hlt).map UInt8.ofNat
  simp only [littleEndian, UInt8.ofNat_toNat] at h
  exact h

theorem reads_text {s : String} (h : s.utf8ByteSize ≤ 65535) : Reads text (textField s) s := by
  refine (reads_number (Nat.lt_succ_of_le h)).bind ?_
  refine (reads_take (textBytes s)).bindNil ?_
  simp only [textOfBytes?_textBytes]
  exact .pure s

theorem reads_type (t : ValueType) : Reads type [t.tag] t := by
  refine (reads_byte t.tag).bindNil ?_
  simp only [ValueType.ofTag?_tag]
  exact .pure t

theorem reads_resultType (r : ResultType) : Reads resultType [resultField r] r := by
  refine (reads_byte (resultField r)).bindNil ?_
  cases r with
  | none => exact .pure none
  | some t =>
    -- zero stands for no result, so no type may have it as its tag
    have htag : t.tag ≠ 0 := by cases t <;> decide
    simp only [resultField, if_neg htag, ValueType.ofTag?_tag]
    exact .pure (some t)

/-- A constant is read back bit for bit. Binary numbers are written as their bits and so are read
back whatever they are, a NaN with its payload included. -/
theorem reads_constant {c : Constant} (h : c.Fits) : Reads constant (constantField c) c := by
  cases c with
  | message s => exact (reads_byte 6).bind ((reads_text h).bindNil (.pure _))
  | value v =>
    cases v with
    | int n =>
      have hlt : n.toUInt64.toNat < Nat.pow 256 8 := n.toUInt64.toNat_lt
      have hback : (UInt64.ofNat n.toUInt64.toNat).toInt64 = n := by simp
      refine (reads_byte 1).bind ((reads_number hlt).bindNil ?_)
      rw [hback]
      exact .pure _
    | char c =>
      have hlt : c.toNat < Nat.pow 256 2 := c.toNat_lt
      refine (reads_byte 2).bind ((reads_number hlt).bindNil ?_)
      rw [UInt16.ofNat_toNat]
      exact .pure _
    | float x =>
      have hlt : x.toNat < Nat.pow 256 4 := x.toNat_lt
      refine (reads_byte 3).bind ((reads_number hlt).bindNil ?_)
      rw [UInt32.ofNat_toNat]
      exact .pure _
    | bool b =>
      refine (reads_byte 4).bind ((reads_byte _).bindNil ?_)
      cases b <;> exact .pure _
    | double x =>
      have hlt : x.toNat < Nat.pow 256 8 := x.toNat_lt
      refine (reads_byte 5).bind ((reads_number hlt).bindNil ?_)
      rw [UInt64.ofNat_toNat]
      exact .pure _

/-- An entry of the line table is read back. It has no count, so that nothing has to fit. -/
theorem reads_lineMark (mark : LineMark) : Reads lineMark (lineField mark) mark := by
  obtain ⟨offset, line⟩ := mark
  have hoffset : offset.toNat < Nat.pow 256 4 := offset.toNat_lt
  have hline : line.toNat < Nat.pow 256 4 := line.toNat_lt
  refine (reads_number hoffset).bind ((reads_number hline).bindNil ?_)
  rw [UInt32.ofNat_toNat, UInt32.ofNat_toNat]
  exact .pure _

/-- Items are read one by one, behind those that have been read already. -/
theorem reads_items {item : Reading α} {field : α → List UInt8} {xs : List α}
    (h : ∀ x ∈ xs, Reads item (field x) x) (done : Array α) :
    Reads (items item xs.length done) (xs.flatMap field) (done ++ xs.toArray) := by
  -- the items read so far are carried along, so the induction is for any of them
  induction xs generalizing done with
  | nil =>
    intro rest position
    simp [items]
  | cons x xs ih =>
    intro rest position
    have hfirst := h x List.mem_cons_self (xs.flatMap field ++ rest) position
    have hrest := ih (fun y hy => h y (List.mem_cons_of_mem _ hy)) (done.push x) rest
      (position + (field x).length)
    simp only [List.flatMap_cons, List.append_assoc, List.length_cons, items, hfirst, hrest,
      List.length_append, Nat.add_assoc]
    simp

theorem reads_counted {width : Nat} {item : Reading α} {field : α → List UInt8} {xs : List α}
    (hsize : xs.length < Nat.pow 256 width) (h : ∀ x ∈ xs, Reads item (field x) x) :
    Reads (counted width item) (littleEndian width xs.length ++ xs.flatMap field) xs.toArray := by
  refine (reads_number hsize).bind ?_
  have hitems := reads_items h #[]
  rwa [Array.empty_append] at hitems

theorem reads_types {width : Nat} {types : List ValueType}
    (hsize : types.length < Nat.pow 256 width) :
    Reads (counted width type) (littleEndian width types.length ++ types.map ValueType.tag)
      types.toArray := by
  rw [List.map_eq_flatMap]
  exact reads_counted hsize fun t _ => reads_type t

theorem reads_segment {s : Segment} (h : s.Fits) : Reads segment (segmentField s) s := by
  obtain ⟨hpool, hconstants, hcode, hlines⟩ := h
  -- grouped as they are read: a count goes with what it counts
  have hbytes : segmentField s =
      (littleEndian 2 s.pool.toList.length ++ s.pool.toList.flatMap constantField) ++
        (littleEndian 4 s.code.toList.length ++ (s.code.toList ++
          (littleEndian 4 s.lines.toList.length ++ s.lines.toList.flatMap lineField))) := by
    simp [segmentField]
  rw [hbytes]
  refine (reads_counted (Nat.lt_succ_of_le hpool) fun c hc =>
    reads_constant (hconstants c (Array.mem_toList_iff.mp hc))).bind ?_
  refine (reads_number (Nat.lt_succ_of_le hcode)).bind ?_
  refine (reads_take s.code.toList).bind ?_
  refine (reads_counted (Nat.lt_succ_of_le hlines) fun mark _ => reads_lineMark mark).bindNil ?_
  exact .pure s

/-- A name, the types of the parameters, the result, the types of the slots, the segment. -/
theorem reads_block {b : Block} (h : b.Fits) : Reads block (blockField b) b := by
  obtain ⟨hname, hparams, hslots, hsegment⟩ := h
  have hbytes : blockField b =
      textField b.name ++
        ((littleEndian 1 b.signature.params.length ++ b.signature.params.map ValueType.tag) ++
          ([resultField b.signature.result] ++
            ((littleEndian 2 b.slots.toList.length ++ b.slots.toList.map ValueType.tag) ++
              segmentField b.segment))) := by
    simp [blockField]
  rw [hbytes]
  refine (reads_text hname).bind ?_
  refine (reads_types (Nat.lt_succ_of_le hparams)).bind ?_
  refine (reads_resultType b.signature.result).bind ?_
  refine (reads_types (Nat.lt_succ_of_le hslots)).bind ?_
  exact (reads_segment hsegment).bindNil (.pure b)

theorem reads_expectMagic : Reads expectMagic magic () := by
  intro rest position
  have htake : take 4 ⟨magic ++ rest, position⟩ = .ok (magic, ⟨rest, position + 4⟩) :=
    reads_take magic rest position
  simp only [expectMagic, htake, if_true]
  rfl

theorem reads_expectVersion : Reads expectVersion (littleEndian 2 version.toNat) () :=
  (reads_number (by decide)).bindNil (.pure ())

theorem ofBytes_of_fits {a : Artifact} (h : a.Fits) : ofBytes a.toBytes = .ok a := by
  obtain ⟨hname, hsize, hfits⟩ := h
  have hblocks : Reads (counted 2 block)
      (littleEndian 2 a.blocks.toList.length ++ a.blocks.toList.flatMap blockField) a.blocks :=
    reads_counted (Nat.lt_succ_of_le hsize) fun b hb =>
      reads_block (hfits b (Array.mem_toList_iff.mp hb))
  have hbytes : a.toBytes = magic ++ (littleEndian 2 version.toNat ++ (textField a.name ++
      ((littleEndian 2 a.blocks.toList.length ++ a.blocks.toList.flatMap blockField) ++ []))) := by
    simp [toBytes]
  unfold ofBytes
  rw [except_map_ok, hbytes]
  have hread : ∃ c, whole ⟨_, 0⟩ = .ok (a, c) :=
    ⟨_, state_bind_ok.mpr ⟨(), _, reads_expectMagic _ _,
      state_bind_ok.mpr ⟨(), _, reads_expectVersion _ _,
      state_bind_ok.mpr ⟨a.name, _, reads_text hname _ _,
      -- nothing stands behind the last block
      state_bind_ok.mpr ⟨a.blocks, _, hblocks [] _, state_bind_ok.mpr ⟨(), _, rfl, rfl⟩⟩⟩⟩⟩⟩
  obtain ⟨c, hc⟩ := hread
  exact ⟨(a, c), hc, rfl⟩

/-! ## What can be read at all

The other half. It does not ask who wrote the bytes: a count is read from a field, and therefore
fits it. -/

/-- Whatever the step reads has the property. -/
def Gives (item : Reading α) (good : α → Prop) : Prop :=
  ∀ c x c', item c = .ok (x, c') → good x

namespace Gives

theorem pure {good : α → Prop} {x : α} (h : good x) : Gives (Pure.pure x) good := by
  intro c y c' hy
  obtain ⟨rfl, -⟩ := state_pure_ok.mp hy
  exact h

theorem throw {good : α → Prop} {e : LoadError} : Gives (MonadExcept.throw e) good :=
  fun _ _ _ hx => (state_throw_ok.mp hx).elim

/-- What the first step gives may be used to say what the second gives. -/
theorem bind {item : Reading α} {f : α → Reading β} {mid : α → Prop} {good : β → Prop}
    (h : Gives item mid) (hf : ∀ x, mid x → Gives (f x) good) : Gives (item >>= f) good := by
  intro c y c' hy
  obtain ⟨x, c₁, hx, hrest⟩ := state_bind_ok.mp hy
  exact hf x (h c x c₁ hx) c₁ y c' hrest

/-- Like `bind`, where nothing matters about what the first step reads. -/
theorem bindAny {item : Reading α} {f : α → Reading β} {good : β → Prop}
    (hf : ∀ x, Gives (f x) good) : Gives (item >>= f) good := by
  have hany : Gives item fun _ => True := fun _ _ _ _ => trivial
  exact hany.bind fun x _ => hf x

end Gives

theorem gives_take (n : Nat) : Gives (take n) fun bytes => bytes.length = n := by
  intro c bytes c' h
  simp only [take] at h
  split at h
  · cases h
  · next hlen =>
    cases h
    simp only [List.splitAt_eq, List.length_take] at hlen ⊢
    omega

/-- A number of so many bytes is below the bound of its field. -/
theorem gives_number (width : Nat) : Gives (number width) (· < Nat.pow 256 width) := by
  intro c n c' h
  obtain ⟨bytes, hbytes, rfl⟩ := state_map_ok.mp h
  have hlen := gives_take width c bytes c' hbytes
  rw [← hlen]
  exact ofLittleEndian_lt bytes

theorem gives_text : Gives text fun s => s.utf8ByteSize ≤ 65535 := by
  refine (gives_number 2).bind fun n hn => ?_
  refine (gives_take n).bind fun bytes hlen => ?_
  split
  · next s hs =>
    refine .pure ?_
    rw [utf8ByteSize_of_textOfBytes? hs, hlen]
    exact Nat.le_of_lt_succ hn
  · exact .throw

/-- Of all constants only a message has a length. -/
theorem gives_constant : Gives constant Constant.Fits := by
  refine .bindAny fun tag => ?_
  split
  · exact .bindAny fun n => .pure trivial
  split
  · exact .bindAny fun n => .pure trivial
  split
  · exact .bindAny fun n => .pure trivial
  split
  · exact .bindAny fun n => .pure trivial
  split
  · exact .bindAny fun n => .pure trivial
  split
  · exact gives_text.bind fun s hs => .pure hs
  · exact .throw

/-- The items that are read are as many as were asked for, and each has the property. -/
theorem gives_items {item : Reading α} {good : α → Prop} (h : Gives item good) (n : Nat)
    (done : Array α) :
    Gives (items item n done) fun xs =>
      xs.size = done.size + n ∧ ∀ x ∈ xs, x ∈ done ∨ good x := by
  induction n generalizing done with
  | zero =>
    intro c xs c' hxs
    cases hxs
    exact ⟨rfl, fun x hx => .inl hx⟩
  | succ n ih =>
    intro c xs c' hxs
    simp only [items] at hxs
    split at hxs
    · cases hxs
    · next x c₁ hx =>
      obtain ⟨hsize, hall⟩ := ih (done.push x) c₁ xs c' hxs
      rw [Array.size_push] at hsize
      refine ⟨by omega, fun y hy => ?_⟩
      rcases hall y hy with hy | hy
      · rcases Array.mem_push.mp hy with hy | rfl
        · exact .inl hy
        · exact .inr (h c y c₁ hx)
      · exact .inr hy

/-- What is counted is as much as the count says, and the count fits its field. -/
theorem gives_counted {width : Nat} {item : Reading α} {good : α → Prop} (h : Gives item good) :
    Gives (counted width item) fun xs => xs.size < Nat.pow 256 width ∧ ∀ x ∈ xs, good x := by
  refine (gives_number width).bind fun n hn => ?_
  intro c xs c' hxs
  obtain ⟨hsize, hall⟩ := gives_items h n #[] c xs c' hxs
  refine ⟨by simpa [hsize] using hn, fun x hx => ?_⟩
  exact (hall x hx).resolve_left (by simp)

theorem gives_segment : Gives segment Segment.Fits := by
  refine (gives_counted gives_constant).bind fun pool hpool => ?_
  refine (gives_number 4).bind fun n hn => ?_
  refine (gives_take n).bind fun code hcode => ?_
  have hmark : Gives lineMark fun _ => True := fun _ _ _ _ => trivial
  refine (gives_counted hmark).bind fun lines hlines => .pure ?_
  refine ⟨Nat.le_of_lt_succ hpool.1, hpool.2, ?_, Nat.le_of_lt_succ hlines.1⟩
  rw [List.size_toArray, hcode]
  exact Nat.le_of_lt_succ hn

theorem gives_block : Gives block Block.Fits := by
  have htype : Gives type fun _ => True := fun _ _ _ _ => trivial
  refine gives_text.bind fun name hname => ?_
  refine (gives_counted htype).bind fun params hparams => ?_
  refine .bindAny fun result => ?_
  refine (gives_counted htype).bind fun slots hslots => ?_
  refine gives_segment.bind fun segment hsegment => .pure ?_
  refine ⟨hname, ?_, Nat.le_of_lt_succ hslots.1, hsegment⟩
  rw [Array.length_toList]
  exact Nat.le_of_lt_succ hparams.1

/-- Whatever artifact is read, from whatever bytes, has counts that fit. -/
theorem fits_of_ofBytes {bytes : List UInt8} {a : Artifact} (h : ofBytes bytes = .ok a) :
    a.Fits := by
  have hwhole : Gives whole Artifact.Fits := by
    refine .bindAny fun _ => .bindAny fun _ => ?_
    refine gives_text.bind fun name hname => ?_
    refine (gives_counted gives_block).bind fun blocks hblocks => ?_
    exact .bindAny fun _ => .pure ⟨hname, Nat.le_of_lt_succ hblocks.1, hblocks.2⟩
  obtain ⟨⟨a', c⟩, hread, rfl⟩ := except_map_ok.mp h
  exact hwhole _ a' c hread

/-- An artifact is read back from its own bytes if and only if its counts fit their fields. -/
theorem ofBytes_toBytes {a : Artifact} : ofBytes a.toBytes = .ok a ↔ a.Fits :=
  ⟨fits_of_ofBytes, ofBytes_of_fits⟩

/-- Constants fit if the messages among them do. -/
theorem fits_iff_messages {pool : Array Constant} :
    (∀ c ∈ pool, c.Fits) ↔ ∀ text, .message text ∈ pool → text.utf8ByteSize ≤ 65535 := by
  constructor
  · intro h text htext
    exact h _ htext
  · intro h c hc
    cases c with
    | value v => trivial
    | message text => exact h text hc

/-- **Artifacts are read back.** Writing an artifact and reading the bytes gives the same artifact,
constants bit for bit, exactly when each size is within what its field holds. Where one is not, the
field wraps around, and the reader takes the bytes that follow for something else; that what it
makes of them is never the same artifact by accident is the other half of the theorem. -/
theorem read_back_iff_sizes_fit (a : Artifact) :
    ofBytes a.toBytes = .ok a ↔
      a.name.utf8ByteSize ≤ 65535 ∧ a.blocks.size ≤ 65535 ∧
      ∀ b ∈ a.blocks,
        b.name.utf8ByteSize ≤ 65535 ∧ b.signature.params.length ≤ 255 ∧ b.slots.size ≤ 65535 ∧
        b.segment.pool.size ≤ 65535 ∧
        (∀ text, .message text ∈ b.segment.pool → text.utf8ByteSize ≤ 65535) ∧
        b.segment.code.size < 4294967296 ∧ b.segment.lines.size < 4294967296 := by
  rw [ofBytes_toBytes]
  simp only [Artifact.Fits, Block.Fits, Segment.Fits, fits_iff_messages, ← Nat.lt_succ_iff]

end Artifact

end TypedStack
