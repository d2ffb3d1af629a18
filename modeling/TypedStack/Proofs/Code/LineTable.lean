import Mathlib.Data.List.Chain
import TypedStack.Code.Segment
/-!
# The line table of a segment

Bytes are written together with the source lines that they come from, and the table of a segment
only notes where the line changes. `Segment.Tells` says that the table gives back the lines of all
bytes and notes nothing twice. Writing one more byte keeps it (`Segment.Tells.write`), as long as
offsets fit the 32 bits of a mark, so it holds of every segment that is written byte by byte.

The table is looked up by its offsets, and the last mark that is not behind an offset decides. For
this to give the right line the marks have to increase, and this is why the invariant says more
about the table than the lookup needs.
-/

set_option autoImplicit false

namespace TypedStack.Segment

/-- The line table of a segment tells the lines that were given for its bytes, and has no more marks
than these call for: the first is at the start, each stands behind the one before it and for another
line. -/
structure Tells (s : Segment) (given : List UInt32) : Prop where
  size : s.code.size = given.length
  lineAt : ∀ (i : Nat) (line : UInt32), given[i]? = some line → s.lineAt i = line
  starts : ∀ mark, s.lines.toList.head? = some mark → mark.offset = 0
  increasing : s.lines.toList.Pairwise fun a b => a.offset < b.offset
  changes : s.lines.toList.IsChain fun a b => a.line ≠ b.line
  /-- Marks stand at bytes that are written. -/
  inside : ∀ mark ∈ s.lines, mark.offset.toNat < s.code.size
  /-- The last mark is still in force. -/
  current : s.lines.back?.map LineMark.line = given.getLast?

variable {s : Segment} {given : List UInt32}

/-! ## Looking a line up

The lookup goes through all marks, so a new mark at the end is considered last. -/

/-- The line in force at an offset, after the marks of a list. -/
def lineAfter (o : UInt32) (marks : List LineMark) : UInt32 :=
  marks.foldl (fun line mark => if mark.offset ≤ o then mark.line else line) 0

theorem lineAt_eq (s : Segment) (i : Nat) :
    s.lineAt i = lineAfter (UInt32.ofNat i) s.lines.toList :=
  (Array.foldl_toList _).symm

/-- The last mark has the last word, unless it stands behind the offset. -/
theorem lineAfter_concat (o : UInt32) (marks : List LineMark) (mark : LineMark) :
    lineAfter o (marks ++ [mark]) = if mark.offset ≤ o then mark.line else lineAfter o marks := by
  unfold lineAfter
  rw [List.foldl_concat]

/-- A mark that does not stand behind an offset and is the last one decides about it. -/
theorem lineAfter_last {o : UInt32} {marks : List LineMark} {mark : LineMark}
    (hlast : marks.getLast? = some mark) (hle : mark.offset ≤ o) :
    lineAfter o marks = mark.line := by
  obtain ⟨before, rfl⟩ := List.getLast?_eq_some_iff.mp hlast
  rw [lineAfter_concat, if_pos hle]

/-! ## Writing a byte

Two cases, as in the definition: the byte is of the line that is in force, or it is of another one
and gets a mark. -/

/-- No mark is made for a byte of the line that is in force. -/
theorem write_unmarked {byte : UInt8} {line : UInt32}
    (h : s.lines.back?.map LineMark.line = some line) :
    s.write byte line = { s with code := s.code.push byte } := by
  unfold write
  dsimp only
  rw [if_pos h]

/-- A byte of another line gets a mark at its own offset. -/
theorem write_marked {byte : UInt8} {line : UInt32}
    (h : s.lines.back?.map LineMark.line ≠ some line) :
    s.write byte line = { s with
      code := s.code.push byte, lines := s.lines.push ⟨UInt32.ofNat s.code.size, line⟩ } := by
  unfold write
  dsimp only
  rw [if_neg h]

theorem tells_empty (pool : Array Constant) : Tells { pool } [] where
  size := rfl
  lineAt i line h := by cases h
  starts mark h := by cases h
  increasing := .nil
  changes := .nil
  inside mark h := by simp at h
  current := rfl

theorem line_of_concat {line l : UInt32} {i : Nat} (h : (given ++ [line])[i]? = some l) :
    i < given.length ∧ given[i]? = some l ∨ i = given.length ∧ l = line := by
  rw [List.getElem?_append] at h
  by_cases hi : i < given.length
  · rw [if_pos hi] at h
    exact .inl ⟨hi, h⟩
  · rw [if_neg hi, List.getElem?_singleton] at h
    by_cases hlast : i - given.length = 0
    · rw [if_pos hlast] at h
      cases h
      exact .inr ⟨by omega, rfl⟩
    · rw [if_neg hlast] at h
      cases h

/-- A byte of the line that is in force needs no mark. -/
theorem Tells.write_same (h : s.Tells given) (hfits : s.code.size < UInt32.size) {line : UInt32}
    (hsame : s.lines.back?.map LineMark.line = some line) (byte : UInt8) :
    (s.write byte line).Tells (given ++ [line]) := by
  rw [write_unmarked hsame]
  refine ⟨?_, ?_, h.starts, h.increasing, h.changes, ?_, ?_⟩
  · rw [Array.size_push, h.size, List.length_append, List.length_singleton]
  · intro i l hl
    show s.lineAt i = l
    rcases line_of_concat hl with ⟨_, hold⟩ | ⟨rfl, rfl⟩
    · exact h.lineAt i l hold
    · -- the last mark reaches up to the new byte
      obtain ⟨mark, hmark, hline⟩ := Option.map_eq_some_iff.mp hsame
      have hinside := h.inside mark (Array.mem_of_back? hmark)
      have hreaches : mark.offset ≤ UInt32.ofNat given.length := by
        rw [UInt32.le_iff_toNat_le, ← h.size, UInt32.toNat_ofNat_of_lt' hfits]
        exact Nat.le_of_lt hinside
      have hlast : s.lines.toList.getLast? = some mark := by rw [Array.getLast?_toList, hmark]
      rw [lineAt_eq, lineAfter_last hlast hreaches, hline]
  · intro mark hmark
    rw [Array.size_push]
    exact Nat.lt_succ_of_lt (h.inside mark hmark)
  · rw [List.getLast?_concat]
    exact hsame

/-- The first mark is made for the first byte. -/
theorem Tells.starts_push (h : s.Tells given) {mark : LineMark}
    (hmark : mark.offset = UInt32.ofNat s.code.size) :
    ∀ first, (s.lines.push mark).toList.head? = some first → first.offset = 0 := by
  intro first hfirst
  rw [Array.toList_push, List.head?_append] at hfirst
  cases hhead : s.lines.toList.head? with
  | some m =>
    rw [hhead] at hfirst
    cases hfirst
    exact h.starts _ hhead
  | none =>
    rw [hhead] at hfirst
    cases hfirst
    -- without a mark no byte has been written
    have hnone : s.lines.back? = none := by
      rw [← Array.getLast?_toList, List.head?_eq_none_iff.mp hhead]
      rfl
    have hgiven : given = [] := by
      have hcurrent := h.current
      rw [hnone] at hcurrent
      exact List.getLast?_eq_none_iff.mp hcurrent.symm
    rw [hmark, h.size, hgiven]
    rfl

/-- A byte of another line gets a mark. -/
theorem Tells.write_other (h : s.Tells given) (hfits : s.code.size < UInt32.size) {line : UInt32}
    (hother : s.lines.back?.map LineMark.line ≠ some line) (byte : UInt8) :
    (s.write byte line).Tells (given ++ [line]) := by
  rw [write_marked hother]
  have hoffset : (UInt32.ofNat s.code.size).toNat = s.code.size := UInt32.toNat_ofNat_of_lt' hfits
  refine ⟨?_, ?_, h.starts_push rfl, ?_, ?_, ?_, ?_⟩
  · rw [Array.size_push, h.size, List.length_append, List.length_singleton]
  · intro i l hl
    rw [lineAt_eq]
    show lineAfter (UInt32.ofNat i) (s.lines.push ⟨UInt32.ofNat s.code.size, line⟩).toList = l
    rw [Array.toList_push, lineAfter_concat]
    rcases line_of_concat hl with ⟨hi, hold⟩ | ⟨rfl, rfl⟩
    · -- the new mark stands behind the older bytes
      have hbehind : ¬ UInt32.ofNat s.code.size ≤ UInt32.ofNat i := by
        rw [← h.size] at hi
        rw [UInt32.le_iff_toNat_le, hoffset, UInt32.toNat_ofNat_of_lt' (Nat.lt_trans hi hfits)]
        exact Nat.not_le.mpr hi
      rw [if_neg hbehind, ← lineAt_eq]
      exact h.lineAt i l hold
    · rw [← h.size, if_pos UInt32.le_rfl]
  · rw [Array.toList_push, List.pairwise_append]
    refine ⟨h.increasing, List.pairwise_singleton _ _, ?_⟩
    intro a ha b hb
    rw [List.mem_singleton] at hb
    subst hb
    rw [UInt32.lt_iff_toNat_lt, hoffset]
    exact h.inside a (Array.mem_toList_iff.mp ha)
  · rw [Array.toList_push]
    refine h.changes.append (List.isChain_singleton _) ?_
    intro a ha b hb
    cases hb
    rw [Array.getLast?_toList] at ha
    intro hline
    apply hother
    rw [ha]
    exact congrArg some hline
  · intro mark hmark
    rw [Array.size_push]
    rcases Array.mem_push.mp hmark with hmark | rfl
    · exact Nat.lt_succ_of_lt (h.inside mark hmark)
    · rw [hoffset]
      exact Nat.lt_succ_self _
  · rw [Array.back?_push, List.getLast?_concat]
    rfl

/-- Writing a byte adds its line to those that the table tells. -/
theorem Tells.write (h : s.Tells given) (hfits : s.code.size < UInt32.size) (byte : UInt8)
    (line : UInt32) : (s.write byte line).Tells (given ++ [line]) := by
  by_cases hsame : s.lines.back?.map LineMark.line = some line
  · exact h.write_same hfits hsame byte
  · exact h.write_other hfits hsame byte

/-! ## Writing many bytes

By induction on the bytes, with one byte at a time from the section before. -/

/-- Writes bytes, each with its line. -/
def writeEach (s : Segment) (writes : List (UInt8 × UInt32)) : Segment :=
  writes.foldl (fun s w => s.write w.1 w.2) s

/-- Every byte may have a line of its own. That the offsets fit is asked of all bytes together. -/
theorem Tells.writeEach (writes : List (UInt8 × UInt32)) : ∀ {s : Segment} {given : List UInt32},
    s.Tells given → given.length + writes.length ≤ UInt32.size →
    (s.writeEach writes).Tells (given ++ writes.map Prod.snd) := by
  induction writes with
  | nil =>
    intro s given h _
    rw [List.map_nil, List.append_nil]
    exact h
  | cons w writes ih =>
    intro s given h hfits
    rw [List.length_cons] at hfits
    have hwrite := h.write (by rw [h.size]; omega) w.1 w.2
    have hrest := ih hwrite (by rw [List.length_append, List.length_singleton]; omega)
    rw [List.append_assoc] at hrest
    exact hrest

theorem writeAll_eq (s : Segment) (bytes : List UInt8) (line : UInt32) :
    s.writeAll bytes line = s.writeEach (bytes.map (·, line)) := by
  unfold writeAll writeEach
  rw [List.foldl_map]

theorem Tells.writeAll (h : s.Tells given) (bytes : List UInt8) (line : UInt32)
    (hfits : given.length + bytes.length ≤ UInt32.size) :
    (s.writeAll bytes line).Tells (given ++ List.replicate bytes.length line) := by
  have hlines : (bytes.map (·, line)).map Prod.snd = List.replicate bytes.length line := by
    rw [List.map_map, List.map_eq_replicate_iff]
    intro byte _
    rfl
  rw [writeAll_eq, ← hlines]
  apply h.writeEach
  rw [List.length_map]
  exact hfits

/-! ## Patching

Overwriting a word changes the code and not the line table, and no byte moves. -/

/-- Overwrites words of the code. -/
def patchEach (s : Segment) (patches : List (Nat × UInt16)) : Segment :=
  patches.foldl (fun s p => s.patchWord p.1 p.2) s

theorem lineAt_patchEach (patches : List (Nat × UInt16)) : ∀ (s : Segment) (i : Nat),
    (s.patchEach patches).lineAt i = s.lineAt i := by
  induction patches with
  | nil =>
    intro s i
    rfl
  | cons p patches ih =>
    intro s i
    exact ih (s.patchWord p.1 p.2) i

end TypedStack.Segment
