import Mathlib.Data.List.DropRight
import TypedStack.Proofs.Inversion
import TypedStack.Source.Position
/-!
# Lines and columns lead back to characters

A place in a text is counted in two ways, by line and column or by the index of its character, and
`Source.offset?` goes from the first to the second. What a line is, is said without counting
anything but the line feeds above it (`Source.HasLine`): a text is cut into what stands above the
line, the line itself and the rest. `Source.offset?` is then the length of the first part and as
much of the second as the column asks for (`Source.HasLine.offset?_eq`), and the way back is read
off at the line on which an index stands (`Source.hasLine_of_index`).
-/

set_option autoImplicit false

namespace TypedStack.Source

/-- The line of the character at an index. -/
def lineNumber (text : List Char) (i : Nat) : Nat := 1 + (text.take i).count '\n'

/-- The column of the character at an index: how many characters stand between the last line feed
before it, or the start of the text, and the character. -/
def columnNumber (text : List Char) (i : Nat) : Nat :=
  1 + ((text.take i).rtakeWhile (· ≠ '\n')).length

/-- Nothing but whole lines. -/
def Closed (above : List Char) : Prop := above = [] ∨ above.getLast? = some '\n'

/-- A text is cut at one of its lines: what stands above it, the line without its line feed, and the
rest. -/
structure HasLine (text : List Char) (line : Nat) (above body rest : List Char) : Prop where
  whole : text = above ++ (body ++ rest)
  number : line = 1 + above.count '\n'
  begins : Closed above
  solid : '\n' ∉ body
  ends : ∀ c, rest.head? = some c → c = '\n'

/-! ## Seeking a line

The function that seeks a line counts line feeds from the start of the text. On whole lines it does
nothing else. -/

theorem Closed.tail {c : Char} {above : List Char} (h : Closed (c :: above)) : Closed above := by
  cases above with
  | nil => exact .inl rfl
  | cons d above =>
    rcases h with h | h
    · cases h
    · rw [List.getLast?_cons_cons] at h
      exact .inr h

/-- Whole lines that are not empty have a line feed, at their end. -/
theorem Closed.newline_mem {c : Char} {above : List Char} (h : Closed (c :: above)) :
    '\n' ∈ c :: above := by
  rcases h with h | h
  · cases h
  · exact List.mem_of_getLast? h

/-- Whole lines are skipped, as many as there are line feeds in them. -/
theorem seekLine_closed (rest : List Char) {above : List Char} (h : Closed above) :
    ∀ start, seekLine (above ++ rest) (above.count '\n') start =
      some (start + above.length, rest) := by
  induction above with
  | nil =>
    intro start
    rw [List.nil_append, List.count_nil, seekLine, List.length_nil, Nat.add_zero]
  | cons c above ih =>
    intro start
    have hpos : 0 < (c :: above).count '\n' := List.count_pos_iff.mpr h.newline_mem
    obtain ⟨n, hn⟩ := Nat.exists_eq_succ_of_ne_zero (Nat.ne_of_gt hpos)
    have hskip : (if c = '\n' then n else n + 1) = above.count '\n' := by
      rw [List.count_cons] at hn
      by_cases hc : c = '\n'
      · rw [if_pos hc]
        simpa [hc] using hn.symm
      · rw [if_neg hc]
        simpa [hc] using hn.symm
    rw [hn, List.cons_append, seekLine, hskip, ih h.tail]
    rw [List.length_cons, Nat.add_right_comm, Nat.add_assoc]

/-- There are no more lines than line feeds and one. -/
theorem seekLine_past (text : List Char) : ∀ {n : Nat} (start : Nat), text.count '\n' < n →
    seekLine text n start = none := by
  induction text with
  | nil =>
    intro n start h
    cases n with
    | zero => exact absurd h (Nat.not_lt_zero _)
    | succ n => rfl
  | cons c text ih =>
    intro n start h
    cases n with
    | zero => exact absurd h (Nat.not_lt_zero _)
    | succ n =>
      rw [seekLine]
      apply ih
      rw [List.count_cons] at h
      by_cases hc : c = '\n'
      · rw [if_pos hc]
        simpa [hc] using h
      · rw [if_neg hc]
        simpa [hc] using h

/-! ## The line of a place

The line of a place is found by cutting the text at the place, and then cutting what is before it at
its last line feed and what is behind it at its first. -/

/-- The index of a line and column: behind what stands above the line, and as far into the line as
it goes. -/
theorem HasLine.offset?_eq {text above body rest : List Char} {line : Nat}
    (h : HasLine text line above body rest) (column : Nat) :
    offset? text line column = some (above.length + min (column - 1) body.length) := by
  have hline : line ≠ 0 := by
    rw [h.number]
    omega
  have hseek : seekLine text (line - 1) 0 = some (above.length, body ++ rest) := by
    have hnumber : line - 1 = above.count '\n' := by
      rw [h.number]
      omega
    rw [h.whole, hnumber, seekLine_closed _ h.begins, Nat.zero_add]
  have hbody : ((body ++ rest).takeWhile (· ≠ '\n')) = body := by
    have hspan : (body ++ rest).span (· ≠ '\n') = (body, rest) := by
      apply span_append
      · intro c hc
        rw [decide_eq_true_eq]
        rintro rfl
        exact h.solid hc
      · intro c hc
        rw [h.ends c hc]
        rfl
    rw [List.span_eq_takeWhile_dropWhile] at hspan
    exact congrArg Prod.fst hspan
  rw [offset?, if_neg hline, hseek]
  show some (above.length + min (column - 1) ((body ++ rest).takeWhile (· ≠ '\n')).length) = _
  rw [hbody]

/-- What stands in front of the last unfinished line consists of whole lines. -/
theorem closed_rdropWhile (cs : List Char) : Closed (cs.rdropWhile (· ≠ '\n')) := by
  by_cases hnil : cs.rdropWhile (· ≠ '\n') = []
  · exact .inl hnil
  · have hlast := List.rdropWhile_last_not (· ≠ '\n') cs hnil
    rw [decide_eq_true_eq, not_not] at hlast
    rw [Closed, List.getLast?_eq_getLast_of_ne_nil hnil, hlast]
    exact .inr rfl

theorem newline_not_mem_rtakeWhile (cs : List Char) : '\n' ∉ cs.rtakeWhile (· ≠ '\n') := by
  intro hmem
  have := List.mem_rtakeWhile_imp hmem
  simp at this

/-- What stands between a place and the end of its line, and the rest. -/
theorem cut_behind (cs : List Char) : ∃ ahead rest, cs = ahead ++ rest ∧ '\n' ∉ ahead ∧
    ∀ c, rest.head? = some c → c = '\n' := by
  refine ⟨cs.takeWhile (· ≠ '\n'), cs.dropWhile (· ≠ '\n'),
    List.takeWhile_append_dropWhile.symm, ?_, ?_⟩
  · intro hmem
    have := List.mem_takeWhile_imp hmem
    simp at this
  · intro c hc
    have hstop := List.head?_dropWhile_not (· ≠ '\n') cs
    rw [hc] at hstop
    simpa using hstop

/-- An index stands on a line, and its column counts what the line has before it. -/
theorem hasLine_of_index {text : List Char} {i : Nat} (hi : i ≤ text.length) :
    ∃ above body rest, HasLine text (lineNumber text i) above body rest ∧
      columnNumber text i - 1 ≤ body.length ∧ above.length + (columnNumber text i - 1) = i := by
  obtain ⟨ahead, rest, hdrop, hahead, hends⟩ := cut_behind (text.drop i)
  have htake := List.rdropWhile_append_rtakeWhile (p := (· ≠ '\n')) (l := text.take i)
  have hclosed := closed_rdropWhile (text.take i)
  have htail := newline_not_mem_rtakeWhile (text.take i)
  have hcolumn : columnNumber text i - 1 = ((text.take i).rtakeWhile (· ≠ '\n')).length := by
    rw [columnNumber, Nat.add_sub_cancel_left]
  generalize (text.take i).rdropWhile (· ≠ '\n') = above at htake hclosed
  generalize (text.take i).rtakeWhile (· ≠ '\n') = tail at htake htail hcolumn
  refine ⟨above, tail ++ ahead, rest, ⟨?_, ?_, hclosed, ?_, hends⟩, ?_, ?_⟩
  · calc text = text.take i ++ text.drop i := (List.take_append_drop i text).symm
      _ = above ++ tail ++ (ahead ++ rest) := by rw [← htake, hdrop]
      _ = above ++ (tail ++ ahead ++ rest) := by simp only [List.append_assoc]
  · rw [lineNumber, ← htake, List.count_append, List.count_eq_zero_of_not_mem htail, Nat.add_zero]
  · rw [List.mem_append]
    rintro (h | h)
    · exact htail h
    · exact hahead h
  · rw [hcolumn, List.length_append]
    exact Nat.le_add_right _ _
  · rw [hcolumn, ← List.length_append, htake, List.length_take, Nat.min_eq_left hi]

/-- Every number of line feeds up to that of the text stands before some index. -/
theorem exists_index (text : List Char) : ∀ {n : Nat}, n ≤ text.count '\n' →
    ∃ i ≤ text.length, (text.take i).count '\n' = n := by
  induction text with
  | nil =>
    intro n hn
    exact ⟨0, Nat.le_refl _, (Nat.le_zero.mp hn).symm⟩
  | cons c text ih =>
    intro n hn
    cases n with
    | zero => exact ⟨0, Nat.zero_le _, rfl⟩
    | succ n =>
      rw [List.count_cons] at hn
      by_cases hc : c = '\n'
      · obtain ⟨i, hi, hcount⟩ := ih (n := n) (by simpa [hc] using hn)
        refine ⟨i + 1, Nat.succ_le_succ hi, ?_⟩
        rw [List.take_succ_cons, List.count_cons, hcount]
        simp [hc]
      · obtain ⟨i, hi, hcount⟩ := ih (n := n + 1) (by simpa [hc] using hn)
        refine ⟨i + 1, Nat.succ_le_succ hi, ?_⟩
        rw [List.take_succ_cons, List.count_cons, hcount]
        simp [hc]

/-! ## Both ways

From a character to its line and column and back, and from any line and column to a character. -/

/-- Every line that a text has can be cut out. -/
theorem exists_hasLine {text : List Char} {line : Nat} (hpos : 1 ≤ line)
    (hle : line ≤ 1 + text.count '\n') : ∃ above body rest, HasLine text line above body rest := by
  obtain ⟨i, hi, hcount⟩ := exists_index text (n := line - 1) (by omega)
  obtain ⟨above, body, rest, h, _⟩ := hasLine_of_index hi
  have hline : lineNumber text i = line := by
    rw [lineNumber, hcount]
    omega
  exact ⟨above, body, rest, hline ▸ h⟩

/-- A text has as many lines as line feeds and one more, and every other line leads nowhere. -/
theorem offset?_isSome {text : List Char} {line column : Nat} :
    (offset? text line column).isSome ↔ 1 ≤ line ∧ line ≤ 1 + text.count '\n' := by
  constructor
  · intro h
    by_contra hno
    have hnone : offset? text line column = none := by
      by_cases hzero : line = 0
      · rw [offset?, if_pos hzero]
      · rw [offset?, if_neg hzero, seekLine_past text 0 (by omega), Option.map_none]
    rw [hnone] at h
    cases h
  · rintro ⟨hpos, hle⟩
    obtain ⟨above, body, rest, h⟩ := exists_hasLine hpos hle
    rw [h.offset?_eq]
    rfl

/-- Counting lines and columns up to a character and going back from there leads to the character.
Any line and column lead somewhere exactly if the text has the line, and then to a place between the
start and the end of the line: to its start from its first column, or from none, and to its end from
any column past it. -/
theorem offset_inverts_counting (text : List Char) :
    (∀ i ≤ text.length, offset? text (lineNumber text i) (columnNumber text i) = some i) ∧
    (∀ line column : Nat,
      (offset? text line column).isSome ↔ 1 ≤ line ∧ line ≤ 1 + text.count '\n') ∧
    ∀ line, 1 ≤ line → line ≤ 1 + text.count '\n' →
      ∃ above body rest, HasLine text line above body rest ∧ ∀ column : Nat,
        ∃ i, offset? text line column = some i ∧
          above.length ≤ i ∧ i ≤ above.length + body.length ∧ i ≤ text.length ∧
          (column ≤ 1 → i = above.length) ∧
          (body.length < column → i = above.length + body.length) := by
  refine ⟨?_, fun line column => offset?_isSome, ?_⟩
  · intro i hi
    obtain ⟨above, body, rest, h, hinside, hindex⟩ := hasLine_of_index hi
    rw [h.offset?_eq, Nat.min_eq_left hinside, hindex]
  · intro line hpos hle
    obtain ⟨above, body, rest, h⟩ := exists_hasLine hpos hle
    have hlength : text.length = above.length + (body.length + rest.length) := by
      rw [h.whole, List.length_append, List.length_append]
    refine ⟨above, body, rest, h, fun column => ⟨_, h.offset?_eq column, ?_⟩⟩
    omega

end TypedStack.Source
