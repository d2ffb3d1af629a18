import TypedStack.Machine.Input
import TypedStack.Proofs.Artifact.Extent
/-!
# The words of the input

Input is taken line by line, and the words of a line wait in a queue. Here it is shown that the
queue does not show: the answers to one request after the other are the words of the whole text, and
a line that is no text stands among them as one error (`words_of_input`).

Words and lines are cut out by functions that carry along what they have read. What is cut is said
by two relations that know nothing of this: `CutsInto` for the words of a text and `BreaksInto` for
the lines of a stream of bytes.

Lines are cut from bytes and words from characters, and between the two a line is decoded. That the
lines of a text are texts again is therefore not obvious. It holds because the byte of a line end is
part of no other character (`newline_mem_utf8EncodeChar`).
-/

set_option autoImplicit false

namespace TypedStack

/-! ## Words

Every text is cut into words in one way, and this is what the function computes. -/

/-- A text consists of words, which are its longest runs of characters that are not blank. -/
inductive CutsInto : List Char → List String → Prop
  | blank {gap : List Char} (hgap : ∀ c ∈ gap, Text.isBlank c = true) : CutsInto gap []
  | word {gap word rest : List Char} {ws : List String}
      (hgap : ∀ c ∈ gap, Text.isBlank c = true) (hword : word ≠ [])
      (hsolid : ∀ c ∈ word, Text.isBlank c = false)
      (hend : ∀ c, rest.head? = some c → Text.isBlank c = true) (hrest : CutsInto rest ws) :
      CutsInto (gap ++ (word ++ rest)) (String.ofList word :: ws)

/-- Blanks before a word are passed over. -/
theorem wordsFrom_gap {gap : List Char} (hgap : ∀ c ∈ gap, Text.isBlank c = true)
    (rest : List Char) (done : List String) :
    wordsFrom (gap ++ rest) [] done = wordsFrom rest [] done := by
  induction gap with
  | nil => rfl
  | cons c gap ih =>
    rw [List.cons_append, wordsFrom, if_pos (hgap c List.mem_cons_self)]
    exact ih fun d hd => hgap d (List.mem_cons_of_mem _ hd)

/-- Other characters are added to the word that is being read. -/
theorem wordsFrom_solid {solid : List Char} (hsolid : ∀ c ∈ solid, Text.isBlank c = false)
    (rest word : List Char) (done : List String) :
    wordsFrom (solid ++ rest) word done = wordsFrom rest (solid.reverse ++ word) done := by
  induction solid generalizing word with
  | nil => rfl
  | cons c solid ih =>
    have hc : ¬ Text.isBlank c = true := by simp [hsolid c List.mem_cons_self]
    rw [List.cons_append, wordsFrom, if_neg hc, ih fun d hd => hsolid d (List.mem_cons_of_mem _ hd)]
    simp

/-- At the end of a word the word is put behind those before it. -/
theorem wordsFrom_end {rest word : List Char} (hword : word ≠ [])
    (hend : ∀ c, rest.head? = some c → Text.isBlank c = true) (done : List String) :
    wordsFrom rest word done = wordsFrom rest [] (String.ofList word.reverse :: done) := by
  cases rest with
  | nil =>
    cases word with
    | nil => exact absurd rfl hword
    | cons c word => rfl
  | cons c rest =>
    have hc := hend c rfl
    simp [wordsFrom, hc, hword]

/-- The words read before come first, and do not influence the others. -/
theorem wordsFrom_done (cs word : List Char) (done : List String) :
    wordsFrom cs word done = done.reverse ++ wordsFrom cs word [] := by
  induction cs generalizing word done with
  | nil => cases word <;> simp [wordsFrom]
  | cons c cs ih =>
    rw [wordsFrom, wordsFrom]
    split
    · rw [ih, ih [] (if word.isEmpty then [] else [String.ofList word.reverse])]
      split <;> simp
    · exact ih _ _

/-- The words of a text, in whatever way they are found, are those that the function finds. By
induction on the words. -/
theorem CutsInto.wordsFrom_eq {cs : List Char} {ws : List String} (h : CutsInto cs ws) :
    wordsFrom cs [] [] = ws := by
  induction h with
  | @blank gap hgap =>
    have hall := wordsFrom_gap hgap [] []
    rw [List.append_nil] at hall
    exact hall
  | @word gap word rest ws hgap hword hsolid hend _ ih =>
    rw [wordsFrom_gap hgap, wordsFrom_solid hsolid, List.append_nil,
      wordsFrom_end (by simpa using hword) hend, wordsFrom_done, ih]
    simp

theorem CutsInto.after_blank {c : Char} {cs : List Char} {ws : List String}
    (hc : Text.isBlank c = true) (h : CutsInto cs ws) : CutsInto (c :: cs) ws := by
  cases h with
  | blank hgap => exact .blank (List.forall_mem_cons.mpr ⟨hc, hgap⟩)
  | word hgap hword hsolid hend hrest =>
    exact .word (List.forall_mem_cons.mpr ⟨hc, hgap⟩) hword hsolid hend hrest

theorem CutsInto.at_start {word rest : List Char} {ws : List String} (hword : word ≠ [])
    (hsolid : ∀ c ∈ word, Text.isBlank c = false)
    (hend : ∀ c, rest.head? = some c → Text.isBlank c = true) (hrest : CutsInto rest ws) :
    CutsInto (word ++ rest) (String.ofList word :: ws) :=
  @CutsInto.word [] word rest ws (by simp) hword hsolid hend hrest

/-- Every text can be cut into words. By induction on the text: a blank in front of it
changes nothing, and another character begins a word or goes to the first one. -/
theorem exists_cutsInto (cs : List Char) : ∃ ws, CutsInto cs ws := by
  induction cs with
  | nil => exact ⟨[], .blank (by simp)⟩
  | cons c cs ih =>
    obtain ⟨ws, hws⟩ := ih
    cases hc : Text.isBlank c with
    | true => exact ⟨ws, hws.after_blank hc⟩
    | false =>
      have hsingle : ∀ d ∈ [c], Text.isBlank d = false := by simpa using hc
      cases hws with
      | blank hgap =>
        have hend : ∀ d, cs.head? = some d → Text.isBlank d = true :=
          fun d hd => hgap d (List.mem_of_mem_head? hd)
        exact ⟨_, .at_start (List.cons_ne_nil c []) hsingle hend (.blank hgap)⟩
      | @word gap word rest ws hgap hword hsolid hend hrest =>
        cases gap with
        | nil =>
          -- the character begins a word that goes on
          exact ⟨_, .at_start (List.cons_ne_nil c word) (List.forall_mem_cons.mpr ⟨hc, hsolid⟩)
            hend hrest⟩
        | cons d gap =>
          have hblank : ∀ x, some d = some x → Text.isBlank x = true := by
            rintro x ⟨⟩
            exact hgap d List.mem_cons_self
          exact ⟨_, .at_start (List.cons_ne_nil c []) hsingle hblank
            (.word hgap hword hsolid hend hrest)⟩

theorem words_cutsInto (s : String) : CutsInto s.toList (words s) := by
  obtain ⟨ws, hws⟩ := exists_cutsInto s.toList
  have hwords : words s = ws := hws.wordsFrom_eq
  rw [hwords]
  exact hws

theorem CutsInto.words_eq {s : String} {ws : List String} (h : CutsInto s.toList ws) :
    words s = ws :=
  h.wordsFrom_eq

/-- Words do not reach across a blank. -/
theorem wordsFrom_append {b : Char} (hb : Text.isBlank b = true) (cs rest word : List Char) :
    wordsFrom (cs ++ b :: rest) word [] =
      wordsFrom (cs ++ [b]) word [] ++ wordsFrom rest [] [] := by
  induction cs generalizing word with
  | nil =>
    rw [List.nil_append, List.nil_append, wordsFrom, wordsFrom, if_pos hb, if_pos hb,
      wordsFrom_done]
    rfl
  | cons c cs ih =>
    rw [List.cons_append, List.cons_append, wordsFrom, wordsFrom]
    split
    · generalize (if word.isEmpty then [] else [String.ofList word.reverse]) = done
      rw [wordsFrom_done _ _ done, ih, wordsFrom_done (cs ++ [b]) _ done, List.append_assoc]
    · exact ih _

/-! ## Lines

As for words, on bytes. A line keeps its end, and only the last may have none. -/

/-- A stream of bytes consists of lines, each with its end. The last line may lack it. -/
inductive BreaksInto : List UInt8 → List (List UInt8) → Prop
  | nil : BreaksInto [] []
  | last {line : List UInt8} (hline : line ≠ []) (hplain : 0x0A ∉ line) : BreaksInto line [line]
  | line {line rest : List UInt8} {ls : List (List UInt8)} (hplain : 0x0A ∉ line)
      (hrest : BreaksInto rest ls) :
      BreaksInto (line ++ 0x0A :: rest) ((line ++ [0x0A]) :: ls)

/-- Bytes that are no line ends are added to the line that is being read. -/
theorem linesFrom_plain {plain : List UInt8} (hplain : 0x0A ∉ plain) (rest line : List UInt8)
    (done : List (List UInt8)) :
    linesFrom (plain ++ rest) line done = linesFrom rest (plain.reverse ++ line) done := by
  induction plain generalizing line with
  | nil => rfl
  | cons byte plain ih =>
    rw [List.mem_cons, not_or] at hplain
    rw [List.cons_append, linesFrom, if_neg (Ne.symm hplain.1), ih hplain.2]
    simp

theorem linesFrom_done (bytes line : List UInt8) (done : List (List UInt8)) :
    linesFrom bytes line done = done.reverse ++ linesFrom bytes line [] := by
  induction bytes generalizing line done with
  | nil => cases line <;> simp [linesFrom]
  | cons byte bytes ih =>
    rw [linesFrom, linesFrom]
    split
    · rw [ih, ih [] [(byte :: line).reverse]]
      simp
    · exact ih _ _

theorem lines_last {line : List UInt8} (hline : line ≠ []) (hplain : 0x0A ∉ line) :
    lines line = [line] := by
  have hall := linesFrom_plain hplain [] [] []
  rw [List.append_nil, List.append_nil] at hall
  rw [lines, hall]
  cases hrev : line.reverse with
  | nil => exact absurd (List.reverse_eq_nil_iff.mp hrev) hline
  | cons byte rest =>
    simp only [linesFrom, List.reverse_cons, List.reverse_nil, List.nil_append]
    rw [← List.reverse_cons, ← hrev, List.reverse_reverse]

theorem lines_line {line : List UInt8} (hplain : 0x0A ∉ line) (rest : List UInt8) :
    lines (line ++ 0x0A :: rest) = (line ++ [0x0A]) :: lines rest := by
  rw [lines, linesFrom_plain hplain, List.append_nil, linesFrom, if_pos rfl, linesFrom_done]
  simp [lines]

theorem BreaksInto.lines_eq {bytes : List UInt8} {ls : List (List UInt8)}
    (h : BreaksInto bytes ls) : lines bytes = ls := by
  induction h with
  | nil => rfl
  | last hline hplain => exact lines_last hline hplain
  | line hplain _ ih => rw [lines_line hplain, ih]

theorem exists_breaksInto (bytes : List UInt8) : ∃ ls, BreaksInto bytes ls := by
  induction bytes with
  | nil => exact ⟨[], .nil⟩
  | cons byte bytes ih =>
    obtain ⟨ls, hls⟩ := ih
    by_cases hbyte : byte = 0x0A
    · subst hbyte
      exact ⟨_, @BreaksInto.line [] _ _ (by simp) hls⟩
    · cases hls with
      | nil => exact ⟨_, .last (List.cons_ne_nil byte []) (by simpa using Ne.symm hbyte)⟩
      | last hline hplain =>
        exact ⟨_, .last (List.cons_ne_nil byte _) (by simp [Ne.symm hbyte, hplain])⟩
      | @line line rest ls hplain hrest =>
        exact ⟨_, @BreaksInto.line (byte :: line) _ _ (by simp [Ne.symm hbyte, hplain]) hrest⟩

/-! ## Lines of a text

The words of a text can be read from its lines, since a word never has a line end in it. -/

theorem textBytes_ofList (cs : List Char) :
    textBytes (String.ofList cs) = cs.flatMap String.utf8EncodeChar := by
  simp [textBytes, List.utf8Encode]

/-- In the bytes of a text, those of a line end stand for nothing else. -/
theorem newline_mem_utf8EncodeChar {c : Char} : 0x0A ∈ String.utf8EncodeChar c ↔ c = '\n' := by
  have hbyte : ∀ n : Nat, 0x0A = UInt8.ofNat n ↔ n % 256 = 10 := by
    intro n
    rw [← UInt8.toNat_inj, UInt8.toNat_ofNat']
    exact eq_comm
  have hchar : c = '\n' ↔ c.val.toNat = 10 := by
    rw [Char.ext_iff, ← UInt32.toNat_inj]
    rfl
  have hsmall := c.val.toNat_lt
  rw [hchar, String.utf8EncodeChar]
  split
  · simp only [List.mem_singleton, hbyte]
    omega
  · split
    · simp only [List.mem_cons, List.not_mem_nil, or_false, hbyte]
      omega
    · split
      · simp only [List.mem_cons, List.not_mem_nil, or_false, hbyte]
        omega
      · simp only [List.mem_cons, List.not_mem_nil, or_false, hbyte]
        omega

theorem newline_mem_textBytes {cs : List Char} :
    0x0A ∈ textBytes (String.ofList cs) ↔ '\n' ∈ cs := by
  rw [textBytes_ofList, List.mem_flatMap]
  constructor
  · rintro ⟨c, hc, hmem⟩
    rw [← newline_mem_utf8EncodeChar.mp hmem]
    exact hc
  · intro hmem
    exact ⟨'\n', hmem, newline_mem_utf8EncodeChar.mpr rfl⟩

/-- What a line adds to what is read: its words or, if it is no text, an error. -/
def lineItems (line : List UInt8) : List (Except RuntimeError String) :=
  match textOfBytes? line with
  | some s => (words s).map .ok
  | none => [.error .inputNotText]

theorem lineItems_textBytes (s : String) : lineItems (textBytes s) = (words s).map .ok := by
  rw [lineItems, textOfBytes?_textBytes]

/-- The words of the lines of a text are the words of the text. By induction on the number of
characters: the first line is cut off, and what is behind it is shorter. -/
theorem lines_of_text (cs : List Char) :
    (lines (textBytes (String.ofList cs))).flatMap lineItems = (wordsFrom cs [] []).map .ok := by
  induction hn : cs.length using Nat.strongRecOn generalizing cs with
  | ind n ih =>
    subst hn
    by_cases hmem : '\n' ∈ cs
    · obtain ⟨line, rest, rfl, hplain⟩ := List.eq_append_cons_of_mem hmem
      have hbytes : textBytes (String.ofList (line ++ '\n' :: rest)) =
          textBytes (String.ofList line) ++ 0x0A :: textBytes (String.ofList rest) := by
        simp only [textBytes_ofList, List.flatMap_append, List.flatMap_cons]
        rfl
      have hfirst : textBytes (String.ofList line) ++ [0x0A] =
          textBytes (String.ofList (line ++ ['\n'])) := by
        simp only [textBytes_ofList, List.flatMap_append]
        rfl
      have hshorter : rest.length < (line ++ '\n' :: rest).length := by
        rw [List.length_append, List.length_cons]
        omega
      rw [hbytes, lines_line (mt newline_mem_textBytes.mp hplain), List.flatMap_cons, hfirst,
        lineItems_textBytes, ih _ hshorter rest rfl, wordsFrom_append (by decide), List.map_append]
      simp [words]
    · cases cs with
      | nil => rfl
      | cons c cs =>
        have hnonempty : textBytes (String.ofList (c :: cs)) ≠ [] := by
          rw [textBytes_ofList, List.flatMap_cons]
          simp [String.utf8EncodeChar_ne_nil]
        rw [lines_last hnonempty (mt newline_mem_textBytes.mp hmem), List.flatMap_singleton,
          lineItems_textBytes]
        simp [words]

/-! ## One request after the other

What is left to be read is a list, and a request takes its first item. That the input keeps a queue
and the rest of the lines is no longer visible. -/

/-- The answer to a request, given what is read next, if anything is left. -/
def answerOf : Option (Except RuntimeError String) → Except RuntimeError (Option String)
  | some item => item.map some
  | none => .ok none

namespace Input

/-- All that is left to be read. -/
def items (i : Input) : List (Except RuntimeError String) :=
  i.pending.map .ok ++ i.rest.flatMap lineItems

/-- The next word comes from the first line that has one. A line that is no text is an error in its
place. -/
theorem nextFrom_items (ls : List (List UInt8)) :
    (nextFrom ls).1 = answerOf (ls.flatMap lineItems).head? ∧
      (nextFrom ls).2.items = (ls.flatMap lineItems).tail := by
  induction ls with
  | nil => exact ⟨rfl, rfl⟩
  | cons line rest ih =>
    rw [List.flatMap_cons, nextFrom, lineItems]
    cases textOfBytes? line with
    | none => exact ⟨rfl, rfl⟩
    | some s =>
      cases hw : words s with
      | nil => simpa [hw] using ih
      | cons token pending => simp [hw, answerOf, Except.map, items]

/-- A request is answered by the first of what is left to be read, and leaves the others. -/
theorem next_items (i : Input) :
    i.next.1 = answerOf i.items.head? ∧ i.next.2.items = i.items.tail := by
  obtain ⟨pending, rest⟩ := i
  cases pending with
  | nil => exact nextFrom_items rest
  | cons token pending => exact ⟨rfl, rfl⟩

/-- The input after some requests. -/
def after (i : Input) : Nat → Input
  | 0 => i
  | n + 1 => i.next.2.after n

/-- The answer to the request of a number, counted from zero. -/
def answer (i : Input) (n : Nat) : Except RuntimeError (Option String) := (i.after n).next.1

/-- The answer to a request is the item of its number. -/
theorem answer_eq (i : Input) (n : Nat) : i.answer n = answerOf i.items[n]? := by
  induction n generalizing i with
  | zero => rw [answer, after, (next_items i).1, List.head?_eq_getElem?]
  | succ n ih =>
    have hnext : i.answer (n + 1) = i.next.2.answer n := rfl
    rw [hnext, ih, (next_items i).2, List.getElem?_tail]

end Input

/-! ## What is read

The relations put together, for texts and for any bytes. -/

/-- What reading a line comes to: its words or, if it is no UTF-8 text, one error. -/
inductive LineGives : List UInt8 → List (Except RuntimeError String) → Prop
  | text {s : String} {ws : List String} (h : CutsInto s.toList ws) :
      LineGives (textBytes s) (ws.map .ok)
  | broken {line : List UInt8} (h : ∀ s, textBytes s ≠ line) :
      LineGives line [.error .inputNotText]

/-- What reading a stream of bytes comes to, line by line. -/
def StreamGives (bytes : List UInt8) (items : List (Except RuntimeError String)) : Prop :=
  ∃ ls parts, BreaksInto bytes ls ∧ List.Forall₂ LineGives ls parts ∧ items = parts.flatten

/-- What a line gives is determined by the line. -/
theorem LineGives.lineItems_eq {line : List UInt8} {items : List (Except RuntimeError String)}
    (h : LineGives line items) : lineItems line = items := by
  cases h with
  | text h => rw [lineItems_textBytes, h.words_eq]
  | broken h =>
    unfold lineItems
    split
    · next s hs => exact absurd (textBytes_of_textOfBytes? hs) (h s)
    · rfl

theorem lineGives_lineItems (line : List UInt8) : LineGives line (lineItems line) := by
  unfold lineItems
  split
  · next s hs =>
    rw [← textBytes_of_textOfBytes? hs]
    exact .text (words_cutsInto s)
  · next hnone =>
    refine .broken fun s hs => ?_
    rw [← hs, textOfBytes?_textBytes] at hnone
    cases hnone

theorem StreamGives.items_eq {bytes : List UInt8} {items : List (Except RuntimeError String)}
    (h : StreamGives bytes items) : (Input.ofBytes bytes).items = items := by
  obtain ⟨ls, parts, hls, hparts, rfl⟩ := h
  have hmap : ls.map lineItems = parts := by
    rw [← List.forall₂_eq_eq_eq, List.forall₂_map_left_iff]
    exact hparts.imp fun _ _ hline => hline.lineItems_eq
  rw [← hmap, ← hls.lines_eq]
  rfl

theorem exists_streamGives (bytes : List UInt8) : ∃ items, StreamGives bytes items := by
  obtain ⟨ls, hls⟩ := exists_breaksInto bytes
  refine ⟨_, ls, ls.map lineItems, hls, ?_, rfl⟩
  rw [List.forall₂_map_right_iff, List.forall₂_same]
  exact fun line _ => lineGives_lineItems line

theorem items_of_text {s : String} {ws : List String} (h : CutsInto s.toList ws) :
    (Input.ofBytes (textBytes s)).items = ws.map .ok := by
  have hlines := lines_of_text s.toList
  rw [String.ofList_toList, h.wordsFrom_eq] at hlines
  exact hlines

/-- **Reading word by word does not show the lines.** Every text can be cut into words, its longest
runs of characters that are not blank, and the answers to one request after the other are these
words and then nothing, for ever. Texts with the same words therefore give the same answers. In an
arbitrary stream of bytes a line that is no text gives one error in its place, and every other line
its words. -/
theorem words_of_input (s : String) (bytes : List UInt8) :
    (∃ ws, CutsInto s.toList ws) ∧
    (∀ ws, CutsInto s.toList ws → ∀ n, (Input.ofBytes (textBytes s)).answer n = .ok ws[n]?) ∧
    (∀ s' ws, CutsInto s.toList ws → CutsInto s'.toList ws →
      ∀ n, (Input.ofBytes (textBytes s')).answer n = (Input.ofBytes (textBytes s)).answer n) ∧
    (∃ items, StreamGives bytes items) ∧
    ∀ items, StreamGives bytes items →
      ∀ n, (Input.ofBytes bytes).answer n = answerOf items[n]? := by
  have htext : ∀ (s : String) (ws : List String), CutsInto s.toList ws →
      ∀ n, (Input.ofBytes (textBytes s)).answer n = .ok ws[n]? := by
    intro s ws hws n
    rw [Input.answer_eq, items_of_text hws, List.getElem?_map]
    cases ws[n]? <;> rfl
  refine ⟨exists_cutsInto _, htext s, ?_, exists_streamGives bytes, ?_⟩
  · intro s' ws hs hs' n
    rw [htext s ws hs, htext s' ws hs']
  · intro items hitems n
    rw [Input.answer_eq, hitems.items_eq]

end TypedStack
