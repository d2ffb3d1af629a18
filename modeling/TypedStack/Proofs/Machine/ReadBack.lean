import TypedStack.Proofs.Decimal.Reading
import TypedStack.Proofs.Machine.Limits
import TypedStack.Proofs.Machine.Words
/-!
# What is printed is read back

A program prints values one to a line, and a line becomes a word when it is read. For integers and
truth values the word is read as the value that was printed, so the whole output gives the printed
values again, in their order, and nothing behind them (`printed_values_read_back`).

What a program has printed is counted along its instructions (`Machine.printed`): an instruction
that prints writes the line of one value, and no other instruction writes to the output.

For the other types more would have to be known. A number with a fraction is printed from digits
that are found by a search, and a character may be a blank, which is no part of any word.
-/

set_option autoImplicit false

namespace TypedStack

open Decimal

/-! ## Values as words

The text of an integer or a truth value is made of characters that are not blank, so that it is one
word and stays one. -/

theorem isBlank_of_isDigit {c : Char} (h : c.isDigit = true) : Text.isBlank c = false := by
  rw [Char.isDigit_iff_toNat] at h
  have hzero : '0'.toNat = 48 := rfl
  have hnine : '9'.toNat = 57 := rfl
  simp [Text.isBlank, Text.inRanges, Text.blankRanges]
  omega

namespace Value

/-- An integer is printed as its digits behind a minus if it is negative. -/
theorem text_int (n : Int64) : (Value.int n).text.toList = Scientific.intChars false n.toInt := by
  show n.toInt.repr.toList = _
  rw [Int.repr_eq_if, Scientific.intChars]
  by_cases hneg : n.toInt < 0
  · have habs : (-n.toInt).toNat = n.toInt.natAbs := by omega
    rw [if_neg (Int.not_le.mpr hneg), if_pos hneg, String.toList_append, Nat.toList_repr, habs]
    rfl
  · have habs : n.toInt.toNat = n.toInt.natAbs := by omega
    rw [if_pos (Int.not_lt.mp hneg), if_neg hneg, Nat.toList_repr, habs]
    rfl

/-- The digits are read back as the integer. Both ends of the range are within the range. -/
theorem int?_text (n : Int64) : Token.int? (Value.int n).text.toList = some n := by
  have hrange : Int64.minValue.toInt ≤ n.toInt ∧ n.toInt ≤ Int64.maxValue.toInt :=
    ⟨n.minValue_le_toInt, n.toInt_le⟩
  rw [text_int, Token.int?, Token.integer?_intChars]
  show (if Int64.minValue.toInt ≤ n.toInt ∧ n.toInt ≤ Int64.maxValue.toInt then
    some (Int64.ofInt n.toInt) else none) = some n
  rw [if_pos hrange, Int64.ofInt_toInt]

theorem bool?_text (b : Bool) : Token.bool? (Value.bool b).text.toList = some b := by
  cases b <;> decide

variable {v : Value}

/-- The text of a value is read as the value, if it is asked for by its type. -/
theorem value?_text (h : v.type = .int ∨ v.type = .bool) :
    Token.value? v.type v.text = some v := by
  cases v with
  | int n =>
    show (Token.int? (Value.int n).text.toList).map Value.int = _
    rw [int?_text]
    rfl
  | bool b =>
    show (Token.bool? (Value.bool b).text.toList).map Value.bool = _
    rw [bool?_text]
    rfl
  | char c | float x | double x => simp [type] at h

/-- The text of a value is one word. -/
theorem text_solid (h : v.type = .int ∨ v.type = .bool) :
    v.text.toList ≠ [] ∧ ∀ c ∈ v.text.toList, Text.isBlank c = false := by
  cases v with
  | int n =>
    have hdigits : ∀ c ∈ Nat.toDigits 10 n.toInt.natAbs, Text.isBlank c = false :=
      fun c hc => isBlank_of_isDigit (Nat.isDigit_of_mem_toDigits (by decide) (by decide) hc)
    rw [text_int, Scientific.intChars]
    split
    · exact ⟨List.cons_ne_nil _ _, List.forall_mem_cons.mpr ⟨by decide, hdigits⟩⟩
    · exact ⟨Nat.toDigits_ne_nil, hdigits⟩
  | bool b =>
    have hsolid : (Value.bool b).text.toList.all (fun c => !Text.isBlank c) = true := by
      cases b <;> decide
    constructor
    · cases b <;> decide
    · intro c hc
      simpa using List.all_eq_true.mp hsolid c hc
  | char c | float x | double x => simp [type] at h

/-- The texts of values, each on a line of its own. -/
def lines (vs : List Value) : String := vs.foldl (fun s v => s ++ v.text ++ "\n") ""

theorem toList_lines (vs : List Value) :
    (lines vs).toList = vs.flatMap fun v => v.text.toList ++ ['\n'] := by
  have hfold : ∀ s : String, (vs.foldl (fun s v => s ++ v.text ++ "\n") s).toList =
      s.toList ++ vs.flatMap fun v => v.text.toList ++ ['\n'] := by
    induction vs with
    | nil => simp
    | cons v vs ih =>
      intro s
      rw [List.foldl_cons, ih, List.flatMap_cons, String.toList_append, String.toList_append]
      simp
  rw [lines, hfold]
  rfl

/-- The lines of values are cut into the texts of the values. Each text is a word, and the line end
behind it is a blank. -/
theorem lines_cutsInto {vs : List Value} (h : ∀ v ∈ vs, v.type = .int ∨ v.type = .bool) :
    CutsInto (lines vs).toList (vs.map text) := by
  rw [toList_lines]
  induction vs with
  | nil => exact .blank (by simp)
  | cons v vs ih =>
    obtain ⟨hv, hvs⟩ := List.forall_mem_cons.mp h
    obtain ⟨hnonempty, hsolid⟩ := text_solid hv
    have hbreak : Text.isBlank '\n' = true := by decide
    have hrest := (ih hvs).after_blank hbreak
    have hall := CutsInto.at_start hnonempty hsolid (by rintro c ⟨⟩; exact hbreak) hrest
    rw [String.ofList_toList] at hall
    rw [List.flatMap_cons, List.append_assoc]
    exact hall

end Value

/-! ## Reading

One request after another, each for a value of some type. -/

namespace Input

/-- The answers when values of some types are read one after the other. -/
def readAll (i : Input) : List ValueType → List (Except RuntimeError Value)
  | [] => []
  | t :: ts => (i.read t).1 :: (i.read t).2.readAll ts

variable {i : Input}

/-- A request takes the next word and reads it as the type asked for. -/
theorem read_word {word : String} {rest : List (Except RuntimeError String)} {t : ValueType}
    {v : Value} (hitems : i.items = .ok word :: rest) (hvalue : Token.value? t word = some v) :
    (i.read t).1 = .ok v ∧ (i.read t).2.items = rest := by
  obtain ⟨hanswer, hleft⟩ := i.next_items
  rw [hitems] at hanswer hleft
  rcases hnext : i.next with ⟨answer, i'⟩
  rw [hnext] at hanswer hleft
  obtain rfl : answer = .ok (some word) := hanswer
  simp only [read, hnext, hvalue]
  exact ⟨trivial, hleft⟩

/-- Where no word is left, a request fails and leaves it so. -/
theorem read_exhausted (hitems : i.items = []) (t : ValueType) :
    (i.read t).1 = .error .inputExhausted ∧ (i.read t).2.items = [] := by
  obtain ⟨hanswer, hleft⟩ := i.next_items
  rw [hitems] at hanswer hleft
  rcases hnext : i.next with ⟨answer, i'⟩
  rw [hnext] at hanswer hleft
  obtain rfl : answer = .ok none := hanswer
  simp only [read, hnext]
  exact ⟨trivial, hleft⟩

theorem readAll_exhausted (hitems : i.items = []) (ts : List ValueType) :
    i.readAll ts = ts.map fun _ => .error .inputExhausted := by
  induction ts generalizing i with
  | nil => rfl
  | cons t ts ih =>
    obtain ⟨hanswer, hleft⟩ := read_exhausted hitems t
    rw [readAll, hanswer, ih hleft, List.map_cons]

/-- From the words of values the values are read, and then nothing. -/
theorem readAll_words {vs : List Value} (h : ∀ v ∈ vs, v.type = .int ∨ v.type = .bool)
    (hitems : i.items = (vs.map Value.text).map .ok) (ts : List ValueType) :
    i.readAll (vs.map Value.type ++ ts) = vs.map .ok ++ ts.map fun _ => .error .inputExhausted := by
  induction vs generalizing i with
  | nil => exact readAll_exhausted hitems ts
  | cons v vs ih =>
    obtain ⟨hv, hvs⟩ := List.forall_mem_cons.mp h
    obtain ⟨hanswer, hleft⟩ := read_word hitems (Value.value?_text hv)
    rw [List.map_cons, List.cons_append, readAll, hanswer, ih hvs hleft, List.map_cons,
      List.cons_append]

end Input

/-! ## Printing

What a program prints is found from its states, before each instruction. -/

/-- The value that the next instruction prints, if it prints one. -/
def State.printing? (s : State) : Option Value :=
  match s.frame.block.segment.decode s.frame.ip with
  | .ok (.print t, _) => (Machine.pop s.frame.stackBase t s.operands).toOption.map (·.1)
  | _ => none

/-- The value that a program prints next, if it prints one. -/
def Point.printing? (p : Point) : Option Value :=
  match p.execution with
  | .unfinished s => s.printing?
  | .ended _ _ => none

namespace Machine

/-- The values that a program prints by its first instructions, in their order. -/
def printed (m : Machine) (console : Console) : Nat → List Value
  | 0 => []
  | n + 1 => m.printed console n ++ (m.after console n).printing?.toList

variable {m : Machine}

/-- An instruction that prints succeeds, and writes the text of the value on a line. -/
theorem step_prints {s : State} {v : Value} (h : s.printing? = some v) :
    ∃ s', m.step s = .ok (.running s') ∧
      s'.console.outputLines = v.text :: s.console.outputLines := by
  unfold State.printing? at h
  split at h
  · next t next hdecode =>
    cases hpop : pop s.frame.stackBase t s.operands with
    | error e =>
      rw [hpop] at h
      cases h
    | ok r =>
      rw [hpop] at h
      cases h
      refine ⟨⟨{ s.console with outputLines := r.1.text :: s.console.outputLines },
        { s.frame with ip := next }, s.callers, s.locals, r.2⟩, ?_, rfl⟩
      simp only [step, hdecode, execute, hpop]
      rfl
  · cases h

/-- An instruction that does not print writes nothing to the output. -/
theorem effect_silent {op : EncodedOp} {next ip : Nat} {s : State} {console : Console}
    {locals operands : Array Value} {pushed : Option Value} (hop : ∀ t, op ≠ .print t)
    (h : effect op next s = .ok (.goOn ip console locals operands pushed)) :
    console.outputLines = s.console.outputLines := by
  cases op with
  | const i =>
    simp only [effect] at h
    split at h
    · cases h
    · cases h
      rfl
  | pop t | cast source target | jumpIf relation target | jumpIfTrue target =>
    obtain ⟨_, -, h⟩ := except_bind_ok.mp h
    cases h
    rfl
  | load t slot =>
    obtain ⟨index, -, h⟩ := except_bind_ok.mp h
    simp only at h
    split at h
    · cases h
      rfl
    · cases h
  | store t slot | shift kind =>
    obtain ⟨_, -, h⟩ := except_bind_ok.mp h
    obtain ⟨_, -, h⟩ := except_bind_ok.mp h
    cases h
    rfl
  | arith o t | compare t =>
    obtain ⟨_, -, h⟩ := except_bind_ok.mp h
    simp only at h
    split at h <;> cases h
    rfl
  | jump target | openInput =>
    cases h
    rfl
  | read t =>
    simp only [effect] at h
    split at h
    · split at h
      · cases h
      · cases h
        rfl
    · cases h
  | print t => exact absurd rfl (hop t)
  | printError i =>
    simp only [effect] at h
    split at h
    · cases h
      rfl
    · cases h
  | call i | retVoid => cases h
  | ret t | exit =>
    obtain ⟨_, -, h⟩ := except_bind_ok.mp h
    cases h

/-- A step that does not print leaves the output as it is. -/
theorem step_silent {s s' : State} (h : s.printing? = none) (hs : m.step s = .ok (.running s')) :
    s'.console.outputLines = s.console.outputLines := by
  obtain ⟨op, next, e, hdecode, heffect, hperform⟩ := step_ok hs
  have hop : ∀ t, op ≠ .print t := by
    intro t ht
    subst ht
    obtain ⟨r, hpop, -⟩ := except_bind_ok.mp heffect
    rw [State.printing?, hdecode] at h
    simp only [hpop] at h
    cases h
  rw [perform_console hperform]
  cases e with
  | goOn ip console locals operands pushed => exact effect_silent hop heffect
  | call index | leave operands result | finish status => rfl

/-- One instruction writes the line of the value it prints, if it prints one. -/
theorem instruction_prints (p : Point) :
    (m.instruction p).execution.console.outputLines =
      p.printing?.toList.map Value.text ++ p.execution.console.outputLines := by
  unfold instruction Point.printing?
  cases hp : p.execution with
  | ended r c =>
    simp only [hp]
    rfl
  | unfinished s =>
    dsimp only
    cases hv : s.printing? with
    | some v =>
      obtain ⟨s', hstep, hlines⟩ := @step_prints m _ _ hv
      rw [hstep]
      exact hlines
    | none =>
      cases hstep : m.step s with
      | error e =>
        dsimp only
        rw [conclude_console]
        rfl
      | ok q =>
        cases q with
        | finished o c =>
          dsimp only
          rw [conclude_console, step_finished hstep]
          rfl
        | running s' => exact step_silent hv hstep

theorem launch_console (m : Machine) (c : Console) : (m.launch c).execution.console = c := by
  unfold launch
  split
  · rfl
  · split
    · exact m.enterAt_console _ _ _
    · exact m.enterAt_console _ _ _

/-- The lines written are those of the values printed, the latest first. By induction on the
count. -/
theorem after_printed (m : Machine) (c : Console) (n : Nat) :
    (m.after c n).execution.console.outputLines =
      ((m.printed c n).map Value.text).reverse ++ c.outputLines := by
  induction n with
  | zero => exact congrArg Console.outputLines (m.launch_console c)
  | succ n ih =>
    have hnext := m.instruction_prints (m.after c n)
    rw [ih] at hnext
    rw [after, hnext, printed]
    cases (m.after c n).printing? with
    | none => simp
    | some v => simp

/-- What a program has written from the start is the lines of the values it has printed. -/
theorem output_eq_lines (m : Machine) {c : Console} (hc : c.outputLines = []) (n : Nat) :
    (m.after c n).execution.console.output = Value.lines (m.printed c n) := by
  rw [Console.output, after_printed, hc, List.append_nil, Console.joinLines, List.reverse_reverse,
    List.foldl_map]
  rfl

end Machine

/-- **What is printed is read back.** Integers and truth values are read back as they were printed.
A program that has printed some of them, and nothing else, has written their texts one to a line.
When values of their types are read from this text they come back in their order, and every request
behind them finds the input exhausted. -/
theorem printed_values_read_back (vs : List Value)
    (hvs : ∀ v ∈ vs, v.type = .int ∨ v.type = .bool) :
    (∀ (m : Machine) (c : Console) (n : Nat), c.outputLines = [] → m.printed c n = vs →
      (m.after c n).execution.console.output = Value.lines vs) ∧
    ∀ ts, (Input.ofBytes (textBytes (Value.lines vs))).readAll (vs.map Value.type ++ ts) =
      vs.map .ok ++ ts.map fun _ => .error .inputExhausted := by
  constructor
  · intro m c n hc hprinted
    rw [m.output_eq_lines hc, hprinted]
  · intro ts
    exact Input.readAll_words hvs (items_of_text (Value.lines_cutsInto hvs)) ts

/-- The ends of the integers, and both truth values. -/
def extremes : List Value := [.int Int64.minValue, .bool true, .int Int64.maxValue, .bool false]

/-- Prints each of the values behind the other. -/
def extremesMachine : Machine where
  artifact := {
    name := "extremes"
    blocks := #[
      { name := startName, signature := {}, slots := #[],
        segment := {
          code := #[0x00, 0, 0, 0xF8, 1, 0x00, 1, 0, 0xF8, 4, 0x00, 2, 0, 0xF8, 1, 0x00, 3, 0,
            0xF8, 4, 0x53],
          pool := #[.value (.int Int64.minValue), .value (.bool true), .value (.int Int64.maxValue),
            .value (.bool false)] } }] }

theorem printed_values_read_back_extremes :
    (∀ v ∈ extremes, v.type = .int ∨ v.type = .bool) ∧
    extremesMachine.printed (.ofInput []) 9 = extremes ∧
    (extremesMachine.after (.ofInput []) 9).execution.console.output =
      "-9223372036854775808\ntrue\n9223372036854775807\nfalse\n" ∧
    (Input.ofBytes (textBytes "-9223372036854775808\ntrue\n9223372036854775807\nfalse\n")).readAll
      [.int, .bool, .int, .bool, .char] =
        [.ok (.int Int64.minValue), .ok (.bool true), .ok (.int Int64.maxValue), .ok (.bool false),
          .error .inputExhausted] := by
  have hkinds : ∀ v ∈ extremes, v.type = .int ∨ v.type = .bool := by decide
  have hprinted : extremesMachine.printed (.ofInput []) 9 = extremes := by decide +kernel
  have hlines : Value.lines extremes =
      "-9223372036854775808\ntrue\n9223372036854775807\nfalse\n" := by decide +kernel
  obtain ⟨houtput, hread⟩ := printed_values_read_back extremes hkinds
  rw [← hlines]
  exact ⟨hkinds, hprinted, houtput _ _ 9 rfl hprinted, hread [.char]⟩

end TypedStack
