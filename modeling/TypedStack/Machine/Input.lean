import TypedStack.Bytes
import TypedStack.Machine.Error
import TypedStack.Machine.Token
import TypedStack.Text.Blank
/-!
# The input of a program

Input is taken line by line and read word by word. Words are separated by blank characters, so the
division into lines does not show, except that a line which is no UTF-8 text is skipped with an
error.
-/

set_option autoImplicit false

namespace TypedStack

/-- The words of a text: its longest runs of characters that are not blank. The second argument
holds the word being read and the third the words read, both backwards. -/
def wordsFrom : List Char → List Char → List String → List String
  | [], [], done => done.reverse
  | [], word, done => (String.ofList word.reverse :: done).reverse
  | c :: rest, word, done =>
    if Text.isBlank c then
      wordsFrom rest [] (if word.isEmpty then done else String.ofList word.reverse :: done)
    else wordsFrom rest (c :: word) done

def words (s : String) : List String := wordsFrom s.toList [] []

/-- The lines of the bytes, each with its end of line. The second argument holds the line being
read and the third the lines read, both backwards. -/
def linesFrom : List UInt8 → List UInt8 → List (List UInt8) → List (List UInt8)
  | [], [], done => done.reverse
  | [], line, done => (line.reverse :: done).reverse
  | byte :: rest, line, done =>
    if byte = 0x0A then linesFrom rest [] ((byte :: line).reverse :: done)
    else linesFrom rest (byte :: line) done

def lines (bytes : List UInt8) : List (List UInt8) := linesFrom bytes [] []

/-- Input that is partly read. -/
structure Input where
  /-- The words of the current line that have not been read. -/
  pending : List String
  /-- The lines after the current one. -/
  rest : List (List UInt8)
  deriving DecidableEq, Repr

namespace Input

def ofBytes (bytes : List UInt8) : Input := ⟨[], lines bytes⟩

/-- The next word among the lines. A line that is no text is used up and gives an error. -/
def nextFrom : List (List UInt8) → Except RuntimeError (Option String) × Input
  | [] => (.ok none, ⟨[], []⟩)
  | line :: rest =>
    match textOfBytes? line with
    | none => (.error .inputNotText, ⟨[], rest⟩)
    | some s =>
      match words s with
      | [] => nextFrom rest
      | token :: pending => (.ok (some token), ⟨pending, rest⟩)

/-- The next word, or none at the end of the input. -/
def next (i : Input) : Except RuntimeError (Option String) × Input :=
  match i.pending with
  | token :: pending => (.ok (some token), ⟨pending, i.rest⟩)
  | [] => nextFrom i.rest

/-- Reads a value of a type. -/
def read (t : ValueType) (i : Input) : Except RuntimeError Value × Input :=
  match i.next with
  | (.error e, i) => (.error e, i)
  | (.ok none, i) => (.error .inputExhausted, i)
  | (.ok (some token), i) =>
    match Token.value? t token with
    | some v => (.ok v, i)
    | none => (.error (.inputMismatch t token), i)

end Input

end TypedStack
