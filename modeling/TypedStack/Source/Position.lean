/-!
# Positions in a source text

A place is given by line and column, a report points at characters by their index. Both count from
the beginning of the text, lines and columns from one and characters from zero.
-/

set_option autoImplicit false

namespace TypedStack.Source

/-- Skips lines: the number of characters up to the line that is `n` lines further down, counted
on from `offset`, and the text from there on. -/
def seekLine : List Char → Nat → Nat → Option (Nat × List Char)
  | text, 0, offset => some (offset, text)
  | [], _ + 1, _ => none
  | c :: rest, n + 1, offset => seekLine rest (if c = '\n' then n else n + 1) (offset + 1)

/-- The index of the character at a line and column. A column past the end of its line stands for
the end of the line; a line past the end of the text has no index. -/
def offset? (text : List Char) (line column : Nat) : Option Nat :=
  if line = 0 then none
  else (seekLine text (line - 1) 0).map fun (start, rest) =>
    start + min (column - 1) (rest.takeWhile (· ≠ '\n')).length

/-! ## Positions in reports

A report counts lines as a text editor does, where more characters than the line feed end a line. -/

def isLineEnd (c : Char) : Bool :=
  c ∈ ['\n', '\r', '\x0B', '\x0C', '\u0085', '\u2028', '\u2029']

/-- Whether a line ends between two characters; it does not inside a carriage return that is
followed by a line feed. -/
def breaksBetween (c next : Char) : Bool := isLineEnd c && !(c == '\r' && next == '\n')

/-- The line and column of the character at an index, counted on from a line and a column. The end
of the text belongs to the last line. -/
def positionFrom : List Char → Nat → Nat → Nat → Nat × Nat
  | c :: next :: rest, n + 1, line, column =>
    if breaksBetween c next then positionFrom (next :: rest) n (line + 1) 1
    else positionFrom (next :: rest) n line (column + 1)
  | _, n, line, column => (line, column + n)

def position (text : List Char) (offset : Nat) : Nat × Nat := positionFrom text offset 1 1

end TypedStack.Source
