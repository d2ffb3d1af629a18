import TypedStack.Compile.Error
import TypedStack.Source.Position
/-!
# Reports of compile errors

A report points into the source text when that is at hand and the place of the error lies in it;
otherwise it names the place.
-/

set_option autoImplicit false

namespace TypedStack.Command

open Compile

def escape : String := "\x1b"

def red (s : String) : String := s!"{escape}[31m{s}{escape}[0m"

def grey (s : String) : String := s!"{escape}[38;5;246m{s}{escape}[0m"

/-- A source text that a report may point into. -/
structure SourceText where
  file : String
  text : List Char

/-- The line and column of an error in a source text. -/
def SourceText.position? (s : SourceText) (e : CompileError) : Option (Nat × Nat) := do
  let loc ← e.location?
  if loc.isKnown then
    (Source.offset? s.text loc.line.toNat loc.column.toNat).map (Source.position s.text)
  else none

/-- The error and its place in one line. -/
def plainReport (e : CompileError) : String :=
  match e.location?.filter (·.isKnown) with
  | some loc => s!"Compile error at {loc.text}: {e.message}"
  | none => s!"Compile error: {e.message}"

/-- Where in a source the error is, under the heading of a report and indented by the width of the
line number. An empty text has no line to point at. -/
def pointer (s : SourceText) (e : CompileError) (line column : Nat) : String :=
  if s.text.isEmpty then ""
  else
    let indent := String.ofList (List.replicate ((Nat.repr line).length + 2) ' ')
    let place := s!"{s.file}:{line}:{column}"
    indent ++ grey "╭" ++ grey "─" ++ grey "[" ++ place ++ grey "]" ++ "\n" ++
    indent ++ grey "╰" ++ grey "─" ++ s!" {e.message}\n"

/-- The report of an error. -/
def compileReport (source : Option SourceText) (e : CompileError) : String :=
  let error := red "Error:"
  match source.bind fun s => (s.position? e).map (s, ·) with
  | none => s!"{error} {plainReport e}\n"
  | some (s, line, column) => s!"{error} Compile error\n" ++ pointer s e line column

end TypedStack.Command
