/-!
# Commands

What can be asked for on the command line, and how its arguments are read.
-/

set_option autoImplicit false

namespace TypedStack

inductive Command where
  /-- Compile a syntax tree and write the artifact. -/
  | compile (file : String) (output name source : Option String)
  /-- Compile a syntax tree without writing anything. -/
  | check (file : String) (source : Option String)
  /-- Run an artifact. -/
  | run (file : String)
  /-- List the blocks of an artifact. -/
  | disasm (file : String)
  deriving DecidableEq, Repr

structure Invocation where
  /-- Whether each phase is told about. -/
  verbose : Bool
  command : Command
  deriving DecidableEq, Repr

namespace Invocation

/-- The options that take a value. -/
inductive Setting where
  | output
  | name
  | source
  deriving DecidableEq, Repr

def Setting.ofFlag? : String → Option Setting
  | "-o" | "--output" => some .output
  | "--name" => some .name
  | "--source" => some .source
  | _ => none

/-- Outputs and sources are paths, and no path is empty. -/
def Setting.accepts : Setting → String → Bool
  | .name, _ => true
  | .output, value | .source, value => value ≠ ""

/-- The arguments of a command, sorted by what they are. -/
structure Arguments where
  verbose : Bool := false
  operands : List String := []
  settings : List (Setting × String) := []

def isVerboseFlag (s : String) : Bool := s = "-v" || s = "--verbose"

/-- A lone dash is an operand. -/
def isFlag (s : String) : Bool := s.startsWith "-" && s != "-"

/-- A flag with its value in one word: `--flag=value`, `-f=value` or `-fvalue`. -/
def splitFlag? (s : String) : Option (Setting × String) := do
  let cs := s.toList
  let (flag, rest) :=
    if s.startsWith "--" then cs.span (· ≠ '=') else (cs.take 2, cs.drop 2)
  let setting ← Setting.ofFlag? (String.ofList flag)
  match rest with
  | '=' :: value => some (setting, String.ofList value)
  | value => if s.startsWith "--" then none else some (setting, String.ofList value)

/-- Sorts the words after the command. An option is given at most once. -/
def sort? : List String → Arguments → Option Arguments
  | [], a => some a
  | "--" :: rest, a => some { a with operands := a.operands ++ rest }
  | word :: rest, a =>
    if isVerboseFlag word then
      if a.verbose then none else sort? rest { a with verbose := true }
    else match Setting.ofFlag? word with
      | some setting =>
        match rest with
        | value :: rest => if isFlag value then none else add setting value a |>.bind (sort? rest)
        | [] => none
      | none =>
        if isFlag word then
          (splitFlag? word).bind fun (setting, value) => add setting value a |>.bind (sort? rest)
        else sort? rest { a with operands := a.operands ++ [word] }
where
  add (setting : Setting) (value : String) (a : Arguments) : Option Arguments :=
    if (a.settings.lookup setting).isSome || !setting.accepts value then none
    else some { a with settings := (setting, value) :: a.settings }

/-- A command by its name. Each has one operand, a path, and options of its own. -/
def command? (name : String) (a : Arguments) : Option Command :=
  let setting (s : Setting) := a.settings.lookup s
  let only (allowed : List Setting) (c : Command) :=
    if a.settings.all fun (s, _) => s ∈ allowed then some c else none
  match a.operands with
  | [""] => none
  | [file] =>
    match name with
    | "compile" =>
      only [.output, .name, .source]
        (.compile file (setting .output) (setting .name) (setting .source))
    | "check" => only [.source] (.check file (setting .source))
    | "run" => only [] (.run file)
    | "disasm" => only [] (.disasm file)
    | _ => none
  | _ => none

/-- Reads the arguments of the command line. The flag for verbosity may stand on either side of the
command's name. -/
def ofArguments? : List String → Option Invocation
  | [] => none
  | first :: rest =>
    let (verbose, words) := if isVerboseFlag first then (true, rest) else (false, first :: rest)
    match words with
    | [] => none
    | name :: rest => do
      let a ← sort? rest {}
      pure { verbose := verbose || a.verbose, command := ← command? name a }

/-- What is shown when the arguments cannot be read. -/
def usage : String :=
  "Usage:\n" ++
  "  compile FILE [-o|--output OUT] [--name NAME] [--source SOURCE]\n" ++
  "  check FILE [--source SOURCE]\n" ++
  "  run FILE\n" ++
  "  disasm FILE\n" ++
  "with -v or --verbose anywhere to follow each phase\n"

end Invocation

end TypedStack
