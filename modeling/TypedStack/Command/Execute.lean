import TypedStack.Bytes
import TypedStack.Command.Basic
import TypedStack.Command.Host
import TypedStack.Command.Path
import TypedStack.Command.Report
import TypedStack.Compile.Module
import TypedStack.Machine.Run
import TypedStack.SyntaxTree.Reader
/-!
# Carrying out commands

Each command is a sequence of effects of its host and ends with the exit status of the process.
-/

set_option autoImplicit false

namespace TypedStack.Command

open Compile

/-- The exit status of a command that failed. -/
def failed : UInt8 := 1

/-- The exit status for arguments that cannot be read. -/
def misuse : UInt8 := 2

variable {μ : Type → Type} [Monad μ]

/-- Tells about a phase. -/
def tell (host : Host μ) (verbose : Bool) (line : String) : μ Unit :=
  if verbose then host.report (line ++ "\n") else pure ()

def readText (host : Host μ) (file : String) : μ (Except String String) := do
  match ← host.readFile file with
  | .error reason => pure (.error reason)
  | .ok bytes =>
    match textOfBytes? bytes with
    | some text => pure (.ok text)
    | none => pure (.error "stream did not contain valid UTF-8")

/-- Reads the tree in a file; if there is none, the reason has been told. -/
def loadModule (host : Host μ) (file : String) : μ (Option Module) := do
  match ← readText host file with
  | .error reason =>
    host.report s!"Error reading file '{file}': {reason}\n"
    pure none
  | .ok text =>
    match Module.parse? text with
    | some m => pure (some m)
    | none =>
      host.report s!"Error loading '{file}': malformed syntax tree\n"
      pure none

/-- The text that reports point into, if it can be read. -/
def loadSource (host : Host μ) : Option String → μ (Option SourceText)
  | none => pure none
  | some file => do
    match ← readText host file with
    | .ok text => pure (some ⟨file, text.toList⟩)
    | .error _ => pure none

/-- The bytes of a module's artifact; if there are none, the reason has been told. -/
def compileModule (host : Host μ) (verbose : Bool) (options : Options) (source : Option String)
    (m : Module) : μ (Option (List UInt8)) := do
  let name := options.artifactName.getD m.name
  tell host verbose s!"lowering {m.functions.length} functions of '{name}'"
  match Compile.compile options m with
  | .ok bytes =>
    tell host verbose s!"assembled and verified {bytes.length} bytes"
    pure (some bytes)
  | .error e =>
    host.print (compileReport (← loadSource host source) e)
    pure none

def runtimeReport (file : String) (e : RuntimeError) : String :=
  s!"{escape}[1;31mRuntime error{escape}[0m in {file}: {e.message}\n"

/-- Carries out a command and gives its exit status. -/
def execute (host : Host μ) (verbose : Bool) : Command → μ UInt8
  | .compile file output name source => do
    let some m ← loadModule host file | pure failed
    let some bytes ← compileModule host verbose { artifactName := name } source m | pure failed
    let output := output.getD (defaultOutput file)
    match ← host.replaceFile output bytes with
    | .error reason =>
      host.report s!"Error writing artifact '{output}': {reason}\n"
      pure failed
    | .ok () =>
      tell host verbose s!"wrote {bytes.length} bytes to '{output}'"
      host.print "Programma come se fosse compilato.\n"
      pure 0
  | .check file source => do
    let some m ← loadModule host file | pure failed
    let some _ ← compileModule host verbose {} source m | pure failed
    host.print s!"No errors found in '{file}'\n"
    pure 0
  | .run file => do
    match ← host.readFile file with
    | .error reason =>
      host.report s!"Error reading file '{file}': {reason}\n"
      pure failed
    | .ok bytes =>
      match Artifact.loadVerified bytes with
      | .error e =>
        host.report (runtimeReport file e)
        pure failed
      | .ok artifact =>
        tell host verbose s!"loaded artifact '{artifact.name}' ({artifact.blocks.size} blocks)"
        match ← host.runProgram { artifact } with
        | .error e =>
          host.report (runtimeReport file e)
          pure failed
        | .ok status =>
          tell host verbose s!"exited with status {status.toInt}"
          pure status.toUInt32.toUInt8
  | .disasm file => do
    match ← host.readFile file with
    | .error reason =>
      host.report s!"Error reading file '{file}': {reason}\n"
      pure failed
    | .ok bytes =>
      match Artifact.ofBytes bytes with
      | .error e =>
        host.report s!"Error loading artifact '{file}': {e.message}\n"
        pure failed
      | .ok artifact =>
        host.print artifact.listing
        match artifact.verify with
        | .ok () => pure 0
        | .error e =>
          host.report s!"warning: artifact does not verify: {e.message}\n"
          pure 0

/-- Carries out what the arguments ask for. -/
def dispatch (host : Host μ) (arguments : List String) : μ UInt8 :=
  match Invocation.ofArguments? arguments with
  | some i => execute host i.verbose i.command
  | none => do
    host.report Invocation.usage
    pure misuse

end TypedStack.Command
