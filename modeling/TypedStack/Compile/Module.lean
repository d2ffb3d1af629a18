import TypedStack.Assembly.Encode
import TypedStack.Compile.Lowering
import TypedStack.Text.Identifier
/-!
# Compiling modules

The functions of a module become the blocks of a program. A module with an entry also gets the
blocks that run it.
-/

set_option autoImplicit false

namespace TypedStack.Compile

open Assembly

structure Options where
  /-- The name of the artifact in place of the module's. -/
  artifactName : Option String := none
  /-- Whether the artifact has to verify. -/
  verify : Bool := true

/-- The functions of a module by name. The names are distinct and none is reserved. -/
def functionTable (functions : List Function) : Except CompileError FunctionTable :=
  functions.foldlM (fun (table : FunctionTable) f =>
    let added := if isReservedName f.name then none else table.add? f.name (.ofFunction f)
    match added with
    | some table => .ok table
    | none => .error (.broken f.loc (.duplicateFunction f.name))) ∅

/-- The block that makes the input ready before anything else runs. -/
def initBlock : Assembly.Block :=
  ((Draft.start initName {}).emit (.op .openInput) |>.emit (.op .retVoid)).block

/-- The block that runs the body of the program and ends with its result. -/
def startBlock : Assembly.Block :=
  ((Draft.start startName {}).emit (.op (.call ⟨mainName, { result := some .int }⟩))
    |>.emit (.op .exit)).block

/-- The blocks that a module with an entry has besides those of its functions. -/
def entryBlocks (functions : FunctionTable) : Option Entry →
    Except CompileError (List Assembly.Block)
  | none => pure []
  | some e => do pure [← lowerEntry functions e, initBlock, startBlock]

/-- The symbolic code of a module. -/
def lowerModule (options : Options) (m : Module) : Except CompileError Assembly.Program := do
  let name := options.artifactName.getD m.name
  unless Text.isIdentifier name do throw (.invalidName name)
  let functions ← functionTable m.functions
  let blocks ← m.functions.mapM (lowerFunction functions)
  let entry ← entryBlocks functions m.entry
  pure { name, blocks := (blocks ++ entry).toArray }

/-- The bytes of a module's artifact. -/
def compile (options : Options) (m : Module) : Except CompileError (List UInt8) := do
  let program ← lowerModule options m
  (program.assemble options.verify).mapError fun e => .internal (.assembly e)

/-- Compiles a module and writes its artifact somewhere. Nothing is written unless the module
compiles. -/
def compileTo {μ : Type → Type} [Monad μ] (write : List UInt8 → μ (Except String Unit))
    (options : Options) (m : Module) : μ (Except CompileError Unit) :=
  match compile options m with
  | .error e => pure (.error e)
  | .ok bytes => do pure ((← write bytes).mapError .cannotWrite)

end TypedStack.Compile
