import TypedStack.Artifact.Basic
/-!
# Symbolic code

Code as it is generated: jumps go to labels, calls name their block, and constants and messages
stand in the instructions that use them.
-/

set_option autoImplicit false

namespace TypedStack.Assembly

/-- A place in the code of one block. -/
structure Label where
  index : Nat
  deriving DecidableEq, Hashable, Repr

def Label.text (l : Label) : String := s!"L{l.index}"

/-- A called block, with the signature that the caller relies on. -/
structure Callee where
  name : String
  signature : Signature
  deriving DecidableEq, Repr

abbrev SymbolicOp := Op Constant String Callee Label

inductive Instr where
  | op (o : SymbolicOp)
  /-- Binds a label to the place of the next instruction. -/
  | mark (l : Label)
  deriving DecidableEq, Repr

/-- A block in symbolic form. `lines` gives the source line of each instruction, marks included;
missing entries count as zero. -/
structure Block where
  name : String
  signature : Signature
  slots : Array ValueType
  instrs : Array Instr := #[]
  lines : Array UInt32 := #[]
  deriving DecidableEq, Repr

/-- The instructions with their source lines. -/
def Block.lined (b : Block) : Array (Instr × UInt32) :=
  b.instrs.mapIdx fun i instr => (instr, b.lines.getD i 0)

/-- The blocks that make up one artifact. -/
structure Program where
  name : String
  blocks : Array Block := #[]
  deriving DecidableEq, Repr

/-! ## Writing a block -/

/-- A block while it is being written. -/
structure Draft where
  block : Block
  /-- The line of the next instruction. -/
  line : UInt32 := 0
  /-- The number of labels handed out. -/
  labels : Nat := 0
  deriving DecidableEq, Repr

namespace Draft

/-- An empty block whose first slots are the parameters. -/
def start (name : String) (signature : Signature) : Draft :=
  { block := { name, signature, slots := signature.params.toArray } }

/-- Appends an instruction on the current line. -/
def emit (d : Draft) (instr : Instr) : Draft :=
  let line := d.line
  { d with block :=
      { d.block with instrs := d.block.instrs.push instr, lines := d.block.lines.push line } }

def setLine (d : Draft) (line : UInt32) : Draft := { d with line }

/-- A label not used before. -/
def freshLabel (d : Draft) : Label × Draft := (⟨d.labels⟩, { d with labels := d.labels + 1 })

def mark (d : Draft) (l : Label) : Draft := d.emit (.mark l)

/-- Appends a slot and gives its number, in 16 bits. -/
def addSlot (d : Draft) (t : ValueType) : UInt16 × Draft :=
  let slot := UInt16.ofNat d.block.slots.size
  (slot, { d with block := { d.block with slots := d.block.slots.push t } })

end Draft

end TypedStack.Assembly
