import Std.Data.HashMap
import TypedStack.Artifact.Writer
import TypedStack.Assembly.Error
import TypedStack.Verification.Artifact
/-!
# Encoding symbolic code

A block is encoded in one pass over its code. Constants go into the pool, block names are replaced
by indices, and a mark notes the offset that has been reached. A jump is written before its label
need be known: its operand is zero at first, and a fixup remembers where it stands. After the pass
every fixup is overwritten by the offset of its label.
-/

set_option autoImplicit false

namespace TypedStack.Assembly

/-- The greatest number that a 16-bit field holds. -/
def wordLimit : Nat := 65535

/-- Where the blocks of a program are found: for each name the first block that has it. -/
abbrev Directory := Std.HashMap String (Nat × Signature)

/-- The entries are made from the last block to the first, and a later entry replaces an earlier
one. -/
def Program.directory (p : Program) : Directory :=
  p.blocks.zipIdx.foldr (fun q d => d.insert q.1.name (q.2, q.1.signature)) ∅

/-- The index of a called block, whose declaration has to agree with the call. -/
def Directory.resolve (d : Directory) (callee : Callee) : Except BlockError UInt16 :=
  match d[callee.name]? with
  | none => .error (.undefinedBlock callee.name)
  | some (i, declared) =>
    if declared = callee.signature then .ok (UInt16.ofNat i)
    else .error (.signatureMismatch callee.name callee.signature declared)

/-! ## One pass over the code -/

/-- An instruction that lacks only the offsets of its labels. -/
abbrev PlacedOp := Op UInt16 UInt16 UInt16 Label

/-- Enters a constant into the pool. -/
def intern (c : Constant) : StateT (Array Constant) (Except BlockError) UInt16 := fun pool =>
  let (pool, i) := Segment.intern pool c
  if wordLimit < pool.size then .error .tooManyConstants else .ok (UInt16.ofNat i, pool)

/-- An instruction with its constants, messages and blocks replaced by numbers. -/
def place (d : Directory) (o : SymbolicOp) :
    StateT (Array Constant) (Except BlockError) PlacedOp :=
  o.traverse intern (fun text => intern (.message text)) (fun callee => liftM (d.resolve callee))
    pure

/-- The instruction with zero where the offset of its label will stand. -/
def PlacedOp.blank (o : PlacedOp) : EncodedOp :=
  Id.run (o.traverse pure pure pure fun _ => pure 0)

/-- The operand of a jump that waits for the offset of its label. -/
structure Fixup where
  position : Nat
  label : Label
  deriving DecidableEq, Repr

/-- What the pass has written and noted so far. -/
structure Encoder where
  segment : Segment := {}
  /-- The offsets of the labels that were marked. -/
  marks : Std.HashMap Label Nat := ∅
  fixups : Array Fixup := #[]

namespace Encoder

/-- Writes an instruction. The label of a jump is its last operand, a word. -/
def emit (e : Encoder) (o : PlacedOp) (line : UInt32) : Encoder :=
  let ⟨segment, marks, fixups⟩ := e
  let segment := segment.emit o.blank line
  match o.target? with
  | some label => ⟨segment, marks, fixups.push ⟨segment.code.size - 2, label⟩⟩
  | none => ⟨segment, marks, fixups⟩

/-- Adds one instruction or mark. -/
def add (d : Directory) (e : Encoder) : Instr × UInt32 → Except BlockError Encoder
  | (.mark label, _) =>
    if e.marks.contains label then .error (.duplicateLabel label)
    else .ok { e with marks := e.marks.insert label e.segment.code.size }
  | (.op o, line) =>
    let ⟨⟨code, pool, lines⟩, marks, fixups⟩ := e
    match place d o pool with
    | .error cause => .error cause
    | .ok (placed, pool) => .ok (emit ⟨⟨code, pool, lines⟩, marks, fixups⟩ placed line)

end Encoder

/-- The offset of a label. -/
def targetOffset (labels : Std.HashMap Label Nat) (l : Label) : Except BlockError UInt16 :=
  match labels[l]? with
  | some offset => .ok (UInt16.ofNat offset)
  | none => .error (.unboundLabel l)

/-- Overwrites the operand of a jump by the offset of its label. -/
def applyFixup (labels : Std.HashMap Label Nat) (s : Segment) (f : Fixup) :
    Except BlockError Segment :=
  match targetOffset labels f.label with
  | .error cause => .error cause
  | .ok target => .ok (s.patchWord f.position target)

/-- The encoded body of a block. -/
def encodeBody (d : Directory) (b : Block) : Except BlockError Segment := do
  if 255 < b.signature.params.length then throw .tooManyParams
  if wordLimit < b.slots.size then throw .tooManySlots
  let e ← b.lined.foldlM (Encoder.add d) {}
  if wordLimit < e.segment.code.size then throw .codeTooLarge
  e.fixups.foldlM (applyFixup e.marks) e.segment

/-- Names are stored behind a 16-bit length. -/
def checkName (name : String) : Except AssembleError Unit :=
  if wordLimit < name.utf8ByteSize then .error (.nameTooLong name.utf8ByteSize) else .ok ()

def encodeBlock (d : Directory) (b : Block) : Except AssembleError TypedStack.Block := do
  checkName b.name
  let segment ← (encodeBody d b).mapError (.inBlock b.name)
  pure { name := b.name, signature := b.signature, slots := b.slots, segment }

/-- Encodes a program without verifying it. -/
def Program.encode (p : Program) : Except AssembleError Artifact := do
  if wordLimit < p.blocks.size then throw .tooManyBlocks
  checkName p.name
  let blocks ← p.blocks.mapM (encodeBlock p.directory)
  pure { name := p.name, blocks }

/-- The bytes of a program, which has to verify if asked. -/
def Program.assemble (verify : Bool) (p : Program) : Except AssembleError (List UInt8) := do
  let artifact ← p.encode
  if verify then artifact.verify.mapError .rejected
  pure artifact.toBytes

end TypedStack.Assembly
