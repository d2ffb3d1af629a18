import TypedStack.Bytes
import TypedStack.Code.Relation
import TypedStack.ValueType
/-!
# The instruction set

One definition serves symbolic and encoded code. An `Op` leaves open what stands for a constant, a
message, a called block and a jump target: in symbolic code these are the things themselves, in
encoded code they are 16-bit numbers. The opcode, and with it the encoded size, does not depend
on that choice.
-/

set_option autoImplicit false

namespace TypedStack

inductive ArithOp where
  | add
  | sub
  | mul
  | div
  deriving DecidableEq, Repr

inductive ShiftKind where
  /-- To the left. -/
  | left
  /-- To the right, filling with zeros. -/
  | right
  deriving DecidableEq, Repr

/-- An instruction over constants `K`, messages `M`, blocks `B` and jump targets `T`. -/
inductive Op (K M B T : Type) where
  /-- Push a constant. -/
  | const (k : K)
  /-- Discard the top value. -/
  | pop (t : ValueType)
  /-- Push the value of a slot. -/
  | load (t : ValueType) (slot : UInt16)
  /-- Pop into a slot. -/
  | store (t : ValueType) (slot : UInt16)
  /-- Pop two values and push the result. -/
  | arith (op : ArithOp) (t : ValueType)
  /-- Convert the top value. -/
  | cast (source target : ValueType)
  /-- Pop an amount and a value and push the shifted value. -/
  | shift (kind : ShiftKind)
  /-- Pop two values and push their ordering signal. -/
  | compare (t : ValueType)
  | jump (target : T)
  /-- Pop an ordering signal and jump if the relation holds. -/
  | jumpIf (relation : Relation) (target : T)
  /-- Pop a truth value and jump if it is true. -/
  | jumpIfTrue (target : T)
  | call (block : B)
  /-- Return the top value. -/
  | ret (t : ValueType)
  | retVoid
  /-- Make the program's input ready for reading. -/
  | openInput
  /-- Read a value from the input and push it. -/
  | read (t : ValueType)
  /-- Pop a value and write it on a line of the output. -/
  | print (t : ValueType)
  /-- Write a message on a line of the error stream. -/
  | printError (m : M)
  /-- Pop the status and end the program. -/
  | exit
  deriving DecidableEq, Repr

/-! ## Opcodes -/

inductive Opcode where
  | const
  | pop
  | load
  | store
  | add
  | sub
  | mul
  | div
  | cast
  | shiftLeft
  | shiftRight
  | compare
  | jump
  | jumpIf
  | jumpIfTrue
  | call
  | ret
  | retVoid
  | openInput
  | read
  | print
  | printError
  | exit
  deriving DecidableEq, Repr

namespace Opcode

def byte : Opcode → UInt8
  | .const => 0x00
  | .pop => 0x06
  | .load => 0x10
  | .store => 0x12
  | .add => 0x20
  | .sub => 0x21
  | .mul => 0x22
  | .div => 0x23
  | .cast => 0x28
  | .shiftLeft => 0x2C
  | .shiftRight => 0x2D
  | .compare => 0x30
  | .jump => 0x40
  | .jumpIf => 0x41
  | .jumpIfTrue => 0x42
  | .call => 0x50
  | .ret => 0x52
  | .retVoid => 0x53
  | .openInput => 0xF0
  | .read => 0xF1
  | .print => 0xF8
  | .printError => 0xF9
  | .exit => 0xFF

def ofByte? (byte : UInt8) : Option Opcode :=
  match byte.toNat with
  | 0x00 => some .const
  | 0x06 => some .pop
  | 0x10 => some .load
  | 0x12 => some .store
  | 0x20 => some .add
  | 0x21 => some .sub
  | 0x22 => some .mul
  | 0x23 => some .div
  | 0x28 => some .cast
  | 0x2C => some .shiftLeft
  | 0x2D => some .shiftRight
  | 0x30 => some .compare
  | 0x40 => some .jump
  | 0x41 => some .jumpIf
  | 0x42 => some .jumpIfTrue
  | 0x50 => some .call
  | 0x52 => some .ret
  | 0x53 => some .retVoid
  | 0xF0 => some .openInput
  | 0xF1 => some .read
  | 0xF8 => some .print
  | 0xF9 => some .printError
  | 0xFF => some .exit
  | _ => none

@[simp] theorem ofByte?_byte (o : Opcode) : ofByte? o.byte = some o := by
  cases o <;> rfl

/-- The number of bytes of the instruction, the opcode included. -/
def size : Opcode → Nat
  | .shiftLeft | .shiftRight | .retVoid | .openInput | .exit => 1
  | .pop | .add | .sub | .mul | .div | .compare | .ret | .read | .print => 2
  | .const | .cast | .jump | .jumpIfTrue | .call | .printError => 3
  | .load | .store | .jumpIf => 4

theorem size_pos (o : Opcode) : 0 < o.size := by
  cases o <;> decide

/-- The name in a listing. -/
def name : Opcode → String
  | .const => "CONST"
  | .pop => "POP"
  | .load => "LOAD"
  | .store => "STORE"
  | .add => "ADD"
  | .sub => "SUB"
  | .mul => "MUL"
  | .div => "DIV"
  | .cast => "CAST"
  | .shiftLeft => "SHL"
  | .shiftRight => "USHR"
  | .compare => "CMP"
  | .jump => "JUMP"
  | .jumpIf => "JUMP_IF"
  | .jumpIfTrue => "JUMP_IF_TRUE"
  | .call => "CALL"
  | .ret => "RETURN"
  | .retVoid => "RETURN_VOID"
  | .openInput => "INIT_INPUT"
  | .read => "READ"
  | .print => "PRINT"
  | .printError => "PRINT_ERROR"
  | .exit => "EXIT"

end Opcode

namespace Op

variable {K M B T : Type}

def opcode : Op K M B T → Opcode
  | .const _ => .const
  | .pop _ => .pop
  | .load _ _ => .load
  | .store _ _ => .store
  | .arith .add _ => .add
  | .arith .sub _ => .sub
  | .arith .mul _ => .mul
  | .arith .div _ => .div
  | .cast _ _ => .cast
  | .shift .left => .shiftLeft
  | .shift .right => .shiftRight
  | .compare _ => .compare
  | .jump _ => .jump
  | .jumpIf _ _ => .jumpIf
  | .jumpIfTrue _ => .jumpIfTrue
  | .call _ => .call
  | .ret _ => .ret
  | .retVoid => .retVoid
  | .openInput => .openInput
  | .read _ => .read
  | .print _ => .print
  | .printError _ => .printError
  | .exit => .exit

/-- The number of bytes of the encoded instruction. -/
def size (op : Op K M B T) : Nat := op.opcode.size

/-- Whether control never goes on to the next instruction. -/
def isTerminal : Op K M B T → Bool
  | .jump _ | .ret _ | .retVoid | .exit => true
  | _ => false

/-- Where the instruction may jump to. -/
def target? : Op K M B T → Option T
  | .jump t | .jumpIf _ t | .jumpIfTrue t => some t
  | _ => none

/-- Replaces what stands for constants, messages, blocks and jump targets. An instruction holds at
most one of them, so at most one of the four functions runs. -/
def traverse {K' M' B' T' : Type} {F : Type → Type} [Applicative F] (constant : K → F K')
    (message : M → F M') (block : B → F B') (target : T → F T') :
    Op K M B T → F (Op K' M' B' T')
  | .const k => .const <$> constant k
  | .pop t => pure (.pop t)
  | .load t slot => pure (.load t slot)
  | .store t slot => pure (.store t slot)
  | .arith op t => pure (.arith op t)
  | .cast source target => pure (.cast source target)
  | .shift kind => pure (.shift kind)
  | .compare t => pure (.compare t)
  | .jump l => .jump <$> target l
  | .jumpIf relation l => .jumpIf relation <$> target l
  | .jumpIfTrue l => .jumpIfTrue <$> target l
  | .call b => .call <$> block b
  | .ret t => pure (.ret t)
  | .retVoid => pure .retVoid
  | .openInput => pure .openInput
  | .read t => pure (.read t)
  | .print t => pure (.print t)
  | .printError m => .printError <$> message m
  | .exit => pure .exit

end Op

/-- An instruction of encoded code: constants and messages are indices into the pool, a block is
its index in the artifact, and a target is a byte offset. -/
abbrev EncodedOp := Op UInt16 UInt16 UInt16 UInt16

namespace EncodedOp

def wordBytes (n : UInt16) : List UInt8 := littleEndian 2 n.toNat

/-- The bytes after the opcode. -/
def operandBytes : EncodedOp → List UInt8
  | .const i | .printError i => wordBytes i
  | .pop t | .arith _ t | .compare t | .ret t | .read t | .print t => [t.tag]
  | .load t slot | .store t slot => t.tag :: wordBytes slot
  | .cast source target => [source.tag, target.tag]
  | .jump target | .jumpIfTrue target => wordBytes target
  | .jumpIf relation target => relation.tag :: wordBytes target
  | .call block => wordBytes block
  | .shift _ | .retVoid | .openInput | .exit => []

/-- The encoded instruction. -/
def bytes (op : EncodedOp) : List UInt8 := op.opcode.byte :: operandBytes op

theorem length_bytes (op : EncodedOp) : (bytes op).length = op.size := by
  cases op with
  | arith o t => cases o <;> rfl
  | shift k => cases k <;> rfl
  | _ => rfl

end EncodedOp

end TypedStack
