import TypedStack.Code.Op
import TypedStack.Constant
/-!
# Code segments

The encoded body of a block: its bytes, its constant pool and the table that says which source
line each byte came from.
-/

set_option autoImplicit false

namespace TypedStack

/-- From this code offset on, the code belongs to this source line. -/
structure LineMark where
  offset : UInt32
  line : UInt32
  deriving DecidableEq, Repr

structure Segment where
  code : Array UInt8 := #[]
  pool : Array Constant := #[]
  lines : Array LineMark := #[]
  deriving DecidableEq, Repr

/-- Why an instruction cannot be decoded. Every offset is that of the byte at fault. -/
inductive DecodeError where
  | truncated (offset : Nat)
  | invalidOpcode (offset : Nat) (byte : UInt8)
  | invalidType (offset : Nat) (byte : UInt8)
  | invalidRelation (offset : Nat) (byte : UInt8)
  deriving DecidableEq, Repr

namespace DecodeError

/-- A byte as two upper-case hexadecimal digits. -/
def hexByte (byte : UInt8) : String :=
  String.ofList ((Text.hexDigits 2 byte.toNat).map Char.toUpper)

def message : DecodeError → String
  | .truncated offset => s!"truncated instruction at offset {offset}"
  | .invalidOpcode offset byte => s!"invalid opcode 0x{hexByte byte} at offset {offset}"
  | .invalidType offset byte => s!"invalid type tag {byte.toNat} at offset {offset}"
  | .invalidRelation offset byte => s!"invalid relation {byte.toNat} at offset {offset}"

end DecodeError

namespace Segment

/-! ## Writing -/

/-- Appends a byte. The line table only records where the line changes. -/
def write (s : Segment) (byte : UInt8) (line : UInt32) : Segment :=
  let mark : LineMark := ⟨UInt32.ofNat s.code.size, line⟩
  if s.lines.back?.map (·.line) = some line then { s with code := s.code.push byte }
  else { s with code := s.code.push byte, lines := s.lines.push mark }

/-- Appends bytes that belong to one line. -/
def writeAll (s : Segment) (bytes : List UInt8) (line : UInt32) : Segment :=
  bytes.foldl (fun s byte => s.write byte line) s

/-- Appends an encoded instruction. -/
def emit (s : Segment) (op : EncodedOp) (line : UInt32) : Segment :=
  s.writeAll (EncodedOp.bytes op) line

/-- The pool with a constant in it, and the constant's index. A constant that is already there is
not entered again. -/
def intern (pool : Array Constant) (c : Constant) : Array Constant × Nat :=
  match pool.idxOf? c with
  | some i => (pool, i)
  | none => (pool.push c, pool.size)

/-- Enters a constant into the pool. -/
def addConstant (s : Segment) (c : Constant) : Segment × Nat :=
  let (pool, i) := intern s.pool c
  ({ s with pool }, i)

/-- Overwrites two bytes with a 16-bit number, low byte first. -/
def patchWord (s : Segment) (offset : Nat) (n : UInt16) : Segment :=
  let code := s.code.setIfInBounds offset n.toUInt8
  { s with code := code.setIfInBounds (offset + 1) (n >>> 8).toUInt8 }

/-! ## Reading -/

/-- The source line of a byte: that of the last mark at or before it. Offsets are taken modulo
`2 ^ 32`, as marks are 32 bits wide. -/
def lineAt (s : Segment) (offset : Nat) : UInt32 :=
  let o := UInt32.ofNat offset
  s.lines.foldl (fun line mark => if mark.offset ≤ o then mark.line else line) 0

/-- The byte at an offset, zero past the end. -/
def byteAt (code : Array UInt8) (offset : Nat) : UInt8 := code.getD offset 0

/-- The 16-bit number at an offset, low byte first. -/
def wordAt (code : Array UInt8) (offset : Nat) : UInt16 :=
  UInt16.ofNat ((byteAt code offset).toNat + 256 * (byteAt code (offset + 1)).toNat)

def typeAt (code : Array UInt8) (offset : Nat) : Except DecodeError ValueType :=
  let byte := byteAt code offset
  match ValueType.ofTag? byte with
  | some t => .ok t
  | none => .error (.invalidType offset byte)

def relationAt (code : Array UInt8) (offset : Nat) : Except DecodeError Relation :=
  let byte := byteAt code offset
  match Relation.ofTag? byte with
  | some r => .ok r
  | none => .error (.invalidRelation offset byte)

/-- The instruction with a given opcode whose operands start at an offset. -/
def operandsAt (code : Array UInt8) (start : Nat) : Opcode → Except DecodeError EncodedOp
  | .const => .ok (.const (wordAt code start))
  | .pop => (typeAt code start).map .pop
  | .load => (typeAt code start).map fun t => .load t (wordAt code (start + 1))
  | .store => (typeAt code start).map fun t => .store t (wordAt code (start + 1))
  | .add => (typeAt code start).map (.arith .add)
  | .sub => (typeAt code start).map (.arith .sub)
  | .mul => (typeAt code start).map (.arith .mul)
  | .div => (typeAt code start).map (.arith .div)
  | .cast => (typeAt code start).bind fun source => (typeAt code (start + 1)).map (.cast source)
  | .shiftLeft => .ok (.shift .left)
  | .shiftRight => .ok (.shift .right)
  | .compare => (typeAt code start).map .compare
  | .jump => .ok (.jump (wordAt code start))
  | .jumpIf => (relationAt code start).map fun r => .jumpIf r (wordAt code (start + 1))
  | .jumpIfTrue => .ok (.jumpIfTrue (wordAt code start))
  | .call => .ok (.call (wordAt code start))
  | .ret => (typeAt code start).map .ret
  | .retVoid => .ok .retVoid
  | .openInput => .ok .openInput
  | .read => (typeAt code start).map .read
  | .print => (typeAt code start).map .print
  | .printError => .ok (.printError (wordAt code start))
  | .exit => .ok .exit

/-- Decodes the instruction at an offset; the second part is the offset of the next one. -/
def decodeAt (code : Array UInt8) (offset : Nat) : Except DecodeError (EncodedOp × Nat) :=
  match code[offset]? with
  | none => .error (.truncated offset)
  | some byte =>
    match Opcode.ofByte? byte with
    | none => .error (.invalidOpcode offset byte)
    | some opcode =>
      if code.size < offset + opcode.size then .error (.truncated offset)
      else (operandsAt code (offset + 1) opcode).map (·, offset + opcode.size)

def decode (s : Segment) (offset : Nat) : Except DecodeError (EncodedOp × Nat) :=
  decodeAt s.code offset

/-- A decoded instruction lies inside the code and is not empty. -/
theorem decodeAt_bounds {code : Array UInt8} {offset next : Nat} {op : EncodedOp}
    (h : decodeAt code offset = .ok (op, next)) : offset < next ∧ next ≤ code.size := by
  unfold decodeAt at h
  split at h
  · simp at h
  · split at h
    · simp at h
    · next opcode _ =>
      split at h
      · simp at h
      · cases hop : operandsAt code (offset + 1) opcode with
        | error e => simp [hop, Except.map] at h
        | ok op' =>
          simp only [hop, Except.map, Except.ok.injEq, Prod.mk.injEq] at h
          have := opcode.size_pos
          omega

end Segment

end TypedStack
