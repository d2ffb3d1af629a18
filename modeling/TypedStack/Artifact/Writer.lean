import TypedStack.Artifact.Basic
/-!
# The binary form of an artifact

All numbers are unsigned, lowest byte first.

    artifact: "MCBC" | version 2 | text | block count 2 | blocks
    block:    text | parameter count 1 | types | result type 1 (0 for none)
              | slot count 2 | types | constant count 2 | constants
              | code length 4 | code | line count 4 | (offset 4, line 4)
    text:     length 2 | UTF-8 bytes

A count is cut to the width of its field while the content is always written in full, so only an
artifact whose sizes fit their fields can be read back.
-/

set_option autoImplicit false

namespace TypedStack

namespace Artifact

/-- The first four bytes, `MCBC`. -/
def magic : List UInt8 := [0x4D, 0x43, 0x42, 0x43]

/-- The version of the form. -/
def version : UInt16 := 1

def textField (s : String) : List UInt8 :=
  littleEndian 2 s.utf8ByteSize ++ textBytes s

def constantField : Constant → List UInt8
  | .value (.int n) => 1 :: littleEndian 8 n.toUInt64.toNat
  | .value (.char c) => 2 :: littleEndian 2 c.toNat
  | .value (.float x) => 3 :: littleEndian 4 x.toNat
  | .value (.bool b) => [4, if b then 1 else 0]
  | .value (.double x) => 5 :: littleEndian 8 x.toNat
  | .message s => 6 :: textField s

def resultField : ResultType → UInt8
  | none => 0
  | some t => t.tag

def lineField (mark : LineMark) : List UInt8 :=
  littleEndian 4 mark.offset.toNat ++ littleEndian 4 mark.line.toNat

def segmentField (s : Segment) : List UInt8 :=
  littleEndian 2 s.pool.size ++ s.pool.toList.flatMap constantField ++
    littleEndian 4 s.code.size ++ s.code.toList ++
    littleEndian 4 s.lines.size ++ s.lines.toList.flatMap lineField

def blockField (b : Block) : List UInt8 :=
  textField b.name ++
    littleEndian 1 b.signature.params.length ++ b.signature.params.map ValueType.tag ++
    [resultField b.signature.result] ++
    littleEndian 2 b.slots.size ++ b.slots.toList.map ValueType.tag ++
    segmentField b.segment

/-- The bytes of an artifact. -/
def toBytes (a : Artifact) : List UInt8 :=
  magic ++ littleEndian 2 version.toNat ++ textField a.name ++
    littleEndian 2 a.blocks.size ++ a.blocks.toList.flatMap blockField

end Artifact

end TypedStack
