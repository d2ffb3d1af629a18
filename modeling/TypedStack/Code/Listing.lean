import TypedStack.Code.Segment
/-!
# Listings of code

A readable form of a code segment, one instruction a line.
-/

set_option autoImplicit false

namespace TypedStack.Segment

/-- Fills a text on the left up to a width. -/
def padLeft (fill : Char) (width : Nat) (s : String) : String :=
  String.ofList (List.replicate (width - s.length) fill) ++ s

/-- Fills a text with spaces on the right up to a width. -/
def padRight (width : Nat) (s : String) : String :=
  s ++ String.ofList (List.replicate (width - s.length) ' ')

def offsetText (offset : Nat) : String := padLeft '0' 4 (toString offset)

/-- The line column: a bar while the line stays that of the byte before. -/
def lineText (s : Segment) (offset : Nat) : String :=
  let line := s.lineAt offset
  if 0 < offset && s.lineAt (offset - 1) == line then "   |"
  else padLeft ' ' 4 (toString line.toNat)

/-- A pool entry, or a question mark for an index past the end. -/
def constantText (s : Segment) (i : UInt16) : String :=
  match s.pool[i.toNat]? with
  | some c => s!"{i.toNat} ; {c.text}"
  | none => s!"{i.toNat} ; ?"

/-- The operands of an instruction; `blocks` names the blocks of the artifact in order. -/
def operandText (s : Segment) (blocks : Array String) : EncodedOp → String
  | .const i | .printError i => s.constantText i
  | .pop t | .arith _ t | .compare t | .ret t | .read t | .print t => t.name
  | .load t slot | .store t slot => s!"{t.name} {slot.toNat}"
  | .cast source target => s!"{source.name} -> {target.name}"
  | .jump target | .jumpIfTrue target => s!"-> {target.toNat}"
  | .jumpIf relation target => s!"{relation.name} -> {target.toNat}"
  | .call block =>
    let name := blocks.getD block.toNat "?"
    s!"{block.toNat} ({name})"
  | .shift _ | .retVoid | .openInput | .exit => ""

/-- One line of a listing, without the end of line. -/
def opText (s : Segment) (blocks : Array String) (offset : Nat) (op : EncodedOp) : String :=
  let head := s!"{offsetText offset} {s.lineText offset}"
  let operands := s.operandText blocks op
  if operands.isEmpty then s!"{head} {op.opcode.name}"
  else s!"{head} {padRight 16 op.opcode.name} {operands}"

/-- The lines from an offset to the end of the code. A place that cannot be decoded ends the
listing. -/
def listFrom (s : Segment) (blocks : Array String) (offset : Nat) (done : String) : String :=
  if offset < s.code.size then
    match _h : s.decode offset with
    | .error e => done ++ s!"{offsetText offset}    ! {e.message}\n"
    | .ok (op, next) => s.listFrom blocks next (done ++ s.opText blocks offset op ++ "\n")
  else done
termination_by s.code.size - offset
decreasing_by
  have := decodeAt_bounds _h
  omega

/-- The listing of a segment under a heading with its name. -/
def listing (s : Segment) (name : String) (blocks : Array String) : String :=
  s.listFrom blocks 0 s!"== {name} ==\n"

end TypedStack.Segment
