import TypedStack.Artifact.Writer
/-!
# Reading artifacts

Reads the binary form from front to back. A cursor carries the bytes still to be read and how many
have been; a field that does not fit in what is left is reported at the position where it starts.
-/

set_option autoImplicit false

namespace TypedStack

/-- Why bytes are not an artifact. -/
inductive LoadError where
  | badMagic
  | unsupportedVersion (version : UInt16)
  | unexpectedEnd (position : Nat)
  | invalidType (tag : UInt8)
  | invalidConstant (tag : UInt8)
  | invalidText
  | trailingBytes (count : Nat)
  deriving DecidableEq, Repr

def LoadError.message : LoadError → String
  | .badMagic => "not a Monicelli artifact (bad magic)"
  | .unsupportedVersion v => s!"unsupported artifact version {v.toNat}"
  | .unexpectedEnd position => s!"unexpected end of artifact at byte {position}"
  | .invalidType tag => s!"invalid type tag {tag.toNat}"
  | .invalidConstant tag => s!"invalid constant tag {tag.toNat}"
  | .invalidText => "invalid utf-8 in name"
  | .trailingBytes count => s!"{count} trailing bytes after artifact"

namespace Artifact

/-- The bytes still to be read, and the number of those before them. -/
structure Cursor where
  rest : List UInt8
  position : Nat

/-- A reading step. -/
abbrev Reading := StateT Cursor (Except LoadError)

/-- The next `n` bytes. -/
def take (n : Nat) : Reading (List UInt8) := fun c =>
  let (taken, rest) := c.rest.splitAt n
  if taken.length < n then .error (.unexpectedEnd c.position)
  else .ok (taken, ⟨rest, c.position + n⟩)

/-- An unsigned number of `width` bytes. -/
def number (width : Nat) : Reading Nat := ofLittleEndian <$> take width

def byte : Reading UInt8 := UInt8.ofNat <$> number 1

def text : Reading String := do
  let bytes ← take (← number 2)
  match textOfBytes? bytes with
  | some s => pure s
  | none => throw .invalidText

def type : Reading ValueType := do
  let tag ← byte
  match ValueType.ofTag? tag with
  | some t => pure t
  | none => throw (.invalidType tag)

def resultType : Reading ResultType := do
  let tag ← byte
  if tag = 0 then pure none
  else match ValueType.ofTag? tag with
    | some t => pure (some t)
    | none => throw (.invalidType tag)

/-- A pool entry. Any byte but zero reads as the truth value true. -/
def constant : Reading Constant := do
  let tag ← byte
  if tag = 1 then return .value (.int (UInt64.ofNat (← number 8)).toInt64)
  else if tag = 2 then return .value (.char (UInt16.ofNat (← number 2)))
  else if tag = 3 then return .value (.float (UInt32.ofNat (← number 4)))
  else if tag = 4 then return .value (.bool ((← byte) != 0))
  else if tag = 5 then return .value (.double (UInt64.ofNat (← number 8)))
  else if tag = 6 then return .message (← text)
  else throw (.invalidConstant tag)

def lineMark : Reading LineMark := do
  let offset ← number 4
  let line ← number 4
  pure ⟨UInt32.ofNat offset, UInt32.ofNat line⟩

/-- Reads `n` items one after the other and appends them to those already read. -/
def items {α : Type} (item : Reading α) :
    Nat → Array α → Cursor → Except LoadError (Array α × Cursor)
  | 0, done, c => .ok (done, c)
  | n + 1, done, c =>
    match item c with
    | .error e => .error e
    | .ok (a, c) => items item n (done.push a) c

/-- A count of the given width, then that many items. -/
def counted {α : Type} (width : Nat) (item : Reading α) : Reading (Array α) := do
  let n ← number width
  items item n #[]

def segment : Reading Segment := do
  let pool ← counted 2 constant
  let code ← take (← number 4)
  let lines ← counted 4 lineMark
  pure { code := code.toArray, pool, lines }

def block : Reading Block := do
  let name ← text
  let params ← counted 1 type
  let result ← resultType
  let slots ← counted 2 type
  let segment ← segment
  pure { name, signature := ⟨params.toList, result⟩, slots, segment }

/-- The magic bytes. -/
def expectMagic : Reading Unit := fun c =>
  match take 4 c with
  | .ok (bytes, c) => if bytes = magic then .ok ((), c) else .error .badMagic
  | .error _ => .error .badMagic

def expectVersion : Reading Unit := do
  let v := UInt16.ofNat (← number 2)
  if v = version then pure () else throw (.unsupportedVersion v)

/-- The end of the bytes. -/
def expectEnd : Reading Unit := fun c =>
  if c.rest.isEmpty then .ok ((), c) else .error (.trailingBytes c.rest.length)

def whole : Reading Artifact := do
  expectMagic
  expectVersion
  let name ← text
  let blocks ← counted 2 block
  expectEnd
  pure { name, blocks }

/-- The artifact whose binary form these bytes are. -/
def ofBytes (bytes : List UInt8) : Except LoadError Artifact :=
  (whole ⟨bytes, 0⟩).map Prod.fst

end Artifact

end TypedStack
