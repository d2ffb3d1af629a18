import TypedStack.Command.Path
/-!
# Files in memory

A working folder with the files in it and below it. What lies outside of it is not seen: the
folders above are there, and nothing else in them.
-/

set_option autoImplicit false

namespace TypedStack.Command

/-- Why a path does not lead where it should. -/
inductive FileError where
  | missing
  | busy
  | notFolder
  | isFolder
  | nameTooLong
  deriving DecidableEq, Repr

def FileError.message : FileError → String
  | .missing => "No such file or directory (os error 2)"
  | .busy => "Device or resource busy (os error 16)"
  | .notFolder => "Not a directory (os error 20)"
  | .isFolder => "Is a directory (os error 21)"
  | .nameTooLong => "File name too long (os error 36)"

/-- The greatest number of bytes in a name. -/
def nameLimit : Nat := 255

/-- The greatest number of bytes in a path. -/
def pathLimit : Nat := 4095

/-- The files of a working folder, by the names on the way to them. A folder below is there if a
file is in it. -/
structure Folder where
  files : List (List String × List UInt8)

/-- Where a path leads. -/
inductive Place where
  /-- The working folder, or one below it. -/
  | folder (names : List String)
  /-- A folder outside of the working folder. -/
  | outside
  | file (bytes : List UInt8)

namespace Folder

def hasFolder (f : Folder) (names : List String) : Bool :=
  names.isEmpty || f.files.any fun (file, _) => names.isPrefixOf file && names ≠ file

/-- What is found under a name in a folder. -/
def find (f : Folder) (names : List String) : Except FileError Place :=
  match f.files.lookup names with
  | some bytes => .ok (.file bytes)
  | none => if f.hasFolder names then .ok (.folder names) else .error .missing

def checkName (s : String) : Except FileError Unit :=
  if nameLimit < s.utf8ByteSize then .error .nameTooLong else .ok ()

/-- Follows one part of a path. -/
def follow (f : Folder) (place : Place) (part : Part) : Except FileError Place :=
  match place, part with
  | .file _, _ => .error .notFolder
  | place, .here => .ok place
  | .folder names, .above => .ok (if names.isEmpty then .outside else .folder names.dropLast)
  | .outside, .above => .ok .outside
  | .folder names, .name s => do
    checkName s
    f.find (names ++ [s])
  | .outside, .name s => do
    checkName s
    throw .missing

/-- Follows the parts of a path from its beginning. -/
def walk (f : Folder) (rooted : Bool) (parts : List Part) : Except FileError Place :=
  parts.foldlM f.follow (if rooted then .outside else .folder [])

/-- The folder that the parts of a path lead to; `none` for one outside. -/
def walkToFolder (f : Folder) (rooted : Bool) (parts : List Part) :
    Except FileError (Option (List String)) := do
  match ← f.walk rooted parts with
  | .folder names => pure (some names)
  | .outside => pure none
  | .file _ => throw .notFolder

/-- An empty path leads nowhere. -/
def checkPath (path : String) : Except FileError Unit :=
  if path.isEmpty then .error .missing
  else if pathLimit < path.utf8ByteSize then .error .nameTooLong
  else .ok ()

/-! ## Reading -/

def read (f : Folder) (path : String) : Except FileError (List UInt8) := do
  checkPath path
  let p := Path.ofString path
  let place ← f.walk p.rooted p.parts
  match place with
  | .file bytes => if p.slashed then throw .notFolder else pure bytes
  | _ => throw .isFolder

/-! ## Writing

A file is first written as a draft in the folder where it belongs, and then moved into place. -/

inductive WriteError where
  /-- The draft cannot be written. -/
  | draft (cause : FileError) (folder : String)
  /-- The draft cannot be moved into place. -/
  | move (cause : FileError)
  deriving DecidableEq, Repr

def WriteError.message : WriteError → String
  | .draft cause folder => s!"{cause.message} at path {folder}"
  | .move cause => cause.message

/-- The files with one of them put in place of whatever was there. -/
def insert (f : Folder) (names : List String) (bytes : List UInt8) : Folder :=
  ⟨f.files.filter (fun (file, _) => file ≠ names) ++ [(names, bytes)]⟩

/-- Moves a finished file to a path. Only a name can be given to it, and a slash after the name asks
for a folder, which a file is not. -/
def move (f : Folder) (path : String) (bytes : List UInt8) : Except FileError Folder := do
  checkPath path
  let p := Path.ofString path
  let folder ← f.walkToFolder p.rooted p.parts.dropLast
  match p.parts.getLast? with
  | some (.name s) =>
    checkName s
    if p.slashed then throw .notFolder
    match folder with
    | none => pure f
    | some names =>
      if f.hasFolder (names ++ [s]) then throw .isFolder
      pure (f.insert (names ++ [s]) bytes)
  | _ => throw .busy

/-- The number of bytes in the name of a draft. -/
def draftNameSize : Nat := 10

/-- Whether a draft can be written in the folder of a path. -/
def checkDraft (f : Folder) (p : Path) : Except FileError Unit := do
  if pathLimit < p.folderText.utf8ByteSize + 1 + draftNameSize then throw .nameTooLong
  discard <| f.walkToFolder p.rooted p.folderParts

/-- Puts a file in place as a whole. -/
def replace (f : Folder) (path : String) (bytes : List UInt8) : Except WriteError Folder := do
  let p := Path.ofString path
  (f.checkDraft p).mapError (.draft · p.folderText)
  (f.move path bytes).mapError .move

end Folder

end TypedStack.Command
