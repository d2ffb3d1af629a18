/-!
# Paths

A path is a list of parts between slashes. Empty parts mean nothing, except that a slash at the end
asks for a folder.
-/

set_option autoImplicit false

namespace TypedStack.Command

/-- One part of a path. -/
inductive Part where
  /-- A dot: the folder itself. -/
  | here
  /-- Two dots: the folder above. -/
  | above
  | name (s : String)
  deriving DecidableEq, Repr

namespace Part

def ofString (s : String) : Part :=
  if s = "." then .here else if s = ".." then .above else .name s

def text : Part → String
  | .here => "."
  | .above => ".."
  | .name s => s

end Part

structure Path where
  /-- Whether the path begins with a slash. -/
  rooted : Bool
  parts : List Part
  /-- Whether the path ends with a slash. -/
  slashed : Bool
  deriving DecidableEq, Repr

namespace Path

def ofString (s : String) : Path :=
  { rooted := s.startsWith "/"
    parts := ((s.splitOn "/").filter (· ≠ "")).map Part.ofString
    slashed := s.endsWith "/" }

/-- The names among the parts. -/
def names (p : Path) : List String :=
  p.parts.filterMap fun part =>
    match part with
    | .name s => some s
    | _ => none

/-- The parts that lead to the folder of what the path names. Dots at the end do not count. -/
def folderParts (p : Path) : List Part :=
  (p.parts.reverse.dropWhile (· = .here)).tail.reverse

/-- The folder of what the path names, as a path. -/
def folderText (p : Path) : String :=
  let parts := "/".intercalate (p.folderParts.map Part.text)
  if p.rooted then "/" ++ parts else if parts.isEmpty then "." else parts

end Path

/-! ## Extensions -/

/-- A name up to the dot before its extension, and the extension. A dot at the beginning is part of
the name. -/
def splitExtension? (name : List Char) : Option (List Char × List Char) :=
  match name.reverse.span (· ≠ '.') with
  | (extension, '.' :: stem) =>
    if stem.isEmpty then none else some (stem.reverse, extension.reverse)
  | _ => none

/-- The name with its last extension replaced. A single dot that is left over is, with the dot
before the extension, the folder above, which takes no other extension. -/
def replaceExtension (extension : String) (name : List Char) : List Char :=
  match splitExtension? name with
  | none => name ++ '.' :: extension.toList
  | some (stem, old) =>
    if stem = ['.'] ∧ !old.isEmpty then ['.', '.'] else stem ++ '.' :: extension.toList

/-- Where the artifact of a tree goes if nothing else is said: next to it. -/
def defaultOutput (file : String) : String :=
  let (name, folder) := file.toList.reverse.span (· ≠ '/')
  String.ofList (folder.reverse ++ replaceExtension "mcbc" name.reverse)

end TypedStack.Command
