import TypedStack.Code.Listing
/-!
# Artifacts

A complete program in encoded form: named blocks that call each other by index. Three block names
are reserved for running an artifact as a program.
-/

set_option autoImplicit false

namespace TypedStack

/-- An encoded block. -/
structure Block where
  name : String
  signature : Signature
  slots : Array ValueType
  segment : Segment
  deriving DecidableEq, Repr

structure Artifact where
  name : String
  blocks : Array Block
  deriving DecidableEq, Repr

/-- The block where a program starts: it calls the main block and ends with its result. -/
def startName : String := "<start>"

/-- The body of the program. -/
def mainName : String := "<main>"

/-- The block that runs once before the program starts. -/
def initName : String := "<clinit>"

/-- Whether a block name is reserved. -/
def isReservedName (name : String) : Bool :=
  name == startName || name == mainName || name == initName

namespace Artifact

/-- The index of the first block of a name. -/
def blockIndex? (a : Artifact) (name : String) : Option Nat :=
  a.blocks.findIdx? (·.name == name)

/-- Whether the artifact can be run as a program. -/
def isExecutable (a : Artifact) : Bool := (a.blockIndex? startName).isSome

/-- The listing of one block, with its signature and slots above the code. -/
def blockListing (names : Array String) (b : Block) : String :=
  s!"\n; {b.signature.text} slots={ValueType.listText b.slots.toList}\n" ++
    b.segment.listing b.name names

/-- The listing of every block. -/
def listing (a : Artifact) : String :=
  let names := a.blocks.map (·.name)
  a.blocks.foldl (fun done b => done ++ blockListing names b) s!"artifact {a.name}\n"

end Artifact

end TypedStack
