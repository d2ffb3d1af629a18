import TypedStack.Text.Ranges
/-!
# Blank characters

The Unicode property `White_Space`, which separates the words of a text.
-/

set_option autoImplicit false

namespace TypedStack.Text

/-- The characters with the property `White_Space`. -/
def blankRanges : List (Nat × Nat) :=
  [ (0x9, 0xD), (0x20, 0x20), (0x85, 0x85), (0xA0, 0xA0), (0x1680, 0x1680), (0x2000, 0x200A),
    (0x2028, 0x2029), (0x202F, 0x202F), (0x205F, 0x205F), (0x3000, 0x3000) ]

/-- Whether a character separates words. -/
def isBlank (c : Char) : Bool := inRanges blankRanges c

end TypedStack.Text
