import TypedStack.Text.Alphabetic
import TypedStack.Text.Numeric
/-!
# Identifiers

The rule for the name of an artifact.
-/

set_option autoImplicit false

namespace TypedStack.Text

/-- The first character of an identifier. -/
def startsIdentifier (c : Char) : Bool := c == '_' || c == '$' || isAlphabetic c

/-- Any further character of an identifier. -/
def continuesIdentifier (c : Char) : Bool :=
  c == '_' || c == '$' || isAlphabetic c || isNumeric c

/-- Whether a text is an identifier; the empty text is none. -/
def isIdentifier (s : String) : Bool :=
  match s.toList with
  | [] => false
  | c :: rest => startsIdentifier c && rest.all continuesIdentifier

end TypedStack.Text
