import Descent.Text.WordChar

/-!
# Assertions

An assertion holds at a place between two characters and consumes nothing. It sees one character
before the place and one behind it; at the ends of the text there is none.
-/

namespace Descent.Regex

/-- A place in a text, seen as the characters around it. -/
structure Gap where
  /-- the character before the place -/
  before : Option Char
  /-- the character behind the place -/
  behind : Option Char

/-- A condition on a place. -/
inductive Assertion where
  /-- the start of the text -/
  | textStart
  /-- the end of the text -/
  | textEnd
  /-- the start of a line -/
  | lineStart
  /-- the end of a line -/
  | lineEnd
  /-- a word starts or ends here -/
  | wordBoundary
  /-- no word starts or ends here -/
  | notWordBoundary
  deriving DecidableEq

namespace Gap

/-- Whether exactly one of the two characters belongs to a word. -/
def isWordBoundary (g : Gap) : Bool :=
  g.before.any Text.isWordChar != g.behind.any Text.isWordChar

end Gap

namespace Assertion

/-- Whether the assertion holds at a place. -/
def holds : Assertion → Gap → Bool
  | textStart, g => g.before.isNone
  | textEnd, g => g.behind.isNone
  | lineStart, g => g.before.all (· = '\n')
  | lineEnd, g => g.behind.all (· = '\n')
  | wordBoundary, g => g.isWordBoundary
  | notWordBoundary, g => !g.isWordBoundary

end Assertion

end Descent.Regex
