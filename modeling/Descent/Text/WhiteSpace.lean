import Descent.Text.Ranges

/-!
# White space

The characters with the property `White_Space`.
-/

namespace Descent.Text

/-- The code points of white space. -/
def whiteSpaceRanges : List (Nat × Nat) := [
  (9, 13), (32, 32), (133, 133), (160, 160), (5760, 5760), (8192, 8202), (8232, 8233),
  (8239, 8239), (8287, 8287), (12288, 12288)]

/-- Whether a character is white space: tab to carriage return, the space, next line, and the
spaces and separators beyond ASCII. -/
def isWhiteSpace (c : Char) : Bool :=
  inRanges c.toNat whiteSpaceRanges

end Descent.Text
