import Descent.Text

/-!
# Ranges of characters

A property of characters that a standard fixes is given by the ranges of code points that have it.
The tables are in ascending order, so a search stops at the first range that starts behind the
character.
-/

namespace Descent.Text

/-- Whether the code point `n` lies in one of the ranges `(first, last)`, which are in ascending
order. -/
def inRanges (n : Nat) : List (Nat × Nat) → Bool
  | [] => false
  | (first, last) :: ranges => if n < first then false else n ≤ last || inRanges n ranges

end Descent.Text
