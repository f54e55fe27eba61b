import Descent.Regex.Beginning
import Descent.Regex.Footprint
import Descent.Regex.Program
import Descent.Regex.Reader

/-!
# Compiling

A source is read, and the expression is turned into a program unless it is too large. An expression
that is looked for by texts alone is never too large.

* `parse?`: the expression of a source.
* `program?`: the program of an expression.
* `compile?`: the program of a source.
* `anchored`: the source that matches at the start of a text only.
-/

namespace Descent.Regex

/-! ## Sources -/

/-- The largest depth of a source. -/
def maxDepth : Nat := 250

/-- The expression of a source, or nothing if the source is malformed or too deep. -/
def parse? (source : Text) : Option Regex := do
  let piece ← read? (← tokens? source)
  if piece.depth ≤ maxDepth then some piece.regex else none

/-- The source that matches where the text starts and there what `source` does. The parts are put
together as texts. -/
def anchored (source : Text) : Text :=
  "^(?:".toList ++ source ++ [')']

/-! ## Programs -/

/-- The number of literals from which on a choice between them is looked for by these texts. -/
def minWords : Nat := 3000

/-- Whether an expression is a choice between many literals. -/
def isWordList (r : Regex) : Bool :=
  minWords ≤ r.branches.length && (literals? r.branches).isSome

/-- The expression that matches where the text starts and there what `r` does. -/
def atTextStart (r : Regex) : Regex :=
  concat [assertion .textStart, r]

/-- The program of an expression, or nothing if the expression is too large. An expression that is
looked for by its matches has a program in any case: its own if it is small enough for a match at
the start of a text, and else the one of its matches. -/
def program? (r : Regex) : Option Program :=
  if r.fits || r.isWordList then some r.toProgram
  else
    r.wholeMatches?.map fun texts =>
      if r.atTextStart.fits then r.toProgram else (ofBranches (texts.map literal)).toProgram

/-- The program of a source. -/
def compile? (source : Text) : Option Program :=
  (parse? source).bind program?

end Descent.Regex
