import Descent.Text.WhiteSpace

/-!
# Repetitions

How often something is repeated, and how a counted repetition is written.

* `bounds?`: reads the bounds of a counted repetition.
-/

namespace Descent.Regex

/-- How often something is repeated, and whether rather more or rather less often. -/
structure Repetition where
  /-- the least number of rounds -/
  min : Nat
  /-- the largest number of rounds, if there is one -/
  max : Option Nat
  /-- whether more rounds are preferred -/
  greedy : Bool
  deriving DecidableEq

/-- The largest count that can be written. -/
def maxCount : Nat := 4294967295

/-- Cuts off a numeral, which may have white space around it. -/
def numeral (s : Text) : Text × Text :=
  let s := s.dropWhile Text.isWhiteSpace
  (s.takeWhile Char.isDigit, (s.dropWhile Char.isDigit).dropWhile Text.isWhiteSpace)

/-- The value of a non-empty decimal numeral that is not too large. -/
def count? (digits : Text) : Option Nat :=
  let n := Text.decimalValue digits
  if digits.isEmpty ∨ maxCount < n then none else some n

/-- Reads the bounds of a counted repetition, without its opening brace: `m}`, `m,}` or `m,n}`. -/
def bounds? (s : Text) : Option ((Nat × Option Nat) × Text) :=
  match numeral s with
  | (m, '\x7d' :: rest) => (count? m).map fun m => ((m, some m), rest)
  | (m, ',' :: '\x7d' :: rest) => (count? m).map fun m => ((m, none), rest)
  | (m, ',' :: s) =>
    match numeral s with
    | (n, '\x7d' :: rest) =>
      match count? m, count? n with
      | some m, some n => if m ≤ n then some ((m, some n), rest) else none
      | _, _ => none
    | _ => none
  | _ => none

end Descent.Regex
