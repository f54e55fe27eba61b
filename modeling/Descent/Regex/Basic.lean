import Descent.Regex.Assertion
import Descent.Regex.CharSet
import Descent.Regex.Repetition

/-!
# Regular expressions

Regular expressions in a normal form. A sequence has no sequence and no empty text among its parts,
and neighbouring characters in it are one literal. A choice has no choice among its branches; a
choice between single characters is a set, and a start that all branches share stands before the
choice. The functions `concat`, `choice`, `repeated` and `ofSet` build expressions that are in this
form if their parts are.

* `concat`, `choice`, `repeated`, `ofSet`: the ways to put expressions together.
* `isZeroWidth`, `isConsuming`: whether a match takes no text, or some.
* `startsAtTextStart`, `endsAtTextEnd`: whether every match is at an end of the text.
-/

namespace Descent

/-- A regular expression. The first part of a sequence is no sequence, and the first branch of a
choice is no choice. -/
inductive Regex where
  /-- the empty text -/
  | empty
  /-- a given text -/
  | literal (s : Text)
  /-- one character of a set -/
  | set (s : Regex.CharSet)
  /-- the empty text, where an assertion holds -/
  | assertion (a : Regex.Assertion)
  /-- the group with the given number -/
  | group (index : Nat) (r : Regex)
  /-- a repetition -/
  | repetition (rep : Regex.Repetition) (r : Regex)
  /-- the first part of a sequence, and the others -/
  | seq (a b : Regex)
  /-- the first branch of a choice, and the others -/
  | alt (a b : Regex)
  deriving DecidableEq

namespace Regex

/-! ## Lengths -/

/-- Whether every match is empty. -/
def isZeroWidth : Regex → Bool
  | empty => true
  | literal s => s.isEmpty
  | set _ => false
  | assertion _ => true
  | group _ r => r.isZeroWidth
  | repetition _ r => r.isZeroWidth
  | seq a b => a.isZeroWidth && b.isZeroWidth
  | alt a b => a.isZeroWidth && b.isZeroWidth

/-- The least number of characters of a match. There is none where a set without members is
involved. -/
def minLength? : Regex → Option Nat
  | empty => some 0
  | literal s => some s.length
  | set s => if s.ranges.isEmpty then none else some 1
  | assertion _ => some 0
  | group _ r => r.minLength?
  | repetition rep r => r.minLength?.map (rep.min * ·)
  | seq a b =>
    match a.minLength?, b.minLength? with
    | some m, some n => some (m + n)
    | _, _ => none
  | alt a b =>
    match a.minLength?, b.minLength? with
    | some m, some n => some (min m n)
    | _, _ => none

/-- Whether every match takes a character. This is left open where a set without members is
involved. -/
def isConsuming (r : Regex) : Bool :=
  0 < r.minLength?.getD 0

/-! ## Ends of the text -/

/-- Whether every match starts at the start of the text, because the expression demands it there. -/
def startsAtTextStart : Regex → Bool
  | empty => false
  | literal _ => false
  | set _ => false
  | assertion a => a == .textStart
  | group _ r => r.startsAtTextStart
  | repetition rep r => 0 < rep.min && r.startsAtTextStart
  | seq a b => a.startsAtTextStart || (a.isZeroWidth && b.startsAtTextStart)
  | alt a b => a.startsAtTextStart && b.startsAtTextStart

/-- Whether every match ends at the end of the text, because the expression demands it there. -/
def endsAtTextEnd : Regex → Bool
  | empty => false
  | literal _ => false
  | set _ => false
  | assertion a => a == .textEnd
  | group _ r => r.endsAtTextEnd
  | repetition rep r => 0 < rep.min && r.endsAtTextEnd
  | seq a b => b.endsAtTextEnd || (b.isZeroWidth && a.endsAtTextEnd)
  | alt a b => a.endsAtTextEnd && b.endsAtTextEnd

/-! ## Sequences -/

/-- The parts of a sequence. -/
def parts : Regex → List Regex
  | empty => []
  | seq a b => a :: b.parts
  | r => [r]

/-- The sequence of the given parts. -/
def ofParts : List Regex → Regex
  | [] => empty
  | [r] => r
  | r :: q :: rs => seq r (ofParts (q :: rs))

/-- Puts a part before others. Two literals become one. -/
def consPart (r : Regex) (rs : List Regex) : List Regex :=
  match r, rs with
  | literal s, literal t :: rs => literal (s ++ t) :: rs
  | r, rs => r :: rs

/-- The expressions one after the other. -/
def concat (rs : List Regex) : Regex :=
  ofParts ((rs.flatMap parts).foldr consPart [])

/-! ## Sets -/

/-- One character of a set. A set of one character is a literal. -/
def ofSet (s : CharSet) : Regex :=
  match s.ranges with
  | [(a, b)] => if a = b then literal [Char.ofNat a] else set s
  | _ => set s

/-! ## Choices -/

/-- The branches of a choice. -/
def branches : Regex → List Regex
  | alt a b => a :: b.branches
  | r => [r]

/-- The choice between the given branches. -/
def ofBranches : List Regex → Regex
  | [] => empty
  | [r] => r
  | r :: q :: rs => alt r (ofBranches (q :: rs))

/-- The set of a literal of one character. -/
def single? : Regex → Option CharSet
  | literal [c] => some (.single c)
  | _ => none

/-- The set of an expression that is a set. -/
def set? : Regex → Option CharSet
  | set s => some s
  | _ => none

/-- The choice between branches none of which is a choice. Single characters become a set, and sets
become one set. -/
def select (rs : List Regex) : Regex :=
  match rs.mapM single?, rs.mapM set? with
  | some ss, _ => ofSet (.ofRanges (ss.flatMap CharSet.ranges))
  | _, some ss => ofSet (.ofRanges (ss.flatMap CharSet.ranges))
  | none, none => ofBranches rs

/-- The longest common start of two lists. -/
def commonStart {α : Type} [DecidableEq α] : List α → List α → List α
  | r :: rs, q :: qs => if r = q then r :: commonStart rs qs else []
  | _, _ => []

/-- The parts that all branches of a choice start with, if all of them are sequences. -/
def sharedStart : List Regex → List Regex
  | [] => []
  | r :: rs =>
    if (r :: rs).all (2 ≤ ·.parts.length) then
      rs.foldl (fun shared q => commonStart shared q.parts) r.parts
    else []

/-- The choice between several expressions, where an earlier one is preferred to a later one. What
all of them start with is matched once, before the choice. -/
def choice (rs : List Regex) : Regex :=
  let rs := rs.flatMap branches
  match sharedStart rs with
  | [] => select rs
  | shared =>
    concat (shared ++
      [select ((rs.map fun r => ofParts (r.parts.drop shared.length)).flatMap branches)])

/-! ## Repetitions -/

/-- At most one round. -/
def Repetition.atMostOnce (rep : Repetition) : Repetition :=
  { rep with min := Nat.min rep.min 1, max := some (Nat.min (rep.max.getD 1) 1) }

/-- A repeated expression. Rounds that match only the empty text are all the same, so one of them is
enough; no rounds are the empty text, and a single round is the expression itself. -/
def repeated (rep : Repetition) (r : Regex) : Regex :=
  let rep := if r.isZeroWidth then rep.atMostOnce else rep
  if rep.max = some 0 then empty
  else if rep.min = 1 ∧ rep.max = some 1 then r
  else repetition rep r

end Regex

end Descent
