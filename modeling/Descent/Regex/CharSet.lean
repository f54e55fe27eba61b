import Descent.Text.CaseFolding
import Descent.Text.DecimalDigit
import Descent.Text.WhiteSpace
import Descent.Text.WordChar

/-!
# Sets of characters

The sets that a regular expression can name. A set is kept as its ranges of code points, in
ascending order and with a gap between any two of them, so equal sets have equal ranges. Code points
that are no characters, the surrogates, may lie inside a range; they matter to no operation but the
complement, where a gap never starts or ends with one of them.

* `contains`: membership.
* `ofRanges`: the set of any ranges.
* `compl`, `inter`, `union`, `diff`, `symmDiff`: the operations on sets.
* `anyCase`: the closure of a set under change of case.
-/

namespace Descent.Regex

/-- A set of characters. -/
structure CharSet where
  /-- the first and last code points of its ranges -/
  ranges : List (Nat × Nat)
  deriving DecidableEq

namespace CharSet

/-- Whether a character belongs to the set. -/
def contains (s : CharSet) (c : Char) : Bool :=
  Text.inRanges c.toNat s.ranges

/-! ## Ranges -/

/-- The largest code point. -/
def maxCode : Nat := 0x10ffff

/-- Adds the code points from `a` to `b` to ranges. Ranges that overlap or touch become one. -/
def insertRange (a b : Nat) : List (Nat × Nat) → List (Nat × Nat)
  | [] => [(a, b)]
  | (c, d) :: rs =>
    if b + 1 < c then (a, b) :: (c, d) :: rs
    else if d + 1 < a then (c, d) :: insertRange a b rs
    else insertRange (min a c) (max b d) rs

/-- Adds ranges to a set. -/
def insertRanges (rs : List (Nat × Nat)) (s : CharSet) : CharSet :=
  ⟨rs.foldr (fun r => insertRange r.1 r.2) s.ranges⟩

/-- The set of the code points in any of the ranges. -/
def ofRanges (rs : List (Nat × Nat)) : CharSet :=
  insertRanges rs ⟨[]⟩

/-- The characters in any of the ranges. -/
def ofChars (rs : List (Char × Char)) : CharSet :=
  ofRanges (rs.map fun r => (r.1.toNat, r.2.toNat))

/-- The empty set. -/
def none : CharSet := ⟨[]⟩

/-- The set of all characters. -/
def any : CharSet := ⟨[(0, maxCode)]⟩

/-- The characters from `first` to `last`. -/
def range (first last : Char) : CharSet := ⟨[(first.toNat, last.toNat)]⟩

/-- The set of one character. -/
def single (c : Char) : CharSet := range c c

/-- The decimal digits of all scripts. -/
def digit : CharSet := ⟨Text.decimalDigitRanges⟩

/-- White space. -/
def space : CharSet := ⟨Text.whiteSpaceRanges⟩

/-- The characters of words. -/
def word : CharSet := ⟨Text.wordRanges⟩

/-! ## Operations -/

/-- The code point behind `n`. Behind the last one before the surrogates comes the first one behind
them. -/
def codeAfter (n : Nat) : Nat := if n = 0xd7ff then 0xe000 else n + 1

/-- The code point before `n`. -/
def codeBefore (n : Nat) : Nat := if n = 0xe000 then 0xd7ff else n - 1

/-- The gap between a range that ends with `b` and the next one, which starts with `c`. Two ranges
that meet at the surrogates have nothing between them; there the gap runs from the end of the one
to the start of the other. -/
def gap (b c : Nat) : Nat × Nat :=
  (min (codeAfter b) (codeBefore c), max (codeAfter b) (codeBefore c))

/-- The gaps behind each of the ranges. -/
def gaps : List (Nat × Nat) → List (Nat × Nat)
  | [] => []
  | [(_, b)] => if b < maxCode then [(codeAfter b, maxCode)] else []
  | (_, b) :: (c, d) :: rs => gap b c :: gaps ((c, d) :: rs)

/-- The characters outside the set. -/
def compl (s : CharSet) : CharSet :=
  match s.ranges with
  | [] => any
  | (a, b) :: rs => ⟨(if 0 < a then [(0, codeBefore a)] else []) ++ gaps ((a, b) :: rs)⟩

/-- The members of either set. -/
def union (s t : CharSet) : CharSet :=
  insertRanges s.ranges t

/-- The members of both sets. -/
def inter (s t : CharSet) : CharSet :=
  ⟨s.ranges.flatMap fun r =>
    t.ranges.filterMap fun q =>
      if max r.1 q.1 ≤ min r.2 q.2 then some (max r.1 q.1, min r.2 q.2) else Option.none⟩

/-- What is left of the range from `a` to `b` without the ranges of a set. -/
def cut (a b : Nat) : List (Nat × Nat) → List (Nat × Nat)
  | [] => [(a, b)]
  | (c, d) :: rs =>
    if d < a then cut a b rs
    else if b < c then [(a, b)]
    else
      (if a < c then [(a, codeBefore c)] else []) ++
        (if d < b then cut (codeAfter d) b rs else [])

/-- The members of `s` outside `t`. -/
def diff (s t : CharSet) : CharSet :=
  ⟨s.ranges.flatMap fun r => cut r.1 r.2 t.ranges⟩

/-- The members of exactly one of the two sets. -/
def symmDiff (s t : CharSet) : CharSet :=
  (s.union t).diff (s.inter t)

/-- The characters that differ from a member at most in case. -/
def anyCase (s : CharSet) : CharSet :=
  insertRanges (((Text.casedCodes.filter (Text.inRanges · s.ranges)).flatMap
    Text.caseVariants).map fun n => (n, n)) s

/-- The set itself, or its closure under change of case. -/
def withCase (ignoreCase : Bool) (s : CharSet) : CharSet :=
  if ignoreCase then s.anyCase else s

/-- The set itself, or its complement. -/
def negatedIf (negated : Bool) (s : CharSet) : CharSet :=
  if negated then s.compl else s

/-! ## Membership -/

@[simp] theorem contains_none (c : Char) : none.contains c = false := rfl

theorem contains_range (first last c : Char) :
    (range first last).contains c = decide (first.toNat ≤ c.toNat ∧ c.toNat ≤ last.toNat) := by
  rw [contains, range, Text.inRanges]
  split
  · next h => exact (decide_eq_false fun hc => absurd hc.1 (Nat.not_le.mpr h)).symm
  · next h => simp [Text.inRanges, Nat.le_of_not_lt h]

@[simp] theorem contains_single (c d : Char) : (single c).contains d = (c == d) := by
  rw [single, contains_range, Bool.eq_iff_iff]
  simp only [decide_eq_true_eq, beq_iff_eq]
  constructor
  · intro h
    exact Char.toNat_inj.mp (Nat.le_antisymm h.1 h.2)
  · rintro rfl
    exact ⟨Nat.le_refl _, Nat.le_refl _⟩

end CharSet

end Descent.Regex
