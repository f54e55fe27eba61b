import Descent.Text

/-!
# UTF-8 forms of ranges

The characters of a range in their UTF-8 form are described by sequences of byte ranges: a sequence
stands for all the forms that have a byte of each range, in this order. The sequences of a range are
in ascending order, and no two of them have a form in common.

* `utf8Sequences`: the sequences of a range.
-/

namespace Descent.Regex

/-- The first and the last byte of a range of bytes. -/
abbrev ByteRange := Nat × Nat

/-- The numbers from `a` to `b` as numerals in base 64, with `k` digits behind the leading one: each
list has a range for every digit. -/
def digitRanges : Nat → Nat → Nat → List (List ByteRange)
  | 0, a, b => [[(a, b)]]
  | k + 1, a, b =>
    let m := 64 ^ (k + 1)
    if a / m = b / m then (digitRanges k (a % m) (b % m)).map ((a / m, a / m) :: ·)
    else
      let whole := if a % m = 0 then a / m else a / m + 1
      let part := if b % m = m - 1 then b / m + 1 else b / m
      (if a % m = 0 then [] else (digitRanges k (a % m) (m - 1)).map ((a / m, a / m) :: ·)) ++
        (if whole < part then [(whole, part - 1) :: List.replicate (k + 1) (0, 63)] else []) ++
        (if b % m = m - 1 then [] else (digitRanges k 0 (b % m)).map ((b / m, b / m) :: ·))

/-- The bytes of the digits: the leading one carries the mark `lead`, the others the mark of a
continuation byte. -/
def markDigits (lead : Nat) : List ByteRange → List ByteRange
  | [] => []
  | (a, b) :: rest => (lead + a, lead + b) :: rest.map fun r => (0x80 + r.1, 0x80 + r.2)

/-- The code points whose forms have the same number of bytes, that number less one, and the mark of
their leading byte. Surrogates have no form. -/
def utf8Lengths : List ((Nat × Nat) × Nat × Nat) := [
  ((0, 0x7f), 0, 0), ((0x80, 0x7ff), 1, 0xc0), ((0x800, 0xd7ff), 2, 0xe0),
  ((0xe000, 0xffff), 2, 0xe0), ((0x10000, 0x10ffff), 3, 0xf0)]

/-- The sequences of byte ranges of the characters from `first` to `last`. -/
def utf8Sequences (first last : Nat) : List (List ByteRange) :=
  utf8Lengths.flatMap fun (r, k, lead) =>
    let a := max first r.1
    let b := min last r.2
    if a ≤ b then (digitRanges k a b).map (markDigits lead) else []

end Descent.Regex
