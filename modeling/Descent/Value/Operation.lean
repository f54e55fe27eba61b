import Descent.Value

/-!
# Operations on values

The operations that a grammar can apply to what its parsers found. They are data, so that a grammar
is data too: a `Transform` gives another value, an `Extraction` gives another value or refuses, and
a `Condition` accepts or refuses.

* `readInt?`: the integer that a text writes down.
-/

namespace Descent

/-! ## Integers -/

/-- The value of a text of decimal digits, which may not be empty. -/
def readDigits? (s : Text) : Option Nat :=
  if s.isEmpty ∨ ¬ s.all Char.isDigit then none
  else some (Text.decimalValue s)

/-- The integer that a text writes down: digits behind at most one sign. The integer has to be in
range. -/
def readInt? (s : Text) : Option Int :=
  match s with
  | '-' :: s => (readDigits? s).bind fun n => Value.inRange? (-(n : Int))
  | '+' :: s => (readDigits? s).bind fun n => Value.inRange? n
  | s => (readDigits? s).bind fun n => Value.inRange? n

/-- The sum of integers, if all partial sums are in range. -/
def sum? (ns : List Int) : Option Int :=
  ns.foldlM (fun total n => Value.inRange? (total + n)) 0

/-! ## Transforms -/

/-- An operation that always gives a value. -/
inductive Transform where
  /-- a text in capitals, ASCII letters only -/
  | upper
  /-- the number of bytes of a text -/
  | byteLength
  /-- the number of characters, entries or fields -/
  | count
  /-- the texts in a value as one text -/
  | concat
  /-- a text without its first and last character -/
  | stripEnds
  /-- a list without its last entry -/
  | pop
  /-- a list from back to front -/
  | reverse
  /-- the next integer; the largest one stays -/
  | increment
  /-- a list with the value as its entry -/
  | box
  /-- a record with the value as its field -/
  | wrapRecord

namespace Transform

/-- The value that an operation gives. An operation on values of another kind changes nothing. -/
def apply : Transform → Value → Value
  | upper, .str t => .str (t.map Char.toUpper)
  | byteLength, .str t => .int t.byteLength
  | count, .str t => .int t.length
  | count, .list vs => .int vs.length
  | count, .record fields => .int fields.length
  | concat, v => .str v.concat
  | stripEnds, .str t => .str (t.drop 1).dropLast
  | pop, .list vs => .list vs.dropLast
  | reverse, .list vs => .list vs.reverse
  | increment, .int n => .int (min (n + 1) Value.maxInt)
  | box, v => .list [v]
  | wrapRecord, v => .record [("v", v)]
  | _, v => v

end Transform

/-! ## Extractions -/

/-- An operation that may refuse a value. -/
inductive Extraction where
  /-- the integer that a text writes down -/
  | readInt
  /-- a text that occurs in the row of vowels -/
  | vowel
  /-- the first entry of a list -/
  | first
  /-- the entry of a list with one entry; a longer list itself -/
  | single
  /-- the sum of a list of integers -/
  | sum
  /-- the fields `key` and `value` of a record, as a list -/
  | pair
  /-- nothing -/
  | never

namespace Extraction

/-- Whether `s` occurs in `t` as one piece. -/
def occursIn (s : Text) : Text → Bool
  | [] => s.isEmpty
  | c :: t => s.isPrefixOf (c :: t) || occursIn s t

/-- The value that an operation gives, if any. -/
def apply : Extraction → Value → Option Value
  | readInt, .str t => (readInt? t).map .int
  | vowel, .str t => if occursIn t "aeiou".toList then some (.str t) else none
  | first, .list vs => vs.head?
  | single, .list vs =>
    match vs with
    | [] => none
    | [v] => some v
    | vs => some (.list vs)
  | sum, .list vs => ((vs.mapM Value.int?).bind sum?).map .int
  | pair, .record fields =>
    match Fields.find? "key" fields, Fields.find? "value" fields with
    | some k, some v => some (.list [k, v])
    | _, _ => none
  | _, _ => none

end Extraction

/-! ## Conditions -/

/-- A condition on values. -/
inductive Condition where
  /-- a text, list or record is not empty -/
  | nonempty
  /-- a text of ASCII letters -/
  | letters
  /-- an integer below 256 and not negative -/
  | byte
  /-- not one of the texts `let` and `print` -/
  | notKeyword
  /-- an even integer, or a list of even length -/
  | even
  /-- every value -/
  | always
  /-- no value -/
  | never

namespace Condition

/-- Whether a value meets a condition. -/
def holds : Condition → Value → Bool
  | nonempty, .str t => !t.isEmpty
  | nonempty, .list vs => !vs.isEmpty
  | nonempty, .record fields => !fields.isEmpty
  | nonempty, _ => true
  | letters, .str t => t.all Char.isAlpha
  | byte, .int n => 0 ≤ n && n ≤ 255
  | notKeyword, .str t => t != "let".toList && t != "print".toList
  | notKeyword, _ => true
  | even, .int n => n % 2 == 0
  | even, .list vs => vs.length % 2 == 0
  | always, _ => true
  | _, _ => false

end Condition

end Descent
