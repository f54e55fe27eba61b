import Descent.Regex.Assertion
import Descent.Regex.CharSet

/-!
# Escapes

What a backslash and the characters behind it stand for: a character, one of the sets `\d`, `\s`,
`\w` or its complement, or an assertion. References to groups and letters without a meaning are
refused.

Characters by a Unicode property, as in `\p{..}` and `\P{..}`, are left out, and so are the
assertions about one side of a word, `\<`, `\>`, `\b{start}` and its like. A source with one of them
is refused as well, though an engine that has them would take it.

* `escape?`: reads an escape, without its backslash.
-/

namespace Descent.Regex

/-- What an escape stands for. -/
inductive Escape where
  /-- a character -/
  | literal (c : Char)
  /-- a set that has a letter of its own -/
  | set (s : CharSet)
  /-- an assertion -/
  | assertion (a : Assertion)

/-! ## Characters by their code -/

/-- The value of a hexadecimal digit. -/
def hexDigit? (c : Char) : Option Nat :=
  if '0' ≤ c ∧ c ≤ '9' then some (c.toNat - '0'.toNat)
  else if 'a' ≤ c ∧ c ≤ 'f' then some (c.toNat - 'a'.toNat + 10)
  else if 'A' ≤ c ∧ c ≤ 'F' then some (c.toNat - 'A'.toNat + 10)
  else none

/-- The value of a non-empty hexadecimal numeral. -/
def hexNumber? (digits : Text) : Option Nat :=
  if digits.isEmpty then none
  else digits.foldlM (fun n c => (hexDigit? c).map (16 * n + ·)) 0

/-- The character with the given hexadecimal code, if there is one. -/
def charOfHex? (digits : Text) : Option Char :=
  (hexNumber? digits).bind fun n => if n.isValidChar then some (Char.ofNat n) else none

/-- Reads a code: a numeral of `width` digits, or one of any length between braces. -/
def code? (width : Nat) : Text → Option (Char × Text)
  | '\x7b' :: s =>
    match s.dropWhile (· ≠ '\x7d') with
    | [] => none
    | _ :: rest => (charOfHex? (s.takeWhile (· ≠ '\x7d'))).map (·, rest)
  | s =>
    if width ≤ s.length then (charOfHex? (s.take width)).map (·, s.drop width) else none

/-! ## Escapes of one character -/

/-- The ASCII characters other than letters, digits and angle brackets stand for themselves. -/
def isEscapable (c : Char) : Bool :=
  c.toNat < 128 && !c.isAlphanum && c != '<' && c != '>'

/-- The meaning of the escapes that are one character long. -/
def simpleEscape? (c : Char) : Option Escape :=
  match c with
  | 'd' => some (.set .digit)
  | 'D' => some (.set CharSet.digit.compl)
  | 's' => some (.set .space)
  | 'S' => some (.set CharSet.space.compl)
  | 'w' => some (.set .word)
  | 'W' => some (.set CharSet.word.compl)
  | 'a' => some (.literal '\x07')
  | 'f' => some (.literal '\x0c')
  | 't' => some (.literal '\t')
  | 'n' => some (.literal '\n')
  | 'r' => some (.literal '\r')
  | 'v' => some (.literal '\x0b')
  | 'A' => some (.assertion .textStart)
  | 'z' => some (.assertion .textEnd)
  | 'b' => some (.assertion .wordBoundary)
  | 'B' => some (.assertion .notWordBoundary)
  | c => if isEscapable c then some (.literal c) else none

/-- Reads the characters behind a backslash. -/
def escape? : Text → Option (Escape × Text)
  | [] => none
  | 'x' :: s => (code? 2 s).map fun r => (.literal r.1, r.2)
  | 'u' :: s => (code? 4 s).map fun r => (.literal r.1, r.2)
  | 'U' :: s => (code? 8 s).map fun r => (.literal r.1, r.2)
  | c :: s => (simpleEscape? c).map (·, s)

end Descent.Regex
