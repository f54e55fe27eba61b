import Descent.Parser.Basic
import Descent.Regex.Compile

/-!
# Terminals

The parsers that match text themselves: a given text, the matches of a regular expression, and runs
of characters of one class. A terminal takes the front of the text or fails; a match moves the
clock behind the matched text.

* `matchLength?`: how much of the front of a text a terminal matches.
* `Terminal.parser`: the parser of a terminal.
-/

namespace Descent

/-- The classes of characters that have a name. -/
inductive CharClass where
  /-- the letter `a` only -/
  | letterA
  /-- ASCII digits -/
  | digit
  /-- ASCII letters -/
  | letter
  /-- white space -/
  | whiteSpace
  /-- all but the newline -/
  | notNewline
  /-- the characters outside ASCII -/
  | nonAscii
  /-- all characters -/
  | any
  /-- no character -/
  | none

/-- Whether a character belongs to a class. -/
def CharClass.contains : CharClass → Char → Bool
  | letterA, c => c == 'a'
  | digit, c => c.isDigit
  | letter, c => c.isAlpha
  | whiteSpace, c => Text.isWhiteSpace c
  | notNewline, c => c != '\n'
  | nonAscii, c => 128 ≤ c.toNat
  | any, _ => true
  | none, _ => false

/-- A terminal, with patterns in `ρ`: sources of regular expressions, or the regular expressions
themselves. -/
inductive Terminal (ρ : Type) where
  /-- a given text -/
  | literal (text : Text)
  /-- a match of a pattern -/
  | pattern (p : ρ)
  /-- a run of at least `min` and at most `max` characters that pass `test` -/
  | run (test : Char → Bool) (min : Nat) (max : Option Nat)

namespace Terminal

/-- The length of the longest run of characters at the front of a text that pass `test`, but at
most `max`. -/
def runLength (test : Char → Bool) : Option Nat → Text → Nat
  | some 0, _ => 0
  | _, [] => 0
  | max, c :: s => if test c then runLength test (max.map (· - 1)) s + 1 else 0

/-- The number of characters at the front of a text that a terminal matches. A match of a pattern
counts only at the very front, so a match is not looked for elsewhere
(`Regex.Program.filter_find?`). -/
def matchLength? : Terminal Regex.Program → Text → Option Nat
  | literal text, s => if text.isPrefixOf s then some text.length else none
  | pattern r, s => r.matchFrom? none s
  | run test min max, s =>
    let n := runLength test max s
    if min ≤ n then some n else none

/-- The parser of a terminal. -/
def parser {κ : Type} [Clock κ] (t : Terminal Regex.Program) : Parser κ Text :=
  fun k s =>
    match t.matchLength? s with
    | some n => some ⟨.success (s.take n) (s.drop n), Clock.advance k (s.take n)⟩
    | none => some ⟨.failure s none, k⟩

end Terminal

end Descent
