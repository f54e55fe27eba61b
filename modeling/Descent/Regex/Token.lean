import Descent.Regex.Bracket
import Descent.Regex.Repetition
import Descent.Text.Alphabetic

/-!
# Tokens

The source of a regular expression is first cut into tokens. A repetition carries the mark that
makes it lazy, an opening parenthesis carries what stands behind it up to the group's contents, and
a bracketed set is one token. The meaning of a token does not depend on the tokens before it; this
is why a source can be put between other sources without being read anew.

Of the flags there are `i`, `m` and `s`. The others are left out: `x` for blanks and comments, `U`
for swapped laziness, `u` for Unicode and `R` for line ends of two characters. A source that uses
one of them counts as malformed here, though an engine that has them would take it.

* `token?`: reads one token.
* `tokens?`: reads a whole source.
-/

namespace Descent.Regex

/-! ## Flags -/

/-- The settings that a source can change. -/
structure Flags where
  /-- letters match in either case -/
  ignoreCase : Bool := false
  /-- `^` and `$` match at every line -/
  multiLine : Bool := false
  /-- `.` matches the newline -/
  dotAll : Bool := false

/-- The letter of a flag. -/
inductive Flag where
  | ignoreCase | multiLine | dotAll
  deriving DecidableEq

namespace Flag

/-- The flag with the given letter. -/
def ofChar? : Char → Option Flag
  | 'i' => some ignoreCase
  | 'm' => some multiLine
  | 's' => some dotAll
  | _ => none

/-- Switches a flag on or off. -/
def set (value : Bool) (f : Flags) : Flag → Flags
  | ignoreCase => { f with ignoreCase := value }
  | multiLine => { f with multiLine := value }
  | dotAll => { f with dotAll := value }

end Flag

/-- Flags to be switched on, and flags to be switched off. -/
structure FlagChange where
  /-- the flags to switch on -/
  on : List Flag
  /-- the flags to switch off -/
  off : List Flag

namespace FlagChange

/-- The flags after a change. -/
def apply (c : FlagChange) (f : Flags) : Flags :=
  c.off.foldl (Flag.set false) (c.on.foldl (Flag.set true) f)

/-- Reads a change of flags, as in `is` or `i-s`: flags to switch on, and behind a hyphen at least
one flag to switch off. No flag occurs twice. -/
def ofText? (s : Text) : Option FlagChange := do
  let on ← (s.takeWhile (· ≠ '-')).mapM Flag.ofChar?
  let off ← ((s.dropWhile (· ≠ '-')).drop 1).mapM Flag.ofChar?
  if ('-' ∈ s ∧ off = []) ∨ ¬ (on ++ off).Nodup then none else some { on, off }

end FlagChange

/-! ## Tokens -/

/-- A token of a source. -/
inductive Token where
  /-- a character that stands for itself -/
  | literal (c : Char)
  /-- any character, as the flags have it -/
  | dot
  /-- the start of the text, or of a line -/
  | caret
  /-- the end of the text, or of a line -/
  | dollar
  /-- a set of characters -/
  | set (e : ClassExpr)
  /-- an assertion -/
  | assertion (a : Assertion)
  /-- the mark between alternatives -/
  | bar
  /-- the start of a group that captures, perhaps under a name -/
  | capture (name : Option Text)
  /-- the start of a group that changes flags for its contents -/
  | scope (change : FlagChange)
  /-- a change of flags up to the end of the enclosing group -/
  | flags (change : FlagChange)
  /-- the end of a group -/
  | close
  /-- a repetition of what stands before it -/
  | repetition (r : Repetition)

/-- Reads the mark that makes a repetition lazy. -/
def repetitionToken (min : Nat) (max : Option Nat) : Text → Token × Text
  | '?' :: s => (.repetition ⟨min, max, false⟩, s)
  | s => (.repetition ⟨min, max, true⟩, s)

/-- Whether a text can name a group: it starts with a letter or an underscore, and goes on with
these, numbers, dots and brackets. -/
def isGroupName : Text → Bool
  | [] => false
  | c :: s =>
    (c == '_' || Text.isAlphabetic c) &&
      s.all fun c => c == '_' || c == '.' || c == '[' || c == ']' || Text.isAlphanumeric c

/-- Reads the name of a group up to its closing angle bracket. -/
def groupName? (s : Text) : Option (Token × Text) :=
  match s.dropWhile (· ≠ '>') with
  | [] => none
  | _ :: rest =>
    let name := s.takeWhile (· ≠ '>')
    if isGroupName name then some (.capture (some name), rest) else none

/-- Reads a change of flags up to the colon or parenthesis behind it. -/
def flagChange? (s : Text) : Option (Token × Text) :=
  let letters := s.takeWhile fun c => c ≠ ':' ∧ c ≠ ')'
  match s.dropWhile fun c => c ≠ ':' ∧ c ≠ ')' with
  | ':' :: rest => (FlagChange.ofText? letters).map (.scope ·, rest)
  | ')' :: rest =>
    if letters.isEmpty then none else (FlagChange.ofText? letters).map (.flags ·, rest)
  | _ => none

/-- Reads what stands behind an opening parenthesis up to the contents of the group. -/
def group? : Text → Option (Token × Text)
  | '?' :: 'P' :: '<' :: s => groupName? s
  | '?' :: '<' :: s => groupName? s
  | '?' :: s => flagChange? s
  | s => some (.capture none, s)

/-- The token of an escape. -/
def Escape.toToken : Escape → Token
  | .literal c => .literal c
  | .set s => .set (.escaped s)
  | .assertion a => .assertion a

/-- Reads one token. There is none at the end of the text, or where the source is malformed. -/
def token? : Text → Option (Token × Text)
  | [] => none
  | '\\' :: s => (escape? s).map fun r => (r.1.toToken, r.2)
  | '.' :: s => some (.dot, s)
  | '^' :: s => some (.caret, s)
  | '$' :: s => some (.dollar, s)
  | '|' :: s => some (.bar, s)
  | '(' :: s => group? s
  | ')' :: s => some (.close, s)
  | '[' :: s => (bracket? s).map fun r => (.set r.1, r.2)
  | '*' :: s => some (repetitionToken 0 none s)
  | '+' :: s => some (repetitionToken 1 none s)
  | '?' :: s => some (repetitionToken 0 (some 1) s)
  | '\x7b' :: s => (bounds? s).map fun r => repetitionToken r.1.1 r.1.2 r.2
  | c :: s => some (.literal c, s)

/-- The tokens of a source that has at most as many of them as the first argument says. -/
def tokensUpTo : Nat → Text → Option (List Token)
  | _, [] => some []
  | 0, _ :: _ => none
  | n + 1, c :: s =>
    match token? (c :: s) with
    | none => none
    | some (t, rest) => (tokensUpTo n rest).map (t :: ·)

/-- The tokens of a source. Each token takes at least one character, so the length of the source
bounds the number of its tokens. -/
def tokens? (s : Text) : Option (List Token) :=
  tokensUpTo s.length s

end Descent.Regex
