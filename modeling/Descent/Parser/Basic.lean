import Descent.Clock
import Descent.Outcome

/-!
# Parsers

A parser gets a text and a clock, which shows where the text stands, and answers with an outcome and
the clock as it is then. The clock only ever counts: it is moved by every match, also by one that
turns out to be useless, and it is never moved back. A parser may also give no answer, when it uses
references to other parsers more deeply than it is allowed to.

The parsers here take one part each. Two things can happen to the failure of a part: some parsers
hand it on untouched (`map`, `filter`), the others give back what they consumed, so that the rest of
the failure is their own input (`andThen`, `tryMap`); the message is kept in both cases.
-/

namespace Descent

/-- An answer of a parser: what it found, and the clock by then. -/
structure Reply (κ α : Type) where
  /-- what was found -/
  outcome : Outcome α
  /-- the clock after the parser -/
  clock : κ
  deriving DecidableEq

namespace Reply

variable {κ α β : Type}

/-- Applies `f` to the value, if there is one. -/
def map (f : α → β) (r : Reply κ α) : Reply κ β :=
  ⟨r.outcome.map f, r.clock⟩

/-- The answer of a parser that was given `input`, of which this reply answers the last part: on
failure everything is given back. -/
def rewind (input : Text) (r : Reply κ α) : Reply κ α :=
  match r.outcome with
  | .success _ _ => r
  | failed => ⟨failed.failAt input, r.clock⟩

end Reply

/-- A parser with values in `α` and a clock in `κ`. -/
abbrev Parser (κ α : Type) := κ → Text → Option (Reply κ α)

namespace Parser

variable {κ α β : Type}

/-- Finds `value` without consuming anything. -/
def succeed (value : α) : Parser κ α :=
  fun k s => some ⟨.success value s, k⟩

/-- Finds nothing. -/
def fail : Parser κ α :=
  fun k s => some ⟨.failure s none, k⟩

/-- Applies `f` to what `p` finds. -/
def map (f : α → β) (p : Parser κ α) : Parser κ β :=
  fun k s => (p k s).map (Reply.map f)

/-- Goes on with the parser that `f` gives for what `p` finds. If either of the two fails,
everything is given back and the message is kept. -/
def andThen (p : Parser κ α) (f : α → Parser κ β) : Parser κ β :=
  fun k s =>
    match p k s with
    | none => none
    | some ⟨.success value rest, k⟩ => (f value k rest).map (Reply.rewind s)
    | some ⟨failed, k⟩ => some ⟨failed.failAt s, k⟩

/-- Finds what `f` gives for what `p` finds. If `f` refuses, this is a failure without a message
that gives everything back. -/
def tryMap (f : α → Option β) (p : Parser κ α) : Parser κ β :=
  p.andThen fun value =>
    match f value with
    | some found => succeed found
    | none => fail

/-- Finds what `p` finds, provided that it meets a condition. Otherwise this is a failure without a
message that gives everything back. -/
def filter (condition : α → Bool) (p : Parser κ α) : Parser κ α :=
  fun k s =>
    match p k s with
    | some ⟨.success value rest, k⟩ =>
      if condition value then some ⟨.success value rest, k⟩ else some ⟨.failure s none, k⟩
    | reply => reply

end Parser

end Descent
