import Descent.Parser.Basic
import Descent.Span

/-!
# Diagnostics and places

Parsers that tell where they are: `expect` says what was expected where its part fails, `span` adds
the place of what was found. `window` shows its part only the front of the text.
-/

namespace Descent.Parser

variable {κ α : Type}

/-! ## Messages -/

/-- How many characters of the text a message shows. -/
def previewLength : Nat := 20

/-- The front of a text, as a message shows it. -/
def preview (s : Text) : Text :=
  if s.length ≤ previewLength then s else s.take previewLength ++ "...".toList

/-- The message that something was expected at a location where `input` stands. -/
def expectation (l : Location) (description input : Text) : Text :=
  "[".toList ++ l.display ++ "]: Expected ".toList ++ description ++ ", got \"".toList ++
    preview input ++ "\"".toList

/-- Where `p` fails, says what was expected. The location is the one after `p`, the text shown is
the one that `p` was given. -/
def expect [Clock κ] (description : Text) (p : Parser κ α) : Parser κ α :=
  fun k s =>
    match p k s with
    | some ⟨.failure _ _, k⟩ =>
      some ⟨.failure s (some (expectation (Clock.location k) description s)), k⟩
    | reply => reply

/-! ## Places -/

/-- What stands in front of `rest`, which is the end of `s`. -/
def consumed (s rest : Text) : Text :=
  s.take (s.length - rest.length)

/-- What `p` finds, with its span: the locations before and after `p`, and the text that `p`
consumed. -/
def span [Clock κ] (p : Parser κ α) : Parser κ (α × Span) :=
  fun k s => (p k s).map fun r =>
    r.map (·, ⟨Clock.location k, Clock.location r.clock, consumed s r.outcome.rest⟩)

/-- Lets `p` see only the first `n` characters. What `p` leaves of them is left in front of the
remaining text. -/
def window (n : Nat) (p : Parser κ α) : Parser κ α :=
  fun k s =>
    match p k (s.take n) with
    | none => none
    | some ⟨.success value rest, k⟩ =>
      some ⟨.success value (s.drop ((s.take n).length - rest.length)), k⟩
    | some ⟨failed, k⟩ => some ⟨failed.failAt s, k⟩

end Descent.Parser
