import Descent.Parser.Basic
import Descent.Value

/-!
# Sequences

Parsers whose parts match one after the other. Any part may fail, and then the whole sequence does,
with the message of that part. The sequences differ in what they keep: all values, the values of
some parts under names, or the value of the part in the middle.
-/

namespace Descent.Parser

variable {κ α β γ : Type}

/-- All parts one after the other, with the list of their values. -/
def seq : List (Parser κ α) → Parser κ (List α)
  | [] => succeed []
  | p :: ps => p.andThen fun value => map (value :: ·) (seq ps)

/-- Continues a record with further parts. -/
def recordFrom (captured : Fields α) : List (Option String × Parser κ α) → Parser κ (Fields α)
  | [] => succeed captured
  | (some key, p) :: parts => p.andThen fun value => recordFrom (captured.put key value) parts
  | (none, p) :: parts => p.andThen fun _ => recordFrom captured parts

/-- All parts one after the other. The values of the parts with a key are the fields of a record,
ordered by key; of parts with the same key the last one counts. -/
def record (parts : List (Option String × Parser κ α)) : Parser κ (Fields α) :=
  recordFrom [] parts

/-- `inner` between `left` and `right`, with the value of `inner`. -/
def between (left : Parser κ α) (right : Parser κ γ) (inner : Parser κ β) : Parser κ β :=
  left.andThen fun _ => inner.andThen fun value => map (fun _ => value) right

end Descent.Parser
