import Descent.Parser.Basic

/-!
# Choices

Ordered choice: the first alternative that succeeds is taken, and the ones behind it are not tried.
All alternatives see the same text, but the clock goes on from one to the next.
-/

namespace Descent.Parser

variable {κ α : Type}

/-- The first of the alternatives that succeeds. If none does, this is a failure without a
message. -/
def choice : List (Parser κ α) → Parser κ α
  | [] => fail
  | p :: ps => fun k s =>
    match p k s with
    | some ⟨.failure _ _, k⟩ => choice ps k s
    | reply => reply

/-- What `p` finds, or nothing where `p` fails. -/
def opt (p : Parser κ α) : Parser κ (Option α) :=
  fun k s =>
    match p k s with
    | none => none
    | some ⟨.success value rest, k⟩ => some ⟨.success (some value) rest, k⟩
    | some ⟨.failure _ _, k⟩ => some ⟨.success none s, k⟩

end Descent.Parser
