import Descent.Proofs.Grammar.Simulation
import Descent.Report

/-!
# Texts that are parsed as a whole

A text is parsed as a whole from its start, with nothing wrapped, and nothing may be left over. The
result is a value or an error, and each of the two says what the reply of the parser was.
-/

namespace Descent

namespace Reply

variable {α : Type} {r : Reply Location α} {input : Text}

theorem finish_eq_ok_iff {v : α} : r.finish input = .ok v ↔ r.outcome = .success v [] := by
  obtain ⟨⟨u, _ | ⟨c, rest⟩⟩ | ⟨rest, _ | m⟩, k⟩ := r <;> simp [finish]

theorem finish_eq_expected_iff {m : Text} {place : Place} :
    r.finish input = .error (.expected m place) ↔
      (∃ rest, r.outcome = .failure rest (some m)) ∧ place = .ofLocation input r.clock := by
  obtain ⟨⟨u, _ | ⟨c, rest⟩⟩ | ⟨rest, _ | m'⟩, k⟩ := r <;> simp [finish, eq_comm]

theorem finish_eq_noMatch_iff {place : Place} :
    r.finish input = .error (.noMatch place) ↔
      (∃ rest, r.outcome = .failure rest none) ∧ place = .ofLocation input r.clock := by
  obtain ⟨⟨u, _ | ⟨c, rest⟩⟩ | ⟨rest, _ | m'⟩, k⟩ := r <;> simp [finish, eq_comm]

/-- The place of trailing input is found from what is left and not from the clock. -/
theorem finish_eq_trailingInput_iff {place : Place} :
    r.finish input = .error (.trailingInput place) ↔
      ∃ v rest, r.outcome = .success v rest ∧ rest ≠ [] ∧ place = .ofRest input rest := by
  obtain ⟨⟨u, _ | ⟨c, rest⟩⟩ | ⟨rest, _ | m'⟩, k⟩ := r <;> simp [finish, eq_comm]

end Reply

namespace Grammar

/-- The result of `g` for the whole of a text. -/
def ParsesTo (rules : Rules) (g : Grammar Regex.Program) (input : Text)
    (result : Except ParseError Value) : Prop :=
  ∃ r, g.Replies rules none Location.start input r ∧ r.finish input = result

variable {rules : Rules} {g : Grammar Regex.Program} {input : Text}

theorem ParsesTo.unique {result result' : Except ParseError Value}
    (h : g.ParsesTo rules input result) (h' : g.ParsesTo rules input result') :
    result = result' := by
  obtain ⟨r, hr, rfl⟩ := h
  obtain ⟨r', hr', rfl⟩ := h'
  rw [hr.unique hr']

/-- Where the reply is known, so is the result. -/
theorem Replies.parsesTo_iff {r : Reply Location Value}
    (h : g.Replies rules none Location.start input r) {result : Except ParseError Value} :
    g.ParsesTo rules input result ↔ r.finish input = result := by
  refine ⟨?_, fun hfinish => ⟨r, h, hfinish⟩⟩
  rintro ⟨r', hr', hfinish⟩
  rwa [h.unique hr']

end Grammar

end Descent
