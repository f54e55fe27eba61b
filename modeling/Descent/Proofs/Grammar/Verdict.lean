import Descent.Proofs.Grammar.Contract
import Descent.Proofs.Grammar.Whole
import Descent.Proofs.Report.Place

/-!
# Verdicts on whole texts

There are four verdicts on a whole text: a value, something left over, something expected, no match. Which
one it is can be read off the reply of the parser, and the place of an error is always a place of the
text. The two ways to find it need different reasons. What is left over is an end of the text, so the
place is where it begins, however far the location has run ahead by then. A failure is placed by that
location, and the scan for it stops at the end of the text at the latest.

* `ParsesTo.place_behind`: every error is placed behind some front part of the text.
* `whole_texts_are_classified`: the verdict for each reply, with its place.
-/

namespace Descent.Grammar

variable {rules : Rules} {g : Grammar Regex.Program} {input : Text}

/-- What is left over begins behind what was consumed. -/
theorem Replies.exists_consumed {r : Reply Location Value}
    (h : g.Replies rules none Location.start input r) : ∃ c, input = c ++ r.outcome.rest := by
  obtain ⟨depth, hr⟩ := h
  obtain ⟨c, hc⟩ := g.parser_leavesSuffix rules depth none hr
  exact ⟨c, hc.symm⟩

/-- The place of an error is in the text that was given, behind some front part of it. -/
theorem ParsesTo.place_behind {e : ParseError} (h : g.ParsesTo rules input (.error e)) :
    e.place.code = input ∧ ∃ a, e.place.Behind a := by
  obtain ⟨r, hr, hfinish⟩ := h
  cases e with
  | expected m place =>
    obtain ⟨-, rfl⟩ := Reply.finish_eq_expected_iff.mp hfinish
    exact ⟨rfl, Place.behind_ofLocation input r.clock⟩
  | noMatch place =>
    obtain ⟨-, rfl⟩ := Reply.finish_eq_noMatch_iff.mp hfinish
    exact ⟨rfl, Place.behind_ofLocation input r.clock⟩
  | trailingInput place =>
    obtain ⟨v, rest, ho, -, rfl⟩ := Reply.finish_eq_trailingInput_iff.mp hfinish
    obtain ⟨c, hc⟩ := hr.exists_consumed
    rw [ho] at hc
    subst hc
    exact ⟨rfl, c, Place.behind_ofRest c rest⟩

/-- **The verdict on a whole text.** A value is found if and only if the reply is a success that leaves
nothing. Input is trailing if and only if it is a success that leaves something, and then the place is
behind the consumed text, whatever the clock shows. A failure is reported with its message if it has one,
and as no match if it has none. Every error is placed between two characters of the text or at one of its
ends, and shows the location of that place. -/
theorem whole_texts_are_classified {r : Reply Location Value}
    (h : g.Replies rules none Location.start input r) :
    (∀ v, g.ParsesTo rules input (.ok v) ↔ r.outcome = .success v []) ∧
    (((∃ place, g.ParsesTo rules input (.error (.trailingInput place))) ↔
        ∃ v rest, r.outcome = .success v rest ∧ rest ≠ []) ∧
      ∀ place, g.ParsesTo rules input (.error (.trailingInput place)) →
        ∃ v c rest, r.outcome = .success v rest ∧ input = c ++ rest ∧
          place.offset = c.byteLength ∧ place.location = Location.start.after c) ∧
    (∀ m, (∃ place, g.ParsesTo rules input (.error (.expected m place))) ↔
      ∃ rest, r.outcome = .failure rest (some m)) ∧
    ((∃ place, g.ParsesTo rules input (.error (.noMatch place))) ↔
      ∃ rest, r.outcome = .failure rest none) ∧
    ∀ e, g.ParsesTo rules input (.error e) → e.place.code = input ∧
      e.place.offset ≤ input.byteLength ∧
      ∃ a, input.bytePrefix? e.place.offset = some a ∧ e.location = Location.start.after a := by
  refine ⟨fun v => h.parsesTo_iff.trans Reply.finish_eq_ok_iff, ⟨?_, ?_⟩, fun m => ?_, ?_, ?_⟩
  · simp only [h.parsesTo_iff, Reply.finish_eq_trailingInput_iff]
    constructor
    · rintro ⟨place, v, rest, ho, hrest, -⟩
      exact ⟨v, rest, ho, hrest⟩
    · rintro ⟨v, rest, ho, hrest⟩
      exact ⟨_, v, rest, ho, hrest, rfl⟩
  · intro place hplace
    obtain ⟨v, rest, ho, -, rfl⟩ := Reply.finish_eq_trailingInput_iff.mp (h.parsesTo_iff.mp hplace)
    obtain ⟨c, hc⟩ := h.exists_consumed
    rw [ho] at hc
    subst hc
    have hbehind : (Place.ofRest (c ++ rest) rest).Behind c := Place.behind_ofRest c rest
    exact ⟨v, c, rest, ho, rfl, hbehind.offset, hbehind.location⟩
  · simp only [h.parsesTo_iff, Reply.finish_eq_expected_iff, exists_and_left, exists_eq, and_true]
  · simp only [h.parsesTo_iff, Reply.finish_eq_noMatch_iff, exists_and_left, exists_eq, and_true]
  · intro e he
    obtain ⟨hcode, a, hbehind⟩ := he.place_behind
    have hfront := hbehind.bytePrefix?
    have hle := hbehind.offset_le
    rw [hcode] at hfront hle
    exact ⟨hcode, hle, a, hfront, hbehind.location⟩

/-- The first line is read twice, and the clock shows the third line although only the second one is left
over. -/
theorem whole_texts_are_classified_of_backtracking :
    let line : Text := ['é', '\n']
    let g : Grammar Regex.Program := choice [seq [literal line, literal ['b']], literal line]
    let place : Place := ⟨line ++ ['c'], 3⟩
    g.Replies {} none Location.start (line ++ ['c']) ⟨.success (.str line) ['c'], ⟨3, 1⟩⟩ ∧
    g.ParsesTo {} (line ++ ['c']) (.error (.trailingInput place)) ∧
    ∃ a, (line ++ ['c']).bytePrefix? 3 = some a ∧ place.location = Location.start.after a := by
  intro line g place
  have h : g.Replies {} none Location.start (line ++ ['c'])
      ⟨.success (.str line) ['c'], ⟨3, 1⟩⟩ := ⟨0, by rfl⟩
  have hparse : g.ParsesTo {} (line ++ ['c']) (.error (.trailingInput place)) := ⟨_, h, by rfl⟩
  exact ⟨h, hparse, ((whole_texts_are_classified h).2.2.2.2 _ hparse).2.2⟩

end Descent.Grammar
