import Descent.Proofs.Location.After
import Descent.Report

/-!
# Places and locations

An error is placed where a parser had counted to. If the location that it counted is that of a place in
the text, then this place is found again, and the error shows the location that was counted.

Whatever location was counted, the place that is found is the end of some front part of the text: it may
not be the location's own, but it never lies inside a character or behind the end.

* `Place.offsetOf_spec`: where the scan for a location stops.
* `Place.offsetOf_after`: the offset that is found for the location behind a prefix.
* `Place.location_ofLocation`: the location of the place that is found.
* `Place.behind_ofLocation`, `Place.behind_ofRest`: the places that are found are ends of front parts.
-/

namespace Descent.Place

/-! ## Ends of front parts -/

/-- The place is the one behind the front part `a` of its text. -/
structure Behind (p : Place) (a : Text) : Prop where
  front : a <+: p.code
  offset : p.offset = a.byteLength

namespace Behind

variable {p : Place} {a : Text}

theorem bytePrefix? (h : p.Behind a) : p.code.bytePrefix? p.offset = some a := by
  obtain ⟨b, hb⟩ := h.front
  rw [h.offset, ← hb]
  exact Text.bytePrefix?_append a b

theorem offset_le (h : p.Behind a) : p.offset ≤ p.code.byteLength := by
  obtain ⟨b, hb⟩ := h.front
  rw [h.offset, ← hb, Text.byteLength_append]
  omega

theorem location (h : p.Behind a) : p.location = Location.start.after a := by
  rw [Place.location, h.bytePrefix?, Option.getD_some]

end Behind

theorem behind_ofRest (a rest : Text) : (ofRest (a ++ rest) rest).Behind a := by
  refine ⟨List.prefix_append a rest, ?_⟩
  show (a ++ rest).byteLength - rest.byteLength = a.byteLength
  rw [Text.byteLength_append]
  omega

/-! ## Places of locations -/

/-- The scan stops behind the first front part that reaches the target, or at the end of the text. -/
theorem offsetOf_spec (target l : Location) (s : Text) :
    ∃ a b, s = a ++ b ∧ offsetOf target l s = a.byteLength ∧
      (∀ x, x <+: a → x ≠ a → ¬ target ≤ l.after x) ∧ (target ≤ l.after a ∨ b = []) := by
  induction s generalizing l with
  | nil =>
    refine ⟨[], [], rfl, rfl, ?_, .inr rfl⟩
    intro x hx hne
    exact absurd (List.prefix_nil.mp hx) hne
  | cons c s ih =>
    by_cases hstop : target ≤ l
    · refine ⟨[], c :: s, rfl, if_pos hstop, ?_, .inl ?_⟩
      · intro x hx hne
        exact absurd (List.prefix_nil.mp hx) hne
      · rwa [Location.after_nil]
    · obtain ⟨a, b, rfl, hoffset, hbefore, hend⟩ := ih (l.step c)
      refine ⟨c :: a, b, rfl, ?_, ?_, ?_⟩
      · rw [offsetOf, if_neg hstop, hoffset, Text.byteLength_cons]
      · intro x hx hne
        cases x with
        | nil => rwa [Location.after_nil]
        | cons d x =>
          obtain ⟨rfl, hxa⟩ := List.cons_prefix_cons.mp hx
          rw [Location.after_cons]
          exact hbefore x hxa fun heq => hne (congrArg (d :: ·) heq)
      · rwa [Location.after_cons]

theorem behind_ofLocation (code : Text) (target : Location) :
    ∃ a, (ofLocation code target).Behind a := by
  obtain ⟨a, b, hcode, hoffset, -, -⟩ := offsetOf_spec target .start code
  exact ⟨a, ⟨b, hcode.symm⟩, hoffset⟩

theorem offsetOf_after (l : Location) (s t : Text) : offsetOf (l.after s) l (s ++ t) = s.byteLength := by
  induction s generalizing l with
  | nil =>
    rw [Location.after_nil]
    cases t with
    | nil => rfl
    | cons c t => exact if_pos (Location.le_refl l)
  | cons c s ih =>
    have hnext : ¬ l.after (c :: s) ≤ l := l.not_after_cons_le c s
    rw [List.cons_append, offsetOf, if_neg hnext, Location.after_cons, ih, Text.byteLength_cons]

theorem location_ofLocation (s t : Text) :
    (ofLocation (s ++ t) (Location.start.after s)).location = Location.start.after s := by
  have hoffset : offsetOf (Location.start.after s) .start (s ++ t) = s.byteLength :=
    offsetOf_after .start s t
  rw [ofLocation, location, hoffset, Text.bytePrefix?_append, Option.getD_some]

end Descent.Place
