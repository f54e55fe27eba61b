import Descent.Location
import Mathlib.Data.List.Induction

/-!
# Locations behind a text

The location behind a text can be computed at once (`Location.after`) or character by character
(`Location.step`). The two agree, so that a text may be passed in pieces, and no text leads back.

* `after_eq_foldl`: both ways to compute a location.
* `after_append`: a text in two pieces.
* `after_mono`: who starts behind stays behind.
* `after_le_of_sublist`: to leave characters out leads no further.
* `le_after`, `after_eq_self_iff`: no way back, and no way to stay but the empty text.
* `texts_act_on_locations`: all of this together.
-/

namespace Descent.Location

/-! ## Character by character -/

theorem lastLine_concat (s : Text) (c : Char) :
    Text.lastLine (s ++ [c]) = if c = '\n' then [] else Text.lastLine s ++ [c] := by
  unfold Text.lastLine
  rw [List.reverse_append, List.reverse_singleton, List.singleton_append, List.takeWhile_cons]
  by_cases hc : c = '\n' <;> simp [hc]

theorem after_concat (l : Location) (s : Text) (c : Char) :
    l.after (s ++ [c]) = (l.after s).step c := by
  unfold after step
  by_cases hc : c = '\n'
  · subst hc
    by_cases hs : '\n' ∈ s
    · simp [hs, lastLine_concat, Nat.add_assoc]
    · simp [hs, lastLine_concat, List.count_eq_zero_of_not_mem hs]
  · have hc' : ¬ '\n' = c := Ne.symm hc
    by_cases hs : '\n' ∈ s
    · simp [hs, hc, lastLine_concat]
    · simp [hs, hc, hc', Nat.add_assoc]

/-- A text moves a location one character at a time. -/
theorem after_eq_foldl (l : Location) (s : Text) : l.after s = s.foldl step l := by
  induction s using List.reverseRecOn with
  | nil => exact after_nil l
  | append_singleton s c ih =>
    rw [after_concat, ih, List.foldl_append, List.foldl_cons, List.foldl_nil]

/-- Two texts one after the other move a location as both together. -/
theorem after_append (l : Location) (s t : Text) : l.after (s ++ t) = (l.after s).after t := by
  rw [after_eq_foldl, after_eq_foldl, after_eq_foldl, List.foldl_append]

theorem after_cons (l : Location) (c : Char) (s : Text) :
    l.after (c :: s) = (l.step c).after s := by
  rw [after_eq_foldl, after_eq_foldl, List.foldl_cons]

/-! ## Forward -/

theorem lt_step (l : Location) (c : Char) : l < l.step c := by
  rw [lt_def]
  unfold step
  split <;> simp

theorem le_step (l : Location) (c : Char) : l ≤ l.step c := by
  have hlt : l < l.step c := l.lt_step c
  rw [lt_def] at hlt
  rw [le_def]
  omega

theorem step_mono {a b : Location} (h : a ≤ b) (c : Char) : a.step c ≤ b.step c := by
  rw [le_def] at h
  unfold step
  split <;> rw [le_def] <;> dsimp only <;> omega

/-- The same text keeps two locations in their order. -/
theorem after_mono {a b : Location} (h : a ≤ b) (s : Text) : a.after s ≤ b.after s := by
  induction s using List.reverseRecOn with
  | nil => rwa [after_nil, after_nil]
  | append_singleton s c ih =>
    rw [after_concat, after_concat]
    exact step_mono ih c

/-- To leave characters out leads no further, also where the column grows because a newline is
missing: the line is an earlier one then. -/
theorem after_le_of_sublist {s t : Text} (h : s.Sublist t) (l : Location) :
    l.after s ≤ l.after t := by
  induction h generalizing l with
  | slnil => exact le_refl _
  | @cons s t c _ ih =>
    -- whoever does not pass `c` starts behind, and stays behind
    have hbehind : l.after s ≤ (l.step c).after s := after_mono (le_step l c) s
    rw [after_cons]
    exact le_trans hbehind (ih (l.step c))
  | cons_cons c _ ih =>
    rw [after_cons, after_cons]
    exact ih (l.step c)

theorem le_after (l : Location) (s : Text) : l ≤ l.after s := by
  have h : l.after [] ≤ l.after s := after_le_of_sublist (List.nil_sublist s) l
  rwa [after_nil] at h

/-- To pass a character leads away for good. -/
theorem not_after_cons_le (l : Location) (c : Char) (s : Text) : ¬ l.after (c :: s) ≤ l := by
  have hstep : l < l.step c := l.lt_step c
  have hrest : l.step c ≤ (l.step c).after s := le_after _ s
  rw [after_cons, le_def]
  rw [lt_def] at hstep
  rw [le_def] at hrest
  omega

/-- To pass more of a text leads further. -/
theorem after_lt_of_prefix {a b : Text} (l : Location) (h : a <+: b) (hne : a ≠ b) :
    l.after a < l.after b := by
  obtain ⟨rest, rfl⟩ := h
  cases rest with
  | nil => exact absurd (List.append_nil a).symm hne
  | cons c rest =>
    rw [after_append, ← not_le]
    exact not_after_cons_le (l.after a) c rest

theorem after_eq_self_iff {l : Location} {s : Text} : l.after s = l ↔ s = [] := by
  constructor
  · intro h
    cases s with
    | nil => rfl
    | cons c s =>
      have hle : l.after (c :: s) ≤ l := by
        rw [h]
        exact le_refl l
      exact absurd hle (not_after_cons_le l c s)
  · rintro rfl
    exact after_nil l

/-- **Texts act on locations.** A text in two pieces leads where its pieces lead one after the
other, and so where its characters lead step by step. No text leads back, and only the empty one
leads nowhere. A text with some of its characters left out leads no further than all of it. -/
theorem texts_act_on_locations (l : Location) (a b : Text) :
    l.after (a ++ b) = (l.after a).after b ∧
    l.after a = a.foldl step l ∧
    (l ≤ l.after a ∧ (l.after a = l ↔ a = [])) ∧
    ∀ c : Text, c.Sublist a → l.after c ≤ l.after a := by
  refine ⟨after_append l a b, after_eq_foldl l a, ⟨le_after l a, after_eq_self_iff⟩, ?_⟩
  intro c hc
  exact after_le_of_sublist hc l

/-- Without its newline the text leads to a larger column, but on an earlier line. -/
theorem texts_act_on_locations_of_dropped_newline :
    let l : Location := ⟨4, 17⟩
    let a : Text := ['x', '\n', 'é', 'y']
    let c : Text := ['x', 'é', 'y']
    (l.after a = ⟨5, 3⟩ ∧ l.after (a ++ ['z']) = (l.after a).after ['z']) ∧
    c.Sublist a ∧ l.after c = ⟨4, 20⟩ ∧ l.after c ≤ l.after a := by
  intro l a c
  have hc : c.Sublist a := by decide
  obtain ⟨happend, -, -, hdrop⟩ := texts_act_on_locations l a ['z']
  exact ⟨⟨by decide, happend⟩, hc, by decide, hdrop c hc⟩

end Descent.Location
