import Descent.Proofs.Location.After
import Mathlib.Data.List.Intervals

/-!
# The lines of a text

The lines of a text are what stands between its newlines. A cut through the text goes through one
line: the last line of the front part and the first line of the other one are joined there, and all
other lines stay as they are (`lines_append`). The location behind a text counts its lines and the
characters of the last one (`start_after`).

* `lines_eq_splitOn`: lines by the library's own way to split a list.
* `zipIdx_lines`: the numbered lines, from the first number to the last one.
-/

namespace Descent

namespace Text

theorem lines_eq_splitOn (s : Text) : s.lines = s.splitOn '\n' := by
  induction s with
  | nil => rfl
  | cons c s ih =>
    obtain ⟨line, rest, hs⟩ := List.exists_cons_of_ne_nil (lines_ne_nil s)
    have hsplit : s.splitOnP (· == '\n') = line :: rest := by
      rw [← List.splitOn_eq_splitOnP, ← ih, hs]
    rw [lines, List.splitOn_eq_splitOnP, List.splitOnP_cons_eq_if_modifyHead, hs, hsplit]
    by_cases hc : c = '\n' <;> simp [hc]

/-- The part of a text before its first newline; all of it if it has none. -/
def firstLine (s : Text) : Text :=
  s.takeWhile (· ≠ '\n')

theorem firstLine_newline (s : Text) : firstLine ('\n' :: s) = [] := by
  simp [firstLine]

theorem firstLine_cons {c : Char} (hc : c ≠ '\n') (s : Text) :
    firstLine (c :: s) = c :: firstLine s := by
  simp [firstLine, hc]

theorem lines_eq_cons (s : Text) : s.lines = s.firstLine :: s.lines.tail := by
  induction s with
  | nil => rfl
  | cons c s ih =>
    by_cases hc : c = '\n'
    · subst hc
      rw [firstLine_newline, lines, if_pos rfl, List.tail_cons]
    · rw [firstLine_cons hc, lines, if_neg hc, ih, List.tail_cons]

/-- A cut goes through one line. Above it stand as many lines as there are newlines in front. -/
theorem lines_append (a b : Text) :
    ∃ above : List Text, above.length = a.count '\n' ∧
      (a ++ b).lines = above ++ (lastLine a ++ firstLine b) :: b.lines.tail := by
  induction a using List.reverseRecOn generalizing b with
  | nil => exact ⟨[], rfl, lines_eq_cons b⟩
  | append_singleton a c ih =>
    obtain ⟨above, hcount, hlines⟩ := ih (c :: b)
    rw [List.append_assoc, List.singleton_append, hlines, Location.lastLine_concat]
    by_cases hc : c = '\n'
    · subst hc
      refine ⟨above ++ [lastLine a], by simp [hcount], ?_⟩
      rw [if_pos rfl, firstLine_newline, lines, if_pos rfl, List.tail_cons, lines_eq_cons b]
      simp
    · refine ⟨above, by simp [hcount, hc], ?_⟩
      rw [if_neg hc, firstLine_cons hc, lines, if_neg hc, lines_eq_cons b]
      simp

theorem length_lines (s : Text) : s.lines.length = s.count '\n' + 1 := by
  obtain ⟨above, hcount, hlines⟩ := lines_append s []
  rw [List.append_nil] at hlines
  rw [hlines, List.length_append, hcount]
  rfl

/-- The line with the number `i`, counted from one. -/
def line (s : Text) (i : Nat) : Text :=
  s.lines.getD (i - 1) []

/-- The line on which two texts meet has the last line of the one and the first line of the other.
-/
theorem line_append (a b : Text) :
    line (a ++ b) (a.count '\n' + 1) = lastLine a ++ firstLine b := by
  obtain ⟨above, hcount, hlines⟩ := lines_append a b
  rw [line, hlines, Nat.add_sub_cancel, ← hcount]
  simp

theorem zipIdx_lines (s : Text) :
    s.lines.zipIdx 1 = (List.Ico 1 (s.lines.length + 1)).map fun i => (s.line i, i) := by
  apply List.ext_getElem
  · simp
  · intro i hi _
    have hlen : i < s.lines.length := by simpa using hi
    simp [line, List.Ico, hlen]

end Text

theorem Location.start_after (a : Text) :
    start.after a = ⟨a.count '\n' + 1, (Text.lastLine a).length + 1⟩ := by
  induction a using List.reverseRecOn with
  | nil => rfl
  | append_singleton a c ih =>
    rw [after_concat, ih, lastLine_concat, step]
    by_cases hc : c = '\n'
    · subst hc
      simp
    · simp [hc]

end Descent
