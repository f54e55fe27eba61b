import Descent.Proofs.Report.Boundary
import Descent.Proofs.Text.Lines

/-!
# What the report of an error shows

The report of an error shows the line of its place and up to two lines on each side of it, as far as
the text has them, with the pointer below the line of the place. The place cuts the text in two, and
its line with it: in front of the cut stands the last line of the first part, which is as long as the
column says, and behind it the first line of the second part. So the pointer is below the first
character of the second part, or behind the end of the line if there is none left on it.

An offset that is no boundary stands for the end of the text, and the pointer is behind the last line.

* `Place.contextLines_eq`: which lines are shown.
* `Place.exists_marked_front`: what of the marked line stands in front of the pointer.
* `report_points_at_place`: both for one place.
-/

namespace Descent.Place

/-! ## The lines that are shown -/

/-- Line `i`, as it is shown above and below the line of a place. -/
def plainLine (code : Text) (i : Nat) : Text :=
  "    ".toList ++ Text.decimal i ++ " | ".toList ++ code.line i

/-- Line `i`, as it is shown if it is the line of the place. -/
def markedLine (code : Text) (i : Nat) : Text :=
  "  > ".toList ++ Text.decimal i ++ " | ".toList ++ code.line i

theorem contextLine_far {here : Location} {i : Nat}
    (h : i + contextSize < here.line ∨ here.line + contextSize < i) (line : Text) :
    contextLine here i line = [] :=
  if_pos h

theorem contextLine_near {here : Location} {i : Nat} (code : Text) (hne : i ≠ here.line)
    (hlow : here.line ≤ i + contextSize) (hhigh : i ≤ here.line + contextSize) :
    contextLine here i (code.line i) = [plainLine code i] := by
  rw [contextLine, if_neg (by omega), if_neg hne]
  rfl

theorem contextLine_here (code : Text) (here : Location) :
    contextLine here here.line (code.line here.line) =
      [markedLine code here.line, pointer (margin true here.line) here.col] := by
  rw [contextLine, if_neg (by omega), if_pos rfl]
  rfl

/-- A list for each number up to `n`, where only the numbers from `first` to `last` have anything, and
all of them but `here` a single entry. -/
theorem flatMap_window {α : Type} {f : Nat → List α} {g : Nat → α} {first here last n : Nat}
    (hfirst : 1 ≤ first) (hhere : first ≤ here) (hlast : here ≤ last) (hn : last ≤ n)
    (hbefore : ∀ i, 1 ≤ i → i < first → f i = []) (hbehind : ∀ i, last < i → i ≤ n → f i = [])
    (hnear : ∀ i, first ≤ i → i ≤ last → i ≠ here → f i = [g i]) :
    (List.Ico 1 (n + 1)).flatMap f =
      (List.Ico first here).map g ++ f here ++ (List.Ico (here + 1) (last + 1)).map g := by
  have hcut : List.Ico 1 (n + 1) = List.Ico 1 first ++ (List.Ico first here ++ here ::
      (List.Ico (here + 1) (last + 1) ++ List.Ico (last + 1) (n + 1))) := by
    rw [List.Ico.append_consecutive (by omega) (by omega), ← List.Ico.eq_cons (by omega),
      List.Ico.append_consecutive hhere (by omega), List.Ico.append_consecutive hfirst (by omega)]
  have hfront : (List.Ico 1 first).flatMap f = [] := by
    apply List.flatMap_eq_nil_iff.mpr
    intro i hi
    have hmem := List.Ico.mem.mp hi
    exact hbefore i hmem.1 hmem.2
  have hback : (List.Ico (last + 1) (n + 1)).flatMap f = [] := by
    apply List.flatMap_eq_nil_iff.mpr
    intro i hi
    have hmem := List.Ico.mem.mp hi
    exact hbehind i (by omega) (by omega)
  have habove : (List.Ico first here).flatMap f = (List.Ico first here).map g := by
    rw [List.map_eq_flatMap]
    apply List.flatMap_congr
    intro i hi
    have hmem := List.Ico.mem.mp hi
    exact hnear i hmem.1 (by omega) (by omega)
  have hbelow : (List.Ico (here + 1) (last + 1)).flatMap f =
      (List.Ico (here + 1) (last + 1)).map g := by
    rw [List.map_eq_flatMap]
    apply List.flatMap_congr
    intro i hi
    have hmem := List.Ico.mem.mp hi
    exact hnear i (by omega) (by omega) (by omega)
  rw [hcut, List.flatMap_append, List.flatMap_append, List.flatMap_cons, List.flatMap_append, hfront,
    habove, hbelow, hback, List.nil_append, List.append_nil, List.append_assoc]

/-- Two lines in front and two behind, as far as there are any. -/
theorem contextLines_eq (p : Place) (hpos : 1 ≤ p.location.line)
    (hle : p.location.line ≤ p.code.lines.length) :
    p.contextLines =
      (List.Ico (max 1 (p.location.line - 2)) p.location.line).map (plainLine p.code) ++
        [markedLine p.code p.location.line,
          pointer (margin true p.location.line) p.location.col] ++
        (List.Ico (p.location.line + 1) (min p.code.lines.length (p.location.line + 2) + 1)).map
          (plainLine p.code) := by
  have hsize : contextSize = 2 := rfl
  rw [contextLines, Text.zipIdx_lines, List.flatMap_map, ← contextLine_here]
  apply flatMap_window
  · omega
  · omega
  · omega
  · omega
  · intro i hi hfirst
    exact contextLine_far (.inl (by omega)) _
  · intro i hlast hi
    exact contextLine_far (.inr (by omega)) _
  · intro i hfirst hlast hne
    exact contextLine_near p.code hne (by omega) (by omega)

/-! ## The pointer -/

/-- Every place cuts its text somewhere, and its location is that of the cut. -/
theorem exists_cut (p : Place) : ∃ a b, p.code = a ++ b ∧ p.location = Location.start.after a ∧
    (p.code.IsBoundary p.offset → p.offset = a.byteLength) ∧
    (¬ p.code.IsBoundary p.offset → b = []) := by
  by_cases h : p.code.IsBoundary p.offset
  · obtain ⟨a, ⟨b, hb⟩, ho⟩ := h
    have hplace : p.Behind a := ⟨⟨b, hb⟩, ho⟩
    exact ⟨a, b, hb.symm, hplace.location, fun _ => ho, fun hnot => absurd ⟨a, ⟨b, hb⟩, ho⟩ hnot⟩
  · have hnone : p.code.bytePrefix? p.offset = none := by
      rw [Text.isBoundary_iff_isSome] at h
      exact Option.not_isSome_iff_eq_none.mp h
    refine ⟨p.code, [], (List.append_nil _).symm, ?_, fun hb => absurd hb h, fun _ => rfl⟩
    rw [location, hnone, Option.getD_none]

/-- The pointer is below the place of the cut: what stands behind it on the marked line is the first
line of the second part. -/
theorem exists_marked_front {p : Place} {a b : Text} (hcode : p.code = a ++ b)
    (hlocation : p.location = Location.start.after a) :
    ∃ front : Text, markedLine p.code p.location.line = front ++ b.firstLine ∧
      pointer (margin true p.location.line) p.location.col =
        List.replicate front.length ' ' ++ "^--- here".toList := by
  rw [Location.start_after] at hlocation
  have hline : p.code.line p.location.line = Text.lastLine a ++ b.firstLine := by
    rw [hlocation, hcode]
    exact Text.line_append a b
  refine ⟨margin true p.location.line ++ Text.lastLine a, ?_, ?_⟩
  · rw [List.append_assoc, ← hline]
    rfl
  · have hlength : (margin true p.location.line ++ Text.lastLine a).length =
        (margin true p.location.line).length + p.location.col - 1 := by
      rw [hlocation, List.length_append]
      rfl
    rw [hlength]
    rfl

/-- **The report points at the right character.** The lines that are shown are those from two above the
line of the place to two below it, as far as there are any, in order. The line of the place alone is
marked, and the pointer stands directly below it, `k` characters from the left. If the offset is a
boundary, then the `k`-th character of the marked line is the one at the offset, or the marked line
ends there and the offset is that of a newline or the end of the text. For any other offset it is the
end of the last line. -/
theorem report_points_at_place (p : Place) :
    let here := p.location
    let count := p.code.lines.length
    let marked := markedLine p.code here.line
    p.code.lines = p.code.splitOn '\n' ∧ (1 ≤ here.line ∧ here.line ≤ count) ∧
    ∃ k,
      p.contextLines =
        (List.Ico (max 1 (here.line - 2)) here.line).map (plainLine p.code) ++
          [marked, List.replicate k ' ' ++ "^--- here".toList] ++
          (List.Ico (here.line + 1) (min count (here.line + 2) + 1)).map (plainLine p.code) ∧
      (∀ a b, p.code = a ++ b → p.offset = a.byteLength →
        (∀ c rest, b = c :: rest → c ≠ '\n' → marked[k]? = some c) ∧
        (b = [] ∨ (∃ rest, b = '\n' :: rest) → k = marked.length)) ∧
      (¬ p.code.IsBoundary p.offset → here.line = count ∧ k = marked.length) := by
  intro here count marked
  obtain ⟨a, b, hcode, hlocation, hboundary, hend⟩ := p.exists_cut
  obtain ⟨front, hmarked, hpointer⟩ := exists_marked_front hcode hlocation
  have hline : here.line = a.count '\n' + 1 := by
    show p.location.line = _
    rw [hlocation, Location.start_after]
  have hcount : count = a.count '\n' + b.count '\n' + 1 := by
    show p.code.lines.length = _
    rw [Text.length_lines, hcode, List.count_append]
  have hpos : 1 ≤ here.line := by omega
  have hle : here.line ≤ count := by omega
  -- the marked line ends at the pointer if the second part begins with no character of it
  have hlength : b.firstLine = [] → front.length = marked.length := by
    intro hfirst
    rw [hfirst, List.append_nil] at hmarked
    exact congrArg List.length hmarked.symm
  refine ⟨Text.lines_eq_splitOn p.code, ⟨hpos, hle⟩, front.length, ?_, ?_, ?_⟩
  · rw [contextLines_eq p hpos hle, hpointer]
  · intro x y hxy hx
    have ha : p.offset = a.byteLength := hboundary ⟨x, ⟨y, hxy.symm⟩, hx⟩
    obtain ⟨rfl, rfl⟩ := Text.append_inj_of_byteLength (hcode.symm.trans hxy) (ha.symm.trans hx)
    refine ⟨?_, ?_⟩
    · rintro c rest rfl hc
      rw [Text.firstLine_cons hc] at hmarked
      show (markedLine p.code p.location.line)[front.length]? = some c
      rw [hmarked]
      simp
    · rintro (rfl | ⟨rest, rfl⟩)
      · exact hlength rfl
      · exact hlength (Text.firstLine_newline rest)
  · intro hnot
    have hb : b = [] := hend hnot
    subst hb
    refine ⟨?_, hlength rfl⟩
    rw [hline, hcount, List.count_nil, Nat.add_zero]

example : contextLines ⟨['a', '\n', 'é', 'x', '\n'], 4⟩ = ["    1 | a".toList, "  > 2 | éx".toList,
    "         ^--- here".toList, "    3 | ".toList] := by decide

/-- An offset behind a character of two bytes, and one inside this character. -/
theorem report_points_at_place_of_accent :
    let p : Place := ⟨['a', '\n', 'é', 'x', '\n'], 4⟩
    let q : Place := ⟨['a', '\n', 'é', 'x', '\n'], 3⟩
    (p.code = ['a', '\n', 'é'] ++ ['x', '\n'] ∧ p.offset = Text.byteLength ['a', '\n', 'é']) ∧
    (∃ k, List.replicate k ' ' ++ "^--- here".toList ∈ p.contextLines ∧
      (markedLine p.code 2)[k]? = some 'x') ∧
    ¬ q.code.IsBoundary q.offset ∧ q.location.line = q.code.lines.length := by
  intro p q
  have hcut : p.code = ['a', '\n', 'é'] ++ ['x', '\n'] := rfl
  have hoffset : p.offset = Text.byteLength ['a', '\n', 'é'] := by decide
  have hinside : ¬ q.code.IsBoundary q.offset := by decide
  obtain ⟨-, -, k, hlines, hchar, -⟩ := report_points_at_place p
  obtain ⟨-, -, _, -, -, hend⟩ := report_points_at_place q
  refine ⟨⟨hcut, hoffset⟩, ⟨k, ?_, ?_⟩, hinside, (hend hinside).1⟩
  · rw [hlines]
    simp
  · exact (hchar _ _ hcut hoffset).1 'x' ['\n'] rfl (by decide)

end Descent.Place
