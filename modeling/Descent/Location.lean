import Descent.Text

/-!
# Locations

A location is a line and a column, both counted from one. Reading a text moves a location: each
newline starts a new line at column one, every other character moves one column to the right.
`Location.after` computes the location behind a whole text at once, `Location.step` the one behind
a single character. Locations are ordered by line and then by column, which is the order of the
places of a text.
-/

namespace Descent

/-- A line and a column, both counted from one. -/
structure Location where
  /-- the line -/
  line : Nat := 1
  /-- the column, in characters -/
  col : Nat := 1
  deriving DecidableEq, Inhabited

namespace Location

/-- Where every text starts. -/
def start : Location := ⟨1, 1⟩

/-- The location behind `text` when it is read from location `l` on: its newlines are counted, and
the column is that of the end of its last line. -/
def after (l : Location) (text : Text) : Location :=
  if '\n' ∈ text then ⟨l.line + text.count '\n', text.lastLine.length + 1⟩
  else ⟨l.line, l.col + text.length⟩

/-- The location behind the single character `c`. -/
def step (l : Location) (c : Char) : Location :=
  if c = '\n' then ⟨l.line + 1, 1⟩ else ⟨l.line, l.col + 1⟩

@[simp] theorem after_nil (l : Location) : l.after [] = l := by
  simp [after]

/-! ## Order -/

/-- Locations compare by line, and on the same line by column. -/
instance : Ord Location where
  compare a b := (compare a.line b.line).then (compare a.col b.col)

instance : LE Location where
  le a b := a.line < b.line ∨ a.line = b.line ∧ a.col ≤ b.col

instance : LT Location where
  lt a b := a.line < b.line ∨ a.line = b.line ∧ a.col < b.col

theorem le_def {a b : Location} :
    a ≤ b ↔ a.line < b.line ∨ a.line = b.line ∧ a.col ≤ b.col := Iff.rfl

theorem lt_def {a b : Location} :
    a < b ↔ a.line < b.line ∨ a.line = b.line ∧ a.col < b.col := Iff.rfl

instance (a b : Location) : Decidable (a ≤ b) :=
  inferInstanceAs (Decidable (a.line < b.line ∨ a.line = b.line ∧ a.col ≤ b.col))

instance (a b : Location) : Decidable (a < b) :=
  inferInstanceAs (Decidable (a.line < b.line ∨ a.line = b.line ∧ a.col < b.col))

theorem le_refl (a : Location) : a ≤ a := Or.inr ⟨rfl, Nat.le_refl _⟩

theorem le_trans {a b c : Location} (hab : a ≤ b) (hbc : b ≤ c) : a ≤ c := by
  rw [le_def] at *
  omega

theorem not_le {a b : Location} : ¬ a ≤ b ↔ b < a := by
  rw [le_def, lt_def]
  omega

/-! ## Written forms -/

/-- The short form, `line:column`. -/
def display (l : Location) : Text :=
  Text.decimal l.line ++ ':' :: Text.decimal l.col

/-- The form that names its fields. -/
def inspect (l : Location) : Text :=
  "Location \x7b line: ".toList ++ Text.decimal l.line ++ ", col: ".toList ++
    Text.decimal l.col ++ " \x7d".toList

end Location

end Descent
