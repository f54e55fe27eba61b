import Descent.Proofs.Grammar.Contract
import Mathlib.Data.List.DropRight

/-!
# Terminals with white space around them

With white space skipped on both sides, a terminal is matched behind the white space at the front of
the text, and the text that is left begins with no white space. The white space itself is never
missed: no white space is a match too. So a terminal fails only where it does not match behind the
white space, and then everything is given back.

* `Text.behindSpace`: the text behind the white space at its front.
* `Terminal.spaced`: a terminal with the white space on both sides skipped.
* `spaced_eq_success`, `spaced_eq_failure`: its answers.
-/

namespace Descent

open Descent.Parser

/-! ## White space at the front -/

namespace Text

/-- The text behind the white space at its front. -/
def behindSpace (s : Text) : Text :=
  s.dropWhile isWhiteSpace

@[simp] theorem behindSpace_behindSpace (s : Text) : behindSpace (behindSpace s) = behindSpace s :=
  List.dropWhile_idempotent isWhiteSpace s

theorem behindSpace_append {u : Text} (hu : ∀ c ∈ u, isWhiteSpace c) (s : Text) :
    behindSpace (u ++ s) = behindSpace s :=
  List.dropWhile_append_of_pos hu

theorem behindSpace_suffix (s : Text) : behindSpace s <:+ s :=
  List.dropWhile_suffix _

theorem behindSpace_length_le (s : Text) : (behindSpace s).length ≤ s.length :=
  (behindSpace_suffix s).length_le

theorem takeWhile_append_behindSpace (s : Text) :
    s.takeWhile isWhiteSpace ++ behindSpace s = s :=
  List.takeWhile_append_dropWhile

theorem behindSpace_cons {c : Char} (hc : isWhiteSpace c = false) (s : Text) :
    behindSpace (c :: s) = c :: s := by
  simp [behindSpace, hc]

/-- A text begins with no white space where there is nothing to skip. -/
theorem behindSpace_eq_self_iff {s : Text} :
    behindSpace s = s ↔ ∀ c ∈ s.head?, isWhiteSpace c = false := by
  rw [behindSpace, List.dropWhile_eq_self_iff]
  cases s <;> simp

end Text

open Text

/-! ## Terminals -/

namespace Terminal

variable {κ : Type} [Clock κ]

/-- Without a bound, a run ends where the first character fails the test. -/
theorem runLength_none (test : Char → Bool) (s : Text) :
    runLength test none s = (s.takeWhile test).length := by
  induction s with
  | nil => rfl
  | cons c s ih => cases hc : test c <;> simp [runLength, hc, ih]

theorem take_runLength (test : Char → Bool) (s : Text) :
    s.take (runLength test none s) = s.takeWhile test := by
  rw [runLength_none]
  exact (List.prefix_iff_eq_take.mp (List.takeWhile_prefix test)).symm

theorem drop_runLength (test : Char → Bool) (s : Text) :
    s.drop (runLength test none s) = s.dropWhile test := by
  calc s.drop (runLength test none s)
      = (s.takeWhile test ++ s.dropWhile test).drop (s.takeWhile test).length := by
        rw [runLength_none, List.takeWhile_append_dropWhile]
    _ = s.dropWhile test := List.drop_left

/-- The white space at the front of a text, perhaps none. -/
def space : Parser κ Value :=
  .map .str (run isWhiteSpace 0 none).parser

theorem space_eq (k : κ) (s : Text) :
    space k s = some ⟨.success (.str (s.takeWhile isWhiteSpace)) (behindSpace s),
      Clock.advance k (s.takeWhile isWhiteSpace)⟩ := by
  simp [space, Parser.map, parser, matchLength?, take_runLength, drop_runLength, behindSpace]

/-- A terminal with the white space on both of its sides skipped. -/
def spaced (t : Terminal Regex.Program) : Parser κ Text :=
  between space space t.parser

variable {t : Terminal Regex.Program} {s : Text}

theorem spaced_eq_failure (h : t.matchLength? (behindSpace s) = none) (k : κ) :
    ∃ k', t.spaced k s = some ⟨.failure s none, k'⟩ := by
  simp [spaced, between, andThen, space_eq, parser, h]

/-- The terminal is matched behind the space, and the space behind it is skipped as well. -/
theorem spaced_eq_success {n : Nat} (h : t.matchLength? (behindSpace s) = some n) (k : κ) :
    ∃ k', t.spaced k s = some ⟨.success ((behindSpace s).take n)
      (behindSpace ((behindSpace s).drop n)), k'⟩ := by
  simp [spaced, between, andThen, space_eq, parser, h, Parser.map]

end Terminal

/-- How terminals are matched where white space is skipped. -/
def Ambient.spaceSkipped (κ : Type) [Clock κ] : Ambient κ :=
  some (between Terminal.space Terminal.space)

theorem Ambient.spaceSkipped_apply {κ : Type} [Clock κ] (t : Terminal Regex.Program) :
    (spaceSkipped κ).apply t = t.spaced := rfl

theorem Grammar.denote_terminals_skip {κ : Type} [Clock κ]
    (resolve : Reference → Ambient κ → Parser κ Value) (g : Grammar Regex.Program) (a : Ambient κ) :
    (terminals (.skip whitespace) g).denote resolve a =
      g.denote resolve (Ambient.spaceSkipped κ) := rfl

end Descent
