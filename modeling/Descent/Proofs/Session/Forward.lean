import Descent.Proofs.Grammar.Reference
import Descent.Proofs.Session.Environment

/-!
# Cells are written once

The cell of a name is empty until the name is defined for the first time, and keeps what it gets then. It
is shared by all who refer to it, also by parsers that were built when it was still empty: a grammar only
has the name in it, and what the cell holds is looked up whenever the grammar is run.

* `cells_run`: what a cell holds after the steps of a session.
* `cell_is_written_once`: definitions, and parsers that refer to the cell.
-/

namespace Descent

/-- The grammar that a step puts into the cell of the name `x`, if it gets that far. -/
def Step.definition? (x : String) : Step → Option (Grammar Regex.Program)
  | define name g =>
    if name = x then
      match g.build with
      | .ok g => some g
      | .error _ => none
    else none
  | _ => none

namespace Session

variable {depth : Nat} {s : Session} {st : Step}

theorem step_define {x : String} {source : Grammar PatternSource} {g : Grammar Regex.Program}
    (hbuild : source.build = .ok g) :
    s.step depth (.define x source) =
      if s.rules.isDefined x then (s, .invalid (.alreadyDefined x))
      else ({ s with rules := { s.rules with cells := s.rules.cells.insert x g } }, .done) := by
  simp only [step, withGrammar, hbuild, Rules.define]
  by_cases hdefined : s.rules.isDefined x = true
  · rw [if_pos hdefined, if_pos hdefined]
  · rw [if_neg hdefined, if_neg hdefined]

/-- A cell that holds something is left alone, an empty one gets what the step defines. -/
theorem cells_step (depth : Nat) (s : Session) (st : Step) (x : String) :
    (s.step depth st).1.rules.cells.find? x = (s.rules.cells.find? x).or (st.definition? x) := by
  cases st with
  | define name source =>
    cases hbuild : source.build with
    | error e =>
      have hdefinition : (Step.define name source).definition? x = none := by
        simp only [Step.definition?, hbuild, ite_self]
      simp only [step, withGrammar, hbuild, hdefinition, Option.or_none]
    | ok g =>
      have hdefinition : (Step.define name source).definition? x = if name = x then some g else none := by
        simp only [Step.definition?, hbuild]
      rw [step_define hbuild, hdefinition]
      by_cases hname : name = x
      · subst hname
        cases hfind : s.rules.cells.find? name with
        | none => simp [Rules.isDefined, hfind, Fields.find?_insert]
        | some b => simp [Rules.isDefined, hfind]
      · rw [if_neg hname, Option.or_none]
        split
        · rfl
        · exact Fields.find?_insert_of_ne (Ne.symm hname)
  | _ =>
    rw [(s.step_effect depth _).rules rfl]
    exact (Option.or_none).symm

/-- Of several definitions of a name the first one counts, wherever it stands. -/
theorem cells_run (depth : Nat) (s : Session) (steps : List Step) (x : String) :
    (s.run depth steps).1.rules.cells.find? x =
      (s.rules.cells.find? x).or (steps.findSome? (·.definition? x)) := by
  induction steps generalizing s with
  | nil => exact (Option.or_none).symm
  | cons st steps ih =>
    have hrest := ih (s.step depth st).1
    rw [cells_step, Option.or_assoc] at hrest
    refine hrest.trans ?_
    rw [List.findSome?_cons]
    cases st.definition? x <;> rfl

/-- **A cell is written once.** Let the cell of the name `x` hold what it held at the start of a session,
or else what was first defined under the name. A definition succeeds while the cell is empty, and changes
nothing but the cell; later ones are refused and change nothing. While the cell is empty, a reference to it
fails at once, without a message and without moving the location; afterwards it does what the first
definition does. The same goes for every parser in which the cell is referred to, whenever it was built: it
does what its grammar does with the content of the cell put in. -/
theorem cell_is_written_once (depth : Nat) (rules : Rules) (x : String) (steps : List Step) :
    let s := (run depth { rules } steps).1
    let first? := (rules.cells.find? x).or (steps.findSome? (·.definition? x))
    (∀ source g, source.build = .ok g →
      (first? = none → ∃ cells,
        s.step depth (.define x source) = ({ s with rules := { s.rules with cells } }, .done) ∧
        cells.find? x = some g ∧ ∀ y, y ≠ x → cells.find? y = s.rules.cells.find? y) ∧
      (first?.isSome = true →
        s.step depth (.define x source) = (s, .invalid (.alreadyDefined x)))) ∧
    s.step depth (.forwardState x) = (s, .forwardState x first?.isSome) ∧
    (first? = none → ∀ w (l : Location) input r,
      (Grammar.ref (.cell x)).Replies s.rules w l input r ↔ r = ⟨.failure input none, l⟩) ∧
    (∀ g, first? = some g → ∀ w (l : Location) input r,
      (Grammar.ref (.cell x)).Replies s.rules w l input r ↔ g.Replies s.rules w l input r) ∧
    ∀ before after n h, steps = before ++ after → (∀ st ∈ after, st.namesParser? ≠ some n) →
      (run depth { rules } before).1.grammar? n = some h → ∀ e l w, s.Shows e l w → ∀ input r,
        (∃ d, (s.step d (.parse n e input)).2 = .parsed r) ↔
          ((h.under w).fill x first?).Replies s.rules none l input r := by
  intro s first?
  have hcell : s.rules.cells.find? x = first? := cells_run depth { rules } steps x
  have hdefined : s.rules.isDefined x = first?.isSome := congrArg Option.isSome hcell
  refine ⟨fun source g hbuild => ⟨fun hnone => ?_, fun hsome => ?_⟩, ?_, ?_, ?_, ?_⟩
  · have hempty : ¬ s.rules.isDefined x = true := by
      rw [hdefined, hnone]
      exact Bool.false_ne_true
    refine ⟨s.rules.cells.insert x g, ?_, ?_, fun y hy => Fields.find?_insert_of_ne hy⟩
    · rw [step_define hbuild, if_neg hempty]
    · rw [Fields.find?_insert, if_pos rfl]
  · rw [step_define hbuild, if_pos (hdefined.trans hsome)]
  · rw [← hdefined]
    rfl
  · exact fun hnone w l input r => Grammar.replies_ref_of_none (hcell.trans hnone)
  · exact fun g hsome w l input r => Grammar.replies_ref_iff (hcell.trans hsome)
  · rintro before after n h rfl hafter hbefore e l w henv input r
    have hgrammar : s.grammar? n = some h := by
      show (run depth { rules } (before ++ after)).1.grammar? n = some h
      rw [run_append, grammar?_run depth hafter, hbefore]
    rw [exists_parsed_iff hgrammar henv, ← hcell, ← Grammar.replies_fill_iff]
    refine exists_congr fun d => ?_
    rw [Grammar.parser_under]

/-- A parser that was built when the cell was empty does what was first defined afterwards, also when
another definition was tried since. -/
theorem cell_is_written_once_of_early_use :
    let steps : List Step := [.newEnv "e" .start, .parser "p" (.seq [.ref (.cell "x"), .literal ['!']]),
      .define "x" (.literal ['a']), .define "x" (.literal ['b'])]
    let s := (run 0 {} steps).1
    s.step 0 (.define "x" (.literal ['c'])) = (s, .invalid (.alreadyDefined "x")) ∧
      ∀ r, (∃ d, (s.step d (.parse "p" "e" ['a', '!'])).2 = .parsed r) ↔
        r = ⟨.success (.list [.str ['a'], .str ['!']]) [], ⟨1, 3⟩⟩ := by
  intro steps s
  have henv : s.Shows "e" .start none := ⟨⟨0, none⟩, rfl, rfl, rfl⟩
  obtain ⟨hdefine, -, -, -, hparsers⟩ := cell_is_written_once 0 {} "x" steps
  refine ⟨(hdefine (.literal ['c']) (.literal ['c']) rfl).2 rfl, fun r => ?_⟩
  have hparse := hparsers (steps.take 2) (steps.drop 2) "p" (.seq [.ref (.cell "x"), .literal ['!']]) rfl
    (by simp [steps, Step.namesParser?]) rfl "e" .start none henv ['a', '!'] r
  exact hparse.trans (Grammar.Replies.iff_eq ⟨0, rfl⟩)

end Session

end Descent
