/-!
# Loops

A loop takes one turn after the other, until a turn breaks off with a result. Nothing says that this
ever happens. So a loop is a least fixed point, and one that goes on for ever gives no answer, as
does one with a turn that gives none.

* `loop`: the loop with a given turn.
* `LoopEnds`: the loops that come to an end, as derivations.
* `loop_eq_some_iff`: a loop answers exactly what it ends with.
-/

namespace Descent

/-- What a turn of a loop leads to. -/
inductive Turn (σ ρ : Type) where
  /-- the loop goes on in this state -/
  | again (state : σ)
  /-- the loop breaks off with this result -/
  | stop (result : ρ)

variable {σ ρ : Type} (turn : σ → Option (Turn σ ρ))

/-- Takes one turn after the other, from a state on. -/
def loop (state : σ) : Option ρ := do
  match ← turn state with
  -- applied and not written out: a recursive call in a term takes down its place in the file
  | .again next => by apply loop; exact next
  | .stop result => return result
partial_fixpoint

/-- `LoopEnds turn state result`: from `state` on, finitely many turns lead to `result`. -/
inductive LoopEnds : σ → ρ → Prop
  | stop {state : σ} {result : ρ} : turn state = some (.stop result) → LoopEnds state result
  | again {state next : σ} {result : ρ} : turn state = some (.again next) →
      LoopEnds next result → LoopEnds state result

variable {turn}

/-- There is no bound on the number of turns, so that the one direction is an induction on the fixed
point and only the other one an induction on the turns. -/
theorem loop_eq_some_iff {state : σ} {result : ρ} :
    loop turn state = some result ↔ LoopEnds turn state result := by
  constructor
  · intro h
    refine loop.partial_correctness turn (LoopEnds turn) ?_ state result h
    intro later ih state result h
    obtain ⟨t, ht, hlater⟩ := Option.bind_eq_some_iff.mp h
    cases t with
    | again next => exact .again ht (ih next result hlater)
    | stop found =>
      cases hlater
      exact .stop ht
  · intro h
    induction h with
    | stop ht =>
      rw [loop, ht]
      rfl
    | again ht _ ih =>
      rw [loop, ht]
      exact ih

theorem loop_eq_of_again {state next : σ} (h : turn state = some (.again next)) :
    loop turn state = loop turn next := by
  rw [loop, h]
  rfl

end Descent
