import Descent.Grammar.Semantics

/-!
# One law for all choices

A choice is made of choices between two parsers (`orElse`): the second one is tried on the same text,
with the clock that the first one left, and what the first one says about its failure is lost. This
is associative, so it does not matter how alternatives are grouped. An empty choice fails, and to
have it behind other alternatives changes nothing but the words of a failure; a choice has no words
of its own to lose.

* `orElse_assoc`, `choice_orElse_fail`: the laws.
* `choice_append`, `choice_flatten`, `foldl_choice`: alternatives in groups.
* `AllFail`, `Reached`: alternatives that are tried in vain, and the one behind them.
* `choice_eq_success_iff`, `choice_eq_failure_iff`, `choice_eq_none_iff`: what a choice answers.
* `choices_flatten`: all of it, also for grammars in any surroundings.
-/

namespace Descent

namespace Parser

variable {κ α : Type}

/-! ## The laws of `orElse` -/

/-- What `p` finds, or else what `q` makes of the same text. -/
def orElse (p q : Parser κ α) : Parser κ α :=
  fun k s =>
    match p k s with
    | some ⟨.failure _ _, k⟩ => q k s
    | reply => reply

/-- The second part starts with the clock that the first one left. -/
theorem orElse_of_failure {p : Parser κ α} {k k' : κ} {s rest : Text} {m : Option Text}
    (h : p k s = some ⟨.failure rest m, k'⟩) (q : Parser κ α) : p.orElse q k s = q k' s := by
  rw [orElse, h]

/-- A success, and a run without an answer, keep the second part from being tried. -/
theorem orElse_of_not_failure {p : Parser κ α} {k : κ} {s : Text}
    (h : ∀ rest m k', p k s ≠ some ⟨.failure rest m, k'⟩) (q : Parser κ α) :
    p.orElse q k s = p k s := by
  unfold orElse
  split
  · next heq => exact absurd heq (h _ _ _)
  · rfl

theorem choice_cons (p : Parser κ α) (ps : List (Parser κ α)) :
    choice (p :: ps) = p.orElse (choice ps) := rfl

/-- How alternatives are bracketed makes no difference, not even to the clock. -/
theorem orElse_assoc (p q r : Parser κ α) : (p.orElse q).orElse r = p.orElse (q.orElse r) := by
  funext k s
  simp only [orElse]
  rcases p k s with _ | ⟨⟨v, rest⟩ | ⟨rest, m⟩, k₁⟩ <;> rfl

/-- A choice that fails says so in the words of `fail`. -/
theorem choice_orElse_fail (ps : List (Parser κ α)) : (choice ps).orElse fail = choice ps := by
  induction ps with
  | nil => rfl
  | cons p ps ih => rw [choice_cons, orElse_assoc, ih]

/-! ## Alternatives in groups -/

/-- The alternatives of two lists are those of a choice between two choices, in the same order. -/
theorem choice_append (ps qs : List (Parser κ α)) :
    choice (ps ++ qs) = (choice ps).orElse (choice qs) := by
  induction ps with
  | nil => rfl
  | cons p ps ih => rw [List.cons_append, choice_cons, ih, choice_cons, orElse_assoc]

theorem choice_singleton_choice (ps : List (Parser κ α)) : choice [choice ps] = choice ps :=
  choice_orElse_fail ps

/-- A choice among the alternatives can be replaced with its own alternatives. -/
theorem choice_flatten (ps qs rs : List (Parser κ α)) :
    choice (ps ++ [choice qs] ++ rs) = choice (ps ++ qs ++ rs) := by
  rw [choice_append, choice_append, choice_singleton_choice, ← choice_append, ← choice_append]

/-- A chain of choices that starts with a choice. -/
theorem foldl_choice_of_choice (ps qs : List (Parser κ α)) :
    qs.foldl (fun chain q => choice [chain, q]) (choice ps) = choice (ps ++ qs) := by
  induction qs generalizing ps with
  | nil => rw [List.foldl_nil, List.append_nil]
  | cons q qs ih =>
    have hfirst : choice [choice ps, q] = choice (ps ++ [q]) := choice_flatten [] ps [q]
    rw [List.foldl_cons, hfirst, ih, List.append_assoc, List.singleton_append]

/-- A single alternative is no choice: it may fail in its own words. With a second one the chain is
the choice between all of them. -/
theorem foldl_choice (p q : Parser κ α) (qs : List (Parser κ α)) :
    (q :: qs).foldl (fun chain q => choice [chain, q]) p = choice (p :: q :: qs) :=
  foldl_choice_of_choice [p, q] qs

/-! ## Answers -/

/-- All of the alternatives fail on `s` when they are tried one after the other, each with the clock
that the ones before it left. The clock goes from `k` to `k'`. -/
inductive AllFail (s : Text) : List (Parser κ α) → κ → κ → Prop
  | nil {k : κ} : AllFail s [] k k
  | cons {p : Parser κ α} {ps : List (Parser κ α)} {k k₁ k' : κ} {rest : Text} {m : Option Text} :
      p k s = some ⟨.failure rest m, k₁⟩ → AllFail s ps k₁ k' → AllFail s (p :: ps) k k'

/-- The alternative `p` is reached: all alternatives before it fail on `s`. The clock goes from `k` to
`k'` meanwhile. -/
def Reached (s : Text) (ps : List (Parser κ α)) (k : κ) (p : Parser κ α) (k' : κ) : Prop :=
  ∃ failed others, ps = failed ++ p :: others ∧ AllFail s failed k k'

variable {p : Parser κ α} {ps : List (Parser κ α)} {k k' : κ} {s rest : Text} {v : α}

/-- Alternatives that all fail leave only their clock behind. -/
theorem AllFail.choice_append (h : AllFail s ps k k') (qs : List (Parser κ α)) :
    choice (ps ++ qs) k s = choice qs k' s := by
  induction h with
  | nil => rfl
  | cons hp _ ih => exact (orElse_of_failure hp _).trans ih

/-- A choice has no message of its own: if all alternatives fail, their messages are lost. -/
theorem AllFail.choice_eq (h : AllFail s ps k k') :
    choice ps k s = some ⟨.failure s none, k'⟩ := by
  rw [← List.append_nil ps, h.choice_append]
  rfl

/-- The answer of an alternative that is reached and does not fail is the answer of the choice. -/
theorem Reached.choice_eq (h : Reached s ps k p k')
    (hp : ∀ rest m k₁, p k' s ≠ some ⟨.failure rest m, k₁⟩) : choice ps k s = p k' s := by
  obtain ⟨failed, others, rfl, hfailed⟩ := h
  rw [hfailed.choice_append]
  exact orElse_of_not_failure hp _

/-- Either all alternatives fail, or one is reached that does not. -/
theorem allFail_or_reached (ps : List (Parser κ α)) (k : κ) (s : Text) :
    (∃ k', AllFail s ps k k') ∨
      ∃ p k', Reached s ps k p k' ∧ ∀ rest m k₁, p k' s ≠ some ⟨.failure rest m, k₁⟩ := by
  induction ps generalizing k with
  | nil => exact .inl ⟨k, .nil⟩
  | cons p ps ih =>
    by_cases hp : ∃ rest m k₁, p k s = some ⟨.failure rest m, k₁⟩
    · obtain ⟨rest, m, k₁, hp⟩ := hp
      rcases ih k₁ with ⟨k', hall⟩ | ⟨q, k', ⟨failed, others, rfl, hfailed⟩, hq⟩
      · exact .inl ⟨k', .cons hp hall⟩
      · exact .inr ⟨q, k', ⟨p :: failed, others, rfl, .cons hp hfailed⟩, hq⟩
    · refine .inr ⟨p, k, ⟨[], ps, rfl, .nil⟩, ?_⟩
      intro rest m k₁ h
      exact hp ⟨rest, m, k₁, h⟩

/-- A choice succeeds exactly with the first alternative that does not fail. -/
theorem choice_eq_success_iff :
    choice ps k s = some ⟨.success v rest, k'⟩ ↔
      ∃ p k₁, Reached s ps k p k₁ ∧ p k₁ s = some ⟨.success v rest, k'⟩ := by
  constructor
  · intro h
    rcases allFail_or_reached ps k s with ⟨k₁, hall⟩ | ⟨p, k₁, hreached, hp⟩
    · cases hall.choice_eq.symm.trans h
    · exact ⟨p, k₁, hreached, (hreached.choice_eq hp).symm.trans h⟩
  · rintro ⟨p, k₁, hreached, hp⟩
    rw [hreached.choice_eq (by simp [hp]), hp]

theorem choice_eq_failure_iff {m : Option Text} :
    choice ps k s = some ⟨.failure rest m, k'⟩ ↔ AllFail s ps k k' ∧ rest = s ∧ m = none := by
  constructor
  · intro h
    rcases allFail_or_reached ps k s with ⟨k₁, hall⟩ | ⟨p, k₁, hreached, hp⟩
    · cases hall.choice_eq.symm.trans h
      exact ⟨hall, rfl, rfl⟩
    · exact absurd ((hreached.choice_eq hp).symm.trans h) (hp _ _ _)
  · rintro ⟨hall, rfl, rfl⟩
    exact hall.choice_eq

/-- A choice gives no answer exactly if one of the alternatives that it comes to gives none. -/
theorem choice_eq_none_iff :
    choice ps k s = none ↔ ∃ p k₁, Reached s ps k p k₁ ∧ p k₁ s = none := by
  constructor
  · intro h
    rcases allFail_or_reached ps k s with ⟨k₁, hall⟩ | ⟨p, k₁, hreached, hp⟩
    · cases hall.choice_eq.symm.trans h
    · exact ⟨p, k₁, hreached, (hreached.choice_eq hp).symm.trans h⟩
  · rintro ⟨p, k₁, hreached, hp⟩
    rw [hreached.choice_eq (by simp [hp]), hp]

end Parser

/-! ## Choices in grammars -/

namespace Grammar

variable {κ : Type} [Clock κ] {resolve : Reference → Ambient κ → Parser κ Value}

theorem denote_choice (ps : List (Grammar Regex.Program)) (a : Ambient κ) :
    (choice ps).denote resolve a = .choice (ps.map (·.denote resolve a)) := by
  rw [denote, denoteAll_eq_map]

theorem denote_orChain (p : Grammar Regex.Program) (ps : List (Grammar Regex.Program))
    (a : Ambient κ) :
    (orChain p ps).denote resolve a =
      (ps.map (·.denote resolve a)).foldl (fun chain q => .choice [chain, q])
        (p.denote resolve a) := by
  induction ps generalizing p with
  | nil => rfl
  | cons q ps ih => exact ih (choice [p, q])

/-- **Ordered choice flattens.** A choice among the alternatives of another one can be replaced by
its own alternatives, and a chain of choices between two is the choice between all. This holds for
any alternatives, whatever they leave or say where they fail, and for the clock as well as for what
is found. The answer of a choice is the unchanged answer of the first alternative that succeeds when
each is tried on the same text with the clock that its failed predecessors left; if all fail, it is a
failure that gives back everything and says nothing. There is no answer only where an alternative
that is reached gives none. The same is true of grammars, whatever rules and wrapper they stand
under. -/
theorem choices_flatten :
    (∀ {α : Type} (ps qs rs : List (Parser κ α)),
      Parser.choice (ps ++ [.choice qs] ++ rs) = .choice (ps ++ qs ++ rs)) ∧
    (∀ {α : Type} (p q : Parser κ α) (qs : List (Parser κ α)),
      (q :: qs).foldl (fun chain q => .choice [chain, q]) p = .choice (p :: q :: qs)) ∧
    (∀ {α : Type} (ps : List (Parser κ α)) (k : κ) (s : Text),
      (∀ v rest k', Parser.choice ps k s = some ⟨.success v rest, k'⟩ ↔
        ∃ p k₁, Parser.Reached s ps k p k₁ ∧ p k₁ s = some ⟨.success v rest, k'⟩) ∧
      (∀ rest m k', Parser.choice ps k s = some ⟨.failure rest m, k'⟩ ↔
        Parser.AllFail s ps k k' ∧ rest = s ∧ m = none) ∧
      (Parser.choice ps k s = none ↔ ∃ p k₁, Parser.Reached s ps k p k₁ ∧ p k₁ s = none)) ∧
    ∀ (rules : Rules) (depth : Nat) (w : Option (Wrapper (Grammar Regex.Program))),
      (∀ ps qs rs : List (Grammar Regex.Program),
        ((choice (ps ++ [choice qs] ++ rs)).parser rules depth w : Parser κ Value) =
          (choice (ps ++ qs ++ rs)).parser rules depth w) ∧
      ∀ (p q : Grammar Regex.Program) (qs : List (Grammar Regex.Program)),
        ((orChain p (q :: qs)).parser rules depth w : Parser κ Value) =
          (choice (p :: q :: qs)).parser rules depth w := by
  refine ⟨Parser.choice_flatten, Parser.foldl_choice, ?_, ?_⟩
  · intro α ps k s
    exact ⟨fun v rest k' => Parser.choice_eq_success_iff,
      fun rest m k' => Parser.choice_eq_failure_iff, Parser.choice_eq_none_iff⟩
  · intro rules depth w
    refine ⟨fun ps qs rs => ?_, fun p q qs => ?_⟩
    · unfold Grammar.parser
      rw [denote_choice, denote_choice]
      simp only [List.map_append, List.map_cons, List.map_nil, denote_choice]
      exact Parser.choice_flatten _ _ _
    · unfold Grammar.parser
      rw [denote_orChain, denote_choice]
      exact Parser.foldl_choice _ _ _

end Grammar

end Descent
