import Descent.Proofs.Grammar.Contract
import Descent.Proofs.Parser.Sequence

/-!
# Repetitions in terms of `many`

Of the loops that take all they can get, `many` is the only one that is needed. The other two are
written separately, but behind a first item `many1` goes on as `many` does, and `sepBy` as `many` does
with a separator and an item as one round: a round that fails gives back everything, and with it a
separator that no item follows. The guard against rounds that consume nothing looks at the round as a
whole, so it is the same guard.

* `SeparatedRounds.rounds`, `Rounds.separatedRounds`: a separator and an item as one round.
* `SeparatedRounds.rest_of_item`: a list ends behind an item.
* `repetitions_reduce_to_many`: both repetitions, from the answer of the first item.
-/

namespace Descent

namespace Parser

variable {κ α β : Type} {p : Parser κ α} {q : Parser κ β} {k k' : κ} {s rest : Text} {v : α}
  {values : List α}

/-! ## A separator and an item as one round -/

/-- A separator that no item follows makes the round fail as a whole, so it is given back here as
there. -/
theorem SeparatedRounds.rounds (h : SeparatedRounds p q k s values rest k') :
    Rounds (q.andThen fun _ => p) k s values rest k' := by
  induction h with
  | done hq => exact .done (andThen_eq_some_iff.mpr (.inl ⟨_, _, _, hq, rfl⟩))
  | dangling hq hp => exact .done (andThen_eq_some_iff.mpr (.inr ⟨_, _, _, _, hq, hp, rfl⟩))
  | last hq hp hlen => exact .last (andThen_eq_success_iff.mpr ⟨_, _, _, hq, hp⟩) hlen
  | next hq hp hlen _ ih => exact .next (andThen_eq_success_iff.mpr ⟨_, _, _, hq, hp⟩) hlen ih

/-- Where the combined round fails, either its separator was missing or the item behind it. -/
theorem Rounds.separatedRounds (h : Rounds (q.andThen fun _ => p) k s values rest k') :
    SeparatedRounds p q k s values rest k' := by
  induction h with
  | done hfail =>
    -- either part of the round may be the one that failed
    rcases andThen_eq_some_iff.mp hfail with ⟨_, m, k₁, hq, he⟩ | ⟨u, behind, k₁, r, hq, hp, he⟩
    · cases he
      exact .done hq
    · obtain ⟨⟨v, rest'⟩ | ⟨rest', m'⟩, k₂⟩ := r
      · cases he
      · cases he
        exact .dangling hq hp
  | last hround hlen =>
    obtain ⟨u, behind, k₁, hq, hp⟩ := andThen_eq_success_iff.mp hround
    exact .last hq hp hlen
  | next hround hlen _ ih =>
    obtain ⟨u, behind, k₁, hq, hp⟩ := andThen_eq_success_iff.mp hround
    exact .next hq hp hlen ih

/-! ## Where a list ends -/

/-- The rounds end where they started or behind an item, never behind a separator. -/
theorem SeparatedRounds.rest_of_item (h : SeparatedRounds p q k s values rest k') :
    rest = s ∨ ∃ k₁ s₁ v k₂, v ∈ values ∧ p k₁ s₁ = some ⟨.success v rest, k₂⟩ := by
  induction h with
  | done _ => exact .inl rfl
  | dangling _ _ => exact .inl rfl
  | last _ _ _ => exact .inl rfl
  | @next _ _ _ _ _ v _ _ values _ _ _ hp _ _ ih =>
    rcases ih with hrest | ⟨k₁, s₁, u, k₂, hu, hitem⟩
    · rw [hrest]
      exact .inr ⟨_, _, v, _, List.mem_cons_self, hp⟩
    · exact .inr ⟨k₁, s₁, u, k₂, List.mem_cons_of_mem v hu, hitem⟩

theorem sepBy_rest_of_item (h : sepBy p q k s = some ⟨.success values rest, k'⟩) :
    values = [] ∧ rest = s ∨
      ∃ k₁ s₁ v k₂, v ∈ values ∧ p k₁ s₁ = some ⟨.success v rest, k₂⟩ := by
  rcases sepBy_eq_some_iff.mp h with
    ⟨_, m, k₁, -, he⟩ | ⟨v, behind, k₁, vs, stop, k₂, hp, hrounds, he⟩
  · cases he
    exact .inl ⟨rfl, rfl⟩
  · cases he
    rcases hrounds.rest_of_item with hstop | ⟨k₃, s₁, u, k₄, hu, hitem⟩
    · rw [hstop]
      exact .inr ⟨k, s, v, k₁, List.mem_cons_self, hp⟩
    · exact .inr ⟨k₃, s₁, u, k₄, List.mem_cons_of_mem v hu, hitem⟩

/-! ## Behind the first item -/

theorem many1_eq_of_failure {m : Option Text} (h : p k s = some ⟨.failure rest m, k'⟩) :
    many1 p k s = some ⟨.failure s m, k'⟩ := by
  simp [many1, h]

/-- Behind a first item, `many1` goes on as `many` starts, also where the item consumed nothing. -/
theorem many1_eq_of_success (h : p k s = some ⟨.success v rest, k'⟩) :
    many1 p k s = (many p k' rest).map (Reply.map (v :: ·)) := by
  simp only [many1, h, many1Round_eq_manyRound, loop_manyRound, List.singleton_append, map]

/-- `many` itself only goes on behind an item that consumed something. -/
theorem many_eq_of_success (h : p k s = some ⟨.success v rest, k'⟩)
    (hlen : rest.byteLength ≠ s.byteLength) :
    many p k s = (many p k' rest).map (Reply.map (v :: ·)) := by
  have hagain : manyRound p ⟨[], k, s⟩ = some (.again ⟨[v], k', rest⟩) :=
    manyRound_eq_some_iff.mpr (.inr (.inr ⟨v, rest, k', h, hlen, rfl⟩))
  rw [many, loop_eq_of_again hagain, loop_manyRound]
  rfl

/-- Behind a first item, `sepBy` goes on as `many` with a separator and an item as one round. -/
theorem sepBy_eq_of_success (h : p k s = some ⟨.success v rest, k'⟩) :
    sepBy p q k s = (many (q.andThen fun _ => p) k' rest).map (Reply.map (v :: ·)) := by
  refine Option.ext fun r => ?_
  rw [sepBy_eq_some_iff, Option.map_eq_some_iff]
  constructor
  · rintro (⟨_, _, _, hfail, -⟩ | ⟨u, behind, k₁, values, stop, k₂, hp, hrounds, rfl⟩)
    · cases h.symm.trans hfail
    · cases h.symm.trans hp
      exact ⟨_, hrounds.rounds.many_eq, rfl⟩
  · rintro ⟨r', hr', rfl⟩
    obtain ⟨values, stop, k₂, hrounds, rfl⟩ := many_eq_some_iff.mp hr'
    exact .inr ⟨v, rest, k', values, stop, k₂, h, hrounds.separatedRounds, rfl⟩

/-- **`many1` and `sepBy` reduce to `many`.** If the first item fails, the one gives back
everything, with the message of the item, and the other finds an empty list. Otherwise both are the
first item and then `many`, of the item or of the second entry of a separator and an item; what
becomes of the values of separators does not matter. So a list ends behind one of its items, and
`many1` and `many` are the same wherever the first item consumes something. Nothing is asked of the
parts: they may leave any text, and where one of the loops has no end the other has none. -/
theorem repetitions_reduce_to_many (p : Parser κ α) (q : Parser κ β) (f : β → α) (k : κ)
    (s : Text) :
    (∀ rest m k', p k s = some ⟨.failure rest m, k'⟩ →
      many1 p k s = some ⟨.failure s m, k'⟩ ∧ sepBy p q k s = some ⟨.success [] s, k'⟩) ∧
    (∀ v rest k', p k s = some ⟨.success v rest, k'⟩ →
      many1 p k s = (many p k' rest).map (Reply.map (v :: ·)) ∧
      sepBy p q k s = (many (nth 1 (seq [map f q, p])) k' rest).map (Reply.map (v :: ·)) ∧
      (rest.byteLength ≠ s.byteLength → many1 p k s = many p k s)) ∧
    ∀ values rest k', sepBy p q k s = some ⟨.success values rest, k'⟩ →
      values = [] ∧ rest = s ∨
        ∃ k₁ s₁ v k₂, v ∈ values ∧ p k₁ s₁ = some ⟨.success v rest, k₂⟩ := by
  refine ⟨?_, ?_, ?_⟩
  · intro rest m k' h
    exact ⟨many1_eq_of_failure h, sepBy_eq_some_iff.mpr (.inl ⟨rest, m, k', h, rfl⟩)⟩
  · intro v rest k' h
    have hfirst := many1_eq_of_success h
    refine ⟨hfirst, ?_, ?_⟩
    · rw [nth_one_seq_pair]
      exact sepBy_eq_of_success h
    · intro hlen
      rw [hfirst, many_eq_of_success h hlen]
  · intro values rest k' h
    exact sepBy_rest_of_item h

/-- A list with a dangling comma, and the same text where the first item is missing. -/
theorem repetitions_reduce_to_many_of_dangling_comma :
    let p : Parser Location Text := (Terminal.run Char.isDigit 1 none).parser
    let q : Parser Location Text := (Terminal.literal [',']).parser
    let s : Text := ['1', '2', ',', '3', ',', ';']
    p ⟨1, 1⟩ s = some ⟨.success ['1', '2'] [',', '3', ',', ';'], ⟨1, 3⟩⟩ ∧
    sepBy p q ⟨1, 1⟩ s = some ⟨.success [['1', '2'], ['3']] [',', ';'], ⟨1, 6⟩⟩ ∧
    (many (nth 1 (seq [map id q, p])) ⟨1, 3⟩ [',', '3', ',', ';']).map
        (Reply.map (['1', '2'] :: ·)) =
      some ⟨.success [['1', '2'], ['3']] [',', ';'], ⟨1, 6⟩⟩ ∧
    many1 p ⟨1, 1⟩ s = many p ⟨1, 1⟩ s ∧
    many1 p ⟨1, 3⟩ [','] = some ⟨.failure [','] none, ⟨1, 3⟩⟩ := by
  intro p q s
  have hp : p ⟨1, 1⟩ s = some ⟨.success ['1', '2'] [',', '3', ',', ';'], ⟨1, 3⟩⟩ := rfl
  have hfail : p ⟨1, 3⟩ [','] = some ⟨.failure [','] none, ⟨1, 3⟩⟩ := rfl
  have hcomma : q ⟨1, 3⟩ [',', '3', ',', ';'] =
      some ⟨.success [','] ['3', ',', ';'], ⟨1, 4⟩⟩ := rfl
  have hitem : p ⟨1, 4⟩ ['3', ',', ';'] = some ⟨.success ['3'] [',', ';'], ⟨1, 5⟩⟩ := rfl
  have hdangling : q ⟨1, 5⟩ [',', ';'] = some ⟨.success [','] [';'], ⟨1, 6⟩⟩ := rfl
  have hnone : p ⟨1, 6⟩ [';'] = some ⟨.failure [';'] none, ⟨1, 6⟩⟩ := rfl
  have hrounds : SeparatedRounds p q ⟨1, 3⟩ [',', '3', ',', ';'] [['3']] [',', ';'] ⟨1, 6⟩ :=
    .next hcomma hitem (by decide) (.dangling hdangling hnone)
  have hlist : sepBy p q ⟨1, 1⟩ s = some ⟨.success [['1', '2'], ['3']] [',', ';'], ⟨1, 6⟩⟩ :=
    sepBy_eq_some_iff.mpr (.inr ⟨_, _, _, _, _, _, hp, hrounds, rfl⟩)
  obtain ⟨-, hsep, hsame⟩ := (repetitions_reduce_to_many p q id ⟨1, 1⟩ s).2.1 _ _ _ hp
  have hfirst := (repetitions_reduce_to_many p q id ⟨1, 3⟩ [',']).1 _ _ _ hfail
  exact ⟨hp, hlist, hsep.symm.trans hlist, hsame (by decide), hfirst.1⟩

end Parser

end Descent
