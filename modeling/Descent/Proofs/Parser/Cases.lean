import Descent.Parser.Choice
import Descent.Parser.Diagnostic
import Descent.Parser.Repetition
import Descent.Parser.Sequence

/-!
# What a parser can answer

One lemma for each parser that is put together from others: from an answer of the whole, the answers
of the parts that led to it, and back. Every fact about parsers is derived from these lemmas, so
that the definitions are opened here only.

A part of a parser answers in one of three ways: not at all, with a failure, or with a success. The
first leaves the whole without an answer, so that only the other two appear in the lemmas.

* `andThen_eq_some_iff` and its like: the parsers that use their parts a fixed number of times.
* `Rounds`, `SeparatedRounds`, `Search`: the runs of the loops, as derivations; each loop answers
  exactly what its derivations end with (`many_eq_some_iff`, `sepBy_eq_some_iff`,
  `itemsTill_eq_some_iff`). From `manyRound_eq_some_iff` and its like it is read off what a single
  round can do.
* `many1_eq_andThen`: `many1` in terms of `many`.
-/

namespace Descent

namespace Reply

variable {κ α : Type}

@[simp] theorem rewind_success (input : Text) (v : α) (rest : Text) (k : κ) :
    (⟨.success v rest, k⟩ : Reply κ α).rewind input = ⟨.success v rest, k⟩ := rfl

@[simp] theorem rewind_failure (input rest : Text) (m : Option Text) (k : κ) :
    (⟨.failure rest m, k⟩ : Reply κ α).rewind input = ⟨.failure input m, k⟩ := rfl

@[simp] theorem map_success {β : Type} (f : α → β) (v : α) (rest : Text) (k : κ) :
    (⟨.success v rest, k⟩ : Reply κ α).map f = ⟨.success (f v) rest, k⟩ := rfl

@[simp] theorem map_failure {β : Type} (f : α → β) (rest : Text) (m : Option Text) (k : κ) :
    (⟨.failure rest m, k⟩ : Reply κ α).map f = ⟨.failure rest m, k⟩ := rfl

end Reply

namespace Parser

variable {κ α β : Type} {p : Parser κ α} {k : κ} {s : Text}

/-! ## Parts that are used once -/

theorem map_eq_some_iff {f : α → β} {r : Reply κ β} :
    map f p k s = some r ↔ ∃ r', p k s = some r' ∧ r'.map f = r :=
  Option.map_eq_some_iff

/-- A failure of either part is put at the start of the whole. -/
theorem andThen_eq_some_iff {f : α → Parser κ β} {r : Reply κ β} :
    p.andThen f k s = some r ↔
      (∃ rest m k', p k s = some ⟨.failure rest m, k'⟩ ∧ ⟨.failure s m, k'⟩ = r) ∨
      ∃ v rest k' r', p k s = some ⟨.success v rest, k'⟩ ∧ f v k' rest = some r' ∧
        r'.rewind s = r := by
  unfold andThen
  rcases p k s with _ | ⟨⟨v, rest⟩ | ⟨rest, m⟩, k'⟩ <;>
    simp [and_assoc, Option.map_eq_some_iff]

theorem andThen_eq_success_iff {f : α → Parser κ β} {v : β} {rest : Text} {k' : κ} :
    p.andThen f k s = some ⟨.success v rest, k'⟩ ↔
      ∃ u behind k₁, p k s = some ⟨.success u behind, k₁⟩ ∧
        f u k₁ behind = some ⟨.success v rest, k'⟩ := by
  constructor
  · intro h
    rcases andThen_eq_some_iff.mp h with ⟨_, m, k₁, -, he⟩ | ⟨u, behind, k₁, r, hu, hr, he⟩
    · cases he
    · obtain ⟨⟨v', rest'⟩ | ⟨rest', m⟩, k₂⟩ := r <;> cases he
      exact ⟨u, behind, k₁, hu, hr⟩
  · rintro ⟨u, behind, k₁, hu, hr⟩
    exact andThen_eq_some_iff.mpr (.inr ⟨u, behind, k₁, _, hu, hr, rfl⟩)

theorem map_eq_success_iff {f : α → β} {v : β} {rest : Text} {k' : κ} :
    map f p k s = some ⟨.success v rest, k'⟩ ↔
      ∃ u, p k s = some ⟨.success u rest, k'⟩ ∧ f u = v := by
  constructor
  · intro h
    obtain ⟨⟨⟨u, rest'⟩ | ⟨rest', m⟩, k₁⟩, hu, he⟩ := map_eq_some_iff.mp h <;> cases he
    exact ⟨u, hu, rfl⟩
  · rintro ⟨u, hu, rfl⟩
    exact map_eq_some_iff.mpr ⟨_, hu, rfl⟩

theorem tryMap_eq_success_iff {f : α → Option β} {v : β} {rest : Text} {k' : κ} :
    p.tryMap f k s = some ⟨.success v rest, k'⟩ ↔
      ∃ u, p k s = some ⟨.success u rest, k'⟩ ∧ f u = some v := by
  unfold tryMap
  rw [andThen_eq_success_iff]
  constructor
  · rintro ⟨u, behind, k₁, hu, hv⟩
    cases hf : f u with
    | none => simp [hf, fail] at hv
    | some v' =>
      simp only [hf, succeed, Option.some.injEq, Reply.mk.injEq, Outcome.success.injEq] at hv
      obtain ⟨⟨rfl, rfl⟩, rfl⟩ := hv
      exact ⟨u, hu, hf⟩
  · rintro ⟨u, hu, hf⟩
    exact ⟨u, rest, k', hu, by simp [hf, succeed]⟩

/-- A failure of the part is handed on as it is; a value that is refused is a failure at the start,
with no message. -/
theorem filter_eq_some_iff {c : α → Bool} {r : Reply κ α} :
    p.filter c k s = some r ↔
      (∃ rest m k', p k s = some ⟨.failure rest m, k'⟩ ∧ ⟨.failure rest m, k'⟩ = r) ∨
      (∃ v rest k', p k s = some ⟨.success v rest, k'⟩ ∧ c v = false ∧ ⟨.failure s none, k'⟩ = r) ∨
      ∃ v rest k', p k s = some ⟨.success v rest, k'⟩ ∧ c v = true ∧
        ⟨.success v rest, k'⟩ = r := by
  unfold filter
  rcases p k s with _ | ⟨⟨v, rest⟩ | ⟨rest, m⟩, k'⟩
  · simp
  · cases hc : c v <;> simp [hc, and_assoc]
  · simp [and_assoc]

/-- A failure of the part is a success without a value, and its clock stays. -/
theorem opt_eq_some_iff {r : Reply κ (Option α)} :
    p.opt k s = some r ↔
      (∃ rest m k', p k s = some ⟨.failure rest m, k'⟩ ∧ ⟨.success none s, k'⟩ = r) ∨
      ∃ v rest k', p k s = some ⟨.success v rest, k'⟩ ∧ ⟨.success (some v) rest, k'⟩ = r := by
  unfold opt
  rcases p k s with _ | ⟨⟨v, rest⟩ | ⟨rest, m⟩, k'⟩ <;> simp [and_assoc]

/-- Only the place and the message of a failure change. -/
theorem expect_eq_some_iff [Clock κ] {description : Text} {r : Reply κ α} :
    p.expect description k s = some r ↔
      (∃ rest m k', p k s = some ⟨.failure rest m, k'⟩ ∧
        ⟨.failure s (some (expectation (Clock.location k') description s)), k'⟩ = r) ∨
      ∃ v rest k', p k s = some ⟨.success v rest, k'⟩ ∧ ⟨.success v rest, k'⟩ = r := by
  unfold expect
  rcases p k s with _ | ⟨⟨v, rest⟩ | ⟨rest, m⟩, k'⟩ <;> simp [and_assoc]

theorem span_eq_some_iff [Clock κ] {r : Reply κ (α × Span)} :
    p.span k s = some r ↔
      ∃ r', p k s = some r' ∧
        r'.map (·, ⟨Clock.location k, Clock.location r'.clock, consumed s r'.outcome.rest⟩) = r :=
  Option.map_eq_some_iff

theorem span_eq_success_iff [Clock κ] {e : α × Span} :
    p.span k s = some ⟨.success e rest, k'⟩ ↔
      p k s = some ⟨.success e.1 rest, k'⟩ ∧
        e.2 = ⟨Clock.location k, Clock.location k', consumed s rest⟩ := by
  obtain ⟨v, place⟩ := e
  constructor
  · intro h
    obtain ⟨⟨⟨u, rest'⟩ | ⟨rest', m⟩, k₁⟩, hr, he⟩ := span_eq_some_iff.mp h <;> cases he
    exact ⟨hr, rfl⟩
  · rintro ⟨hr, rfl⟩
    exact span_eq_some_iff.mpr ⟨_, hr, rfl⟩

/-- The part sees `n` characters, and what it left of them stands in front of the others again. -/
theorem window_eq_some_iff {n : Nat} {r : Reply κ α} :
    p.window n k s = some r ↔
      (∃ rest m k', p k (s.take n) = some ⟨.failure rest m, k'⟩ ∧ ⟨.failure s m, k'⟩ = r) ∨
      ∃ v rest k', p k (s.take n) = some ⟨.success v rest, k'⟩ ∧
        ⟨.success v (s.drop ((s.take n).length - rest.length)), k'⟩ = r := by
  unfold window
  rcases p k (s.take n) with _ | ⟨⟨v, rest⟩ | ⟨rest, m⟩, k'⟩ <;> simp [and_assoc]

/-- The next part starts at the same text, but with the clock that the failed one left. -/
theorem choice_cons_eq_some_iff {ps : List (Parser κ α)} {r : Reply κ α} :
    choice (p :: ps) k s = some r ↔
      (∃ rest m k', p k s = some ⟨.failure rest m, k'⟩ ∧ choice ps k' s = some r) ∨
      ∃ v rest k', p k s = some ⟨.success v rest, k'⟩ ∧ ⟨.success v rest, k'⟩ = r := by
  rcases hp : p k s with _ | ⟨⟨v, rest⟩ | ⟨rest, m⟩, k'⟩ <;> simp [choice, hp, and_assoc]

/-! ## Rounds -/

/-- `Rounds p k s values rest k'`: rounds of `p` from `s` on find `values` and end at `rest`. -/
inductive Rounds (p : Parser κ α) : κ → Text → List α → Text → κ → Prop
  /-- there is no further round -/
  | done {k s rest m k'} : p k s = some ⟨.failure rest m, k'⟩ → Rounds p k s [] s k'
  /-- a round that consumes nothing is the last one -/
  | last {k s v rest k'} : p k s = some ⟨.success v rest, k'⟩ → rest.byteLength = s.byteLength →
      Rounds p k s [v] s k'
  /-- a round that consumes something -/
  | next {k s v rest k₁ values behind k'} : p k s = some ⟨.success v rest, k₁⟩ →
      rest.byteLength ≠ s.byteLength → Rounds p k₁ rest values behind k' →
      Rounds p k s (v :: values) behind k'

/-- The three things that a round of `many` can do, with the guard of each. -/
theorem manyRound_eq_some_iff {found : List α} {t : Turn (Progress κ α) (Reply κ (List α))} :
    manyRound p ⟨found, k, s⟩ = some t ↔
      (∃ rest m k', p k s = some ⟨.failure rest m, k'⟩ ∧ .stop ⟨.success found s, k'⟩ = t) ∨
      (∃ v rest k', p k s = some ⟨.success v rest, k'⟩ ∧ rest.byteLength = s.byteLength ∧
        .stop ⟨.success (found ++ [v]) s, k'⟩ = t) ∨
      ∃ v rest k', p k s = some ⟨.success v rest, k'⟩ ∧ rest.byteLength ≠ s.byteLength ∧
        .again ⟨found ++ [v], k', rest⟩ = t := by
  rcases hp : p k s with _ | ⟨⟨v, rest⟩ | ⟨rest, m⟩, k'⟩
  · simp [manyRound, hp]
  · by_cases hlen : rest.byteLength = s.byteLength <;> simp [manyRound, hp, hlen, and_assoc]
  · simp [manyRound, hp, and_assoc]

/-- Rounds that follow one another are a run of the loop, whatever values it begins with. -/
theorem Rounds.loopEnds {values : List α} {rest : Text} {k' : κ}
    (h : Rounds p k s values rest k') (found : List α) :
    LoopEnds (manyRound p) ⟨found, k, s⟩ ⟨.success (found ++ values) rest, k'⟩ := by
  induction h generalizing found with
  | done hp =>
    rw [List.append_nil]
    exact .stop (manyRound_eq_some_iff.mpr (.inl ⟨_, _, _, hp, rfl⟩))
  | last hp hlen => exact .stop (manyRound_eq_some_iff.mpr (.inr (.inl ⟨_, _, _, hp, hlen, rfl⟩)))
  | @next _ _ v _ _ _ _ _ hp hlen _ ih =>
    have hends := ih (found ++ [v])
    rw [List.append_assoc] at hends
    exact .again (manyRound_eq_some_iff.mpr (.inr (.inr ⟨_, _, _, hp, hlen, rfl⟩))) hends

/-- The values that a loop begins with stay in front of those that its rounds find. -/
theorem exists_rounds_of_loopEnds {x : Progress κ α} {r : Reply κ (List α)}
    (h : LoopEnds (manyRound p) x r) :
    ∃ values rest k', Rounds p x.clock x.text values rest k' ∧
      ⟨.success (x.found ++ values) rest, k'⟩ = r := by
  induction h with
  | @stop x r hround =>
    obtain ⟨found, k, s⟩ := x
    rcases manyRound_eq_some_iff.mp hround with
      ⟨rest, m, k', hp, he⟩ | ⟨v, rest, k', hp, hlen, he⟩ | ⟨v, rest, k', -, -, he⟩ <;> cases he
    · exact ⟨[], s, k', .done hp, by rw [List.append_nil]⟩
    · exact ⟨[v], s, k', .last hp hlen, rfl⟩
  | @again x y r hround _ ih =>
    obtain ⟨found, k, s⟩ := x
    rcases manyRound_eq_some_iff.mp hround with
      ⟨rest, m, k', -, he⟩ | ⟨v, rest, k', -, -, he⟩ | ⟨v, rest, k', hp, hlen, he⟩ <;> cases he
    obtain ⟨values, behind, k'', hrounds, rfl⟩ := ih
    refine ⟨v :: values, behind, k'', .next hp hlen hrounds, ?_⟩
    rw [List.append_assoc, List.singleton_append]

/-- The loop of `many`, from any values on, answers exactly what rounds lead to. -/
theorem loop_manyRound_eq_some_iff {found : List α} {r : Reply κ (List α)} :
    loop (manyRound p) ⟨found, k, s⟩ = some r ↔
      ∃ values rest k', Rounds p k s values rest k' ∧
        ⟨.success (found ++ values) rest, k'⟩ = r := by
  rw [loop_eq_some_iff]
  constructor
  · exact exists_rounds_of_loopEnds
  · rintro ⟨values, rest, k', hrounds, rfl⟩
    exact hrounds.loopEnds found

/-- `many` never fails: it answers exactly where its rounds come to an end. -/
theorem many_eq_some_iff {r : Reply κ (List α)} :
    many p k s = some r ↔
      ∃ values rest k', Rounds p k s values rest k' ∧ ⟨.success values rest, k'⟩ = r :=
  loop_manyRound_eq_some_iff

theorem Rounds.many_eq {values : List α} {rest : Text} {k' : κ}
    (h : Rounds p k s values rest k') : many p k s = some ⟨.success values rest, k'⟩ :=
  many_eq_some_iff.mpr ⟨values, rest, k', h, rfl⟩

theorem many_eq_success_iff {values : List α} {rest : Text} {k' : κ} :
    many p k s = some ⟨.success values rest, k'⟩ ↔ Rounds p k s values rest k' := by
  rw [many_eq_some_iff]
  constructor
  · rintro ⟨_, _, _, hrounds, he⟩
    cases he
    exact hrounds
  · intro hrounds
    exact ⟨_, _, _, hrounds, rfl⟩

/-! ## Rounds behind a first one -/

/-- A loop that begins with some values finds further ones, the same as without them. -/
theorem loop_manyRound (p : Parser κ α) (found : List α) (k : κ) (s : Text) :
    loop (manyRound p) ⟨found, k, s⟩ = map (found ++ ·) (many p) k s := by
  refine Option.ext fun r => ?_
  rw [loop_manyRound_eq_some_iff, map_eq_some_iff]
  constructor
  · rintro ⟨values, rest, k', hrounds, rfl⟩
    exact ⟨_, hrounds.many_eq, rfl⟩
  · rintro ⟨r', hr', rfl⟩
    obtain ⟨values, rest, k', hrounds, rfl⟩ := many_eq_some_iff.mp hr'
    exact ⟨values, rest, k', hrounds, rfl⟩

/-- The rounds of the two loops are written separately, but they do the same. -/
theorem many1Round_eq_manyRound (p : Parser κ α) : many1Round p = manyRound p := rfl

/-- `many1` is a first round and then `many`. What holds of these two holds of the loop of `many1`. -/
theorem many1_eq_andThen (p : Parser κ α) :
    many1 p = p.andThen fun v => map (v :: ·) (many p) := by
  funext k s
  rcases hp : p k s with _ | ⟨⟨v, rest⟩ | ⟨rest, m⟩, k₁⟩
  · simp [many1, andThen, hp]
  · simp only [many1, andThen, hp, many1Round_eq_manyRound, loop_manyRound, List.singleton_append]
    -- the rounds behind the first one are no failure that could be given back
    cases hmany : map (v :: ·) (many p) k₁ rest with
    | none => rfl
    | some r =>
      obtain ⟨r', hr', rfl⟩ := map_eq_some_iff.mp hmany
      obtain ⟨values, behind, k', -, rfl⟩ := many_eq_some_iff.mp hr'
      rfl
  · simp [many1, andThen, hp]

/-! ## Rounds of a separator and an item -/

/-- `SeparatedRounds p q k s values rest k'`: rounds of `q` and then `p` from `s` on find `values`
with `p` and end at `rest`. -/
inductive SeparatedRounds (p : Parser κ α) (q : Parser κ β) :
    κ → Text → List α → Text → κ → Prop
  /-- there is no further separator -/
  | done {k s rest m k'} : q k s = some ⟨.failure rest m, k'⟩ → SeparatedRounds p q k s [] s k'
  /-- a separator without an item is given back -/
  | dangling {k s u behind k₁ rest m k'} : q k s = some ⟨.success u behind, k₁⟩ →
      p k₁ behind = some ⟨.failure rest m, k'⟩ → SeparatedRounds p q k s [] s k'
  /-- a round that consumes nothing is the last one -/
  | last {k s u behind k₁ v rest k'} : q k s = some ⟨.success u behind, k₁⟩ →
      p k₁ behind = some ⟨.success v rest, k'⟩ → rest.byteLength = s.byteLength →
      SeparatedRounds p q k s [v] s k'
  /-- a round that consumes something -/
  | next {k s u behind k₁ v rest k₂ values stop k'} : q k s = some ⟨.success u behind, k₁⟩ →
      p k₁ behind = some ⟨.success v rest, k₂⟩ → rest.byteLength ≠ s.byteLength →
      SeparatedRounds p q k₂ rest values stop k' → SeparatedRounds p q k s (v :: values) stop k'

/-- The four things that a round of `sepBy` can do. Where an item is missing, its separator is not
passed. -/
theorem sepByRound_eq_some_iff {q : Parser κ β} {found : List α}
    {t : Turn (Progress κ α) (Reply κ (List α))} :
    sepByRound p q ⟨found, k, s⟩ = some t ↔
      (∃ rest m k', q k s = some ⟨.failure rest m, k'⟩ ∧ .stop ⟨.success found s, k'⟩ = t) ∨
      (∃ u behind k₁ rest m k', q k s = some ⟨.success u behind, k₁⟩ ∧
        p k₁ behind = some ⟨.failure rest m, k'⟩ ∧ .stop ⟨.success found s, k'⟩ = t) ∨
      (∃ u behind k₁ v rest k', q k s = some ⟨.success u behind, k₁⟩ ∧
        p k₁ behind = some ⟨.success v rest, k'⟩ ∧ rest.byteLength = s.byteLength ∧
        .stop ⟨.success (found ++ [v]) s, k'⟩ = t) ∨
      ∃ u behind k₁ v rest k', q k s = some ⟨.success u behind, k₁⟩ ∧
        p k₁ behind = some ⟨.success v rest, k'⟩ ∧ rest.byteLength ≠ s.byteLength ∧
        .again ⟨found ++ [v], k', rest⟩ = t := by
  rcases hq : q k s with _ | ⟨⟨u, behind⟩ | ⟨rest, m⟩, k₁⟩
  · simp [sepByRound, hq]
  · rcases hp : p k₁ behind with _ | ⟨⟨v, rest⟩ | ⟨rest, m⟩, k'⟩
    · simp [sepByRound, hq, hp, and_assoc]
    · by_cases hlen : rest.byteLength = s.byteLength <;>
        simp [sepByRound, hq, hp, hlen, and_assoc]
    · simp [sepByRound, hq, hp, and_assoc]
  · simp [sepByRound, hq, and_assoc]

theorem SeparatedRounds.loopEnds {q : Parser κ β} {values : List α} {rest : Text} {k' : κ}
    (h : SeparatedRounds p q k s values rest k') (found : List α) :
    LoopEnds (sepByRound p q) ⟨found, k, s⟩ ⟨.success (found ++ values) rest, k'⟩ := by
  induction h generalizing found with
  | done hq =>
    rw [List.append_nil]
    exact .stop (sepByRound_eq_some_iff.mpr (.inl ⟨_, _, _, hq, rfl⟩))
  | dangling hq hp =>
    rw [List.append_nil]
    exact .stop (sepByRound_eq_some_iff.mpr (.inr (.inl ⟨_, _, _, _, _, _, hq, hp, rfl⟩)))
  | last hq hp hlen =>
    refine .stop (sepByRound_eq_some_iff.mpr (.inr (.inr (.inl ?_))))
    exact ⟨_, _, _, _, _, _, hq, hp, hlen, rfl⟩
  | @next _ _ _ _ _ v _ _ _ _ _ hq hp hlen _ ih =>
    have hends := ih (found ++ [v])
    rw [List.append_assoc] at hends
    refine .again (sepByRound_eq_some_iff.mpr (.inr (.inr (.inr ?_)))) hends
    exact ⟨_, _, _, _, _, _, hq, hp, hlen, rfl⟩

theorem exists_separatedRounds_of_loopEnds {q : Parser κ β} {x : Progress κ α}
    {r : Reply κ (List α)} (h : LoopEnds (sepByRound p q) x r) :
    ∃ values rest k', SeparatedRounds p q x.clock x.text values rest k' ∧
      ⟨.success (x.found ++ values) rest, k'⟩ = r := by
  induction h with
  | @stop x r hround =>
    obtain ⟨found, k, s⟩ := x
    rcases sepByRound_eq_some_iff.mp hround with
      ⟨_, _, k', hq, he⟩ | ⟨_, _, k₁, _, _, k', hq, hp, he⟩ |
      ⟨_, _, k₁, v, _, k', hq, hp, hlen, he⟩ | ⟨_, _, k₁, v, _, k', -, -, -, he⟩ <;> cases he
    · exact ⟨[], s, k', .done hq, by rw [List.append_nil]⟩
    · exact ⟨[], s, k', .dangling hq hp, by rw [List.append_nil]⟩
    · exact ⟨[v], s, k', .last hq hp hlen, rfl⟩
  | @again x y r hround _ ih =>
    obtain ⟨found, k, s⟩ := x
    rcases sepByRound_eq_some_iff.mp hround with
      ⟨_, _, k', -, he⟩ | ⟨_, _, k₁, _, _, k', -, -, he⟩ |
      ⟨_, _, k₁, v, _, k', -, -, -, he⟩ | ⟨_, _, k₁, v, _, k', hq, hp, hlen, he⟩ <;> cases he
    obtain ⟨values, stop, k'', hrounds, rfl⟩ := ih
    refine ⟨v :: values, stop, k'', .next hq hp hlen hrounds, ?_⟩
    rw [List.append_assoc, List.singleton_append]

/-- The loop of `sepBy`, from any values on, answers exactly what rounds lead to. -/
theorem loop_sepByRound_eq_some_iff {q : Parser κ β} {found : List α} {r : Reply κ (List α)} :
    loop (sepByRound p q) ⟨found, k, s⟩ = some r ↔
      ∃ values rest k', SeparatedRounds p q k s values rest k' ∧
        ⟨.success (found ++ values) rest, k'⟩ = r := by
  rw [loop_eq_some_iff]
  constructor
  · exact exists_separatedRounds_of_loopEnds
  · rintro ⟨values, rest, k', hrounds, rfl⟩
    exact hrounds.loopEnds found

/-- `sepBy` never fails either: without a first item it finds an empty list. -/
theorem sepBy_eq_some_iff {q : Parser κ β} {r : Reply κ (List α)} :
    sepBy p q k s = some r ↔
      (∃ rest m k', p k s = some ⟨.failure rest m, k'⟩ ∧ ⟨.success [] s, k'⟩ = r) ∨
      ∃ v rest k₁ values behind k', p k s = some ⟨.success v rest, k₁⟩ ∧
        SeparatedRounds p q k₁ rest values behind k' ∧
        ⟨.success (v :: values) behind, k'⟩ = r := by
  unfold sepBy
  rcases p k s with _ | ⟨⟨v, rest⟩ | ⟨rest, m⟩, k'⟩ <;>
    simp [and_assoc, loop_sepByRound_eq_some_iff]

/-! ## The search for a stop -/

/-- `Search p q k s found k'`: items of `p` from `s` on are passed in search of a place where `q`
succeeds. At the end stands what was `found`, if anything: the values, that of `q` included, and the
text behind. -/
inductive Search (p q : Parser κ α) : κ → Text → Option (List α × Text) → κ → Prop
  /-- `q` succeeds here -/
  | found {k s v rest k'} : q k s = some ⟨.success v rest, k'⟩ →
      Search p q k s (some ([v], rest)) k'
  /-- there is no further item -/
  | stuck {k s rest₁ m₁ k₁ rest m k'} : q k s = some ⟨.failure rest₁ m₁, k₁⟩ →
      p k₁ s = some ⟨.failure rest m, k'⟩ → Search p q k s none k'
  /-- an item that consumes nothing leads nowhere -/
  | idle {k s rest₁ m₁ k₁ v rest k'} : q k s = some ⟨.failure rest₁ m₁, k₁⟩ →
      p k₁ s = some ⟨.success v rest, k'⟩ → rest.byteLength = s.byteLength → Search p q k s none k'
  /-- an item is passed -/
  | next {k s rest₁ m₁ k₁ v rest k₂ found k'} : q k s = some ⟨.failure rest₁ m₁, k₁⟩ →
      p k₁ s = some ⟨.success v rest, k₂⟩ → rest.byteLength ≠ s.byteLength →
      Search p q k₂ rest found k' →
      Search p q k s (found.map fun f => (v :: f.1, f.2)) k'

/-- The four things that a round of `manyTill` can do. The stop is tried first. -/
theorem manyTillRound_eq_some_iff {q : Parser κ α} {found : List α}
    {t : Turn (Progress κ α) (Option (List α × Text) × κ)} :
    manyTillRound p q ⟨found, k, s⟩ = some t ↔
      (∃ v rest k', q k s = some ⟨.success v rest, k'⟩ ∧
        .stop (some (found ++ [v], rest), k') = t) ∨
      (∃ rest₁ m₁ k₁ rest m k', q k s = some ⟨.failure rest₁ m₁, k₁⟩ ∧
        p k₁ s = some ⟨.failure rest m, k'⟩ ∧ .stop (none, k') = t) ∨
      (∃ rest₁ m₁ k₁ v rest k', q k s = some ⟨.failure rest₁ m₁, k₁⟩ ∧
        p k₁ s = some ⟨.success v rest, k'⟩ ∧ rest.byteLength = s.byteLength ∧
        .stop (none, k') = t) ∨
      ∃ rest₁ m₁ k₁ v rest k', q k s = some ⟨.failure rest₁ m₁, k₁⟩ ∧
        p k₁ s = some ⟨.success v rest, k'⟩ ∧ rest.byteLength ≠ s.byteLength ∧
        .again ⟨found ++ [v], k', rest⟩ = t := by
  rcases hq : q k s with _ | ⟨⟨v, rest⟩ | ⟨rest₁, m₁⟩, k₁⟩
  · simp [manyTillRound, hq]
  · simp [manyTillRound, hq, and_assoc]
  · rcases hp : p k₁ s with _ | ⟨⟨v, rest⟩ | ⟨rest, m⟩, k'⟩
    · simp [manyTillRound, hq, hp, and_assoc]
    · by_cases hlen : rest.byteLength = s.byteLength <;>
        simp [manyTillRound, hq, hp, hlen, and_assoc]
    · simp [manyTillRound, hq, hp, and_assoc]

/-- A search is a run of the loop of `manyTill`. Passed items count only if a stop is found. -/
theorem Search.loopEnds {q : Parser κ α} {end? : Option (List α × Text)} {k' : κ}
    (h : Search p q k s end? k') (found : List α) :
    LoopEnds (manyTillRound p q) ⟨found, k, s⟩
      (end?.map fun e => (found ++ e.1, e.2), k') := by
  induction h generalizing found with
  | found hq => exact .stop (manyTillRound_eq_some_iff.mpr (.inl ⟨_, _, _, hq, rfl⟩))
  | stuck hq hp =>
    exact .stop (manyTillRound_eq_some_iff.mpr (.inr (.inl ⟨_, _, _, _, _, _, hq, hp, rfl⟩)))
  | idle hq hp hlen =>
    refine .stop (manyTillRound_eq_some_iff.mpr (.inr (.inr (.inl ?_))))
    exact ⟨_, _, _, _, _, _, hq, hp, hlen, rfl⟩
  | @next _ _ _ _ _ v _ _ _ _ hq hp hlen _ ih =>
    have hends := ih (found ++ [v])
    simp only [List.append_assoc, List.singleton_append] at hends
    rw [Option.map_map]
    refine .again (manyTillRound_eq_some_iff.mpr (.inr (.inr (.inr ?_)))) hends
    exact ⟨_, _, _, _, _, _, hq, hp, hlen, rfl⟩

theorem exists_search_of_loopEnds {q : Parser κ α} {x : Progress κ α}
    {e : Option (List α × Text) × κ} (h : LoopEnds (manyTillRound p q) x e) :
    ∃ end? k', Search p q x.clock x.text end? k' ∧
      (end?.map fun f => (x.found ++ f.1, f.2), k') = e := by
  induction h with
  | @stop x e hround =>
    obtain ⟨found, k, s⟩ := x
    rcases manyTillRound_eq_some_iff.mp hround with
      ⟨_, _, k', hq, he⟩ | ⟨_, _, k₁, _, _, k', hq, hp, he⟩ |
      ⟨_, _, k₁, _, _, k', hq, hp, hlen, he⟩ | ⟨_, _, k₁, _, _, k', -, -, -, he⟩ <;> cases he
    · exact ⟨_, k', .found hq, rfl⟩
    · exact ⟨none, k', .stuck hq hp, rfl⟩
    · exact ⟨none, k', .idle hq hp hlen, rfl⟩
  | @again x y e hround _ ih =>
    obtain ⟨found, k, s⟩ := x
    rcases manyTillRound_eq_some_iff.mp hround with
      ⟨_, _, k', -, he⟩ | ⟨_, _, k₁, _, _, k', -, -, he⟩ |
      ⟨_, _, k₁, _, _, k', -, -, -, he⟩ | ⟨_, _, k₁, v, _, k', hq, hp, hlen, he⟩ <;> cases he
    obtain ⟨end?, k'', hsearch, rfl⟩ := ih
    refine ⟨_, k'', .next hq hp hlen hsearch, ?_⟩
    simp only [Option.map_map, Function.comp_def, List.append_assoc, List.singleton_append]

theorem itemsTill_eq_some_iff {q : Parser κ α} {found : Option (List α × Text)} {k' : κ} :
    itemsTill p q k s = some (found, k') ↔ Search p q k s found k' := by
  rw [itemsTill, loop_eq_some_iff]
  constructor
  · intro h
    obtain ⟨end?, k₁, hsearch, he⟩ := exists_search_of_loopEnds h
    simp only [List.nil_append, Option.map_id', Prod.mk.injEq] at he
    obtain ⟨rfl, rfl⟩ := he
    exact hsearch
  · intro h
    simpa using h.loopEnds []

theorem Search.itemsTill_eq {q : Parser κ α} {found : Option (List α × Text)} {k' : κ}
    (h : Search p q k s found k') : itemsTill p q k s = some (found, k') :=
  itemsTill_eq_some_iff.mpr h

/-- Where the search leads nowhere, the stop has the last word, on the whole text. -/
theorem manyTill_eq_some_iff {q : Parser κ α} {r : Reply κ (List α)} :
    manyTill p q k s = some r ↔
      (∃ values rest k', Search p q k s (some (values, rest)) k' ∧
        ⟨.success values rest, k'⟩ = r) ∨
      ∃ k₁ r', Search p q k s none k₁ ∧ q k₁ s = some r' ∧ r'.map ([·]) = r := by
  simp only [← itemsTill_eq_some_iff]
  unfold manyTill
  rcases itemsTill p q k s with _ | ⟨_ | ⟨values, rest⟩, k₁⟩ <;>
    simp [map_eq_some_iff, and_assoc]

end Parser

end Descent
