import Descent.Proofs.Parser.Cases

/-!
# Values and the shape of a parser

What a parser does with the text does not depend on what becomes of its values. So `map` can be
moved from the outside of a parser to its parts. There is one equation for each way to put parsers
together that a wrapper uses.
-/

namespace Descent.Parser

variable {κ α β γ δ ε : Type}

theorem map_map (f : α → β) (g : β → γ) (p : Parser κ α) : map g (map f p) = map (g ∘ f) p := by
  funext k s
  unfold map
  rw [Option.map_map]
  congr 1
  funext r
  exact congrArg (Reply.mk · r.clock) (Outcome.map_map f g r.outcome)

/-! ## Sequences -/

theorem map_rewind (f : α → β) (s : Text) (r : Reply κ α) :
    (r.rewind s).map f = (r.map f).rewind s := by
  obtain ⟨⟨v, rest⟩ | ⟨rest, m⟩, k⟩ := r <;> rfl

theorem map_andThen (f : β → γ) (p : Parser κ α) (h : α → Parser κ β) :
    map f (p.andThen h) = p.andThen fun v => map f (h v) := by
  funext k s
  unfold map andThen
  rcases p k s with _ | ⟨⟨v, rest⟩ | ⟨rest, m⟩, k₁⟩
  · rfl
  · show ((h v k₁ rest).map _).map _ = ((h v k₁ rest).map _).map _
    rw [Option.map_map, Option.map_map]
    exact congrArg (Option.map · _) (funext fun r => map_rewind f s r)
  · rfl

theorem andThen_map (f : α → β) (p : Parser κ α) (h : β → Parser κ γ) :
    (map f p).andThen h = p.andThen fun v => h (f v) := by
  funext k s
  simp only [map, andThen]
  rcases p k s with _ | ⟨⟨v, rest⟩ | ⟨rest, m⟩, k₁⟩ <;> rfl

theorem map_seq (f : α → β) (ps : List (Parser κ α)) :
    map (List.map f) (seq ps) = seq (ps.map (map f)) := by
  induction ps with
  | nil => rfl
  | cons p ps ih =>
    rw [seq, map_andThen, List.map_cons, seq, andThen_map]
    congr 1
    funext v
    rw [map_map, ← ih, map_map]
    rfl

theorem map_between (f : γ → δ) (left : Parser κ α) (right : Parser κ β) (inner : Parser κ γ) :
    map f (between left right inner) = between left right (map f inner) := by
  unfold between
  rw [map_andThen]
  congr 1
  funext u
  rw [map_andThen, andThen_map]
  congr 1
  funext v
  rw [map_map]
  rfl

/-- What stands on either side is read and forgotten. -/
theorem between_map (f : α → γ) (g : β → δ) (left : Parser κ α) (right : Parser κ β)
    (inner : Parser κ ε) :
    between (map f left) (map g right) inner = between left right inner := by
  unfold between
  rw [andThen_map]
  congr 1
  funext u
  congr 1
  funext v
  rw [map_map]
  rfl

/-! ## Conditions, messages and choices -/

theorem map_filter (f : α → β) (c : β → Bool) (p : Parser κ α) :
    map f (filter (fun v => c (f v)) p) = filter c (map f p) := by
  funext k s
  simp only [map, filter]
  rcases p k s with _ | ⟨⟨v, rest⟩ | ⟨rest, m⟩, k₁⟩
  · rfl
  · by_cases hc : c (f v) <;> simp [hc, Reply.map, Outcome.map]
  · rfl

theorem map_expect [Clock κ] (f : α → β) (description : Text) (p : Parser κ α) :
    map f (expect description p) = expect description (map f p) := by
  funext k s
  simp only [map, expect]
  rcases p k s with _ | ⟨⟨v, rest⟩ | ⟨rest, m⟩, k₁⟩ <;> rfl

theorem map_choice (f : α → β) (ps : List (Parser κ α)) :
    map f (choice ps) = choice (ps.map (map f)) := by
  induction ps with
  | nil => rfl
  | cons p ps ih =>
    funext k s
    have hps : ∀ k, map f (choice ps) k s = choice (ps.map (map f)) k s := by
      intro k
      rw [ih]
    simp only [List.map_cons, choice, map] at hps ⊢
    rcases p k s with _ | ⟨⟨v, rest⟩ | ⟨rest, m⟩, k₁⟩
    · rfl
    · rfl
    · exact hps k₁

theorem map_opt (f : α → β) (p : Parser κ α) : map (Option.map f) (opt p) = opt (map f p) := by
  funext k s
  simp only [map, opt]
  rcases p k s with _ | ⟨⟨v, rest⟩ | ⟨rest, m⟩, k₁⟩ <;> rfl

/-! ## Rounds -/

theorem Rounds.map {p : Parser κ α} {k k' : κ} {s rest : Text} {values : List α}
    (h : Rounds p k s values rest k') (f : α → β) :
    Rounds (p.map f) k s (values.map f) rest k' := by
  induction h with
  | done hp => exact .done (map_eq_some_iff.mpr ⟨_, hp, rfl⟩)
  | last hp hlen => exact .last (map_eq_success_iff.mpr ⟨_, hp, rfl⟩) hlen
  | next hp hlen _ ih => exact .next (map_eq_success_iff.mpr ⟨_, hp, rfl⟩) hlen ih

/-- Rounds of a mapped part are rounds of the part, with values of its own. -/
theorem Rounds.of_map {f : α → β} {p : Parser κ α} {k k' : κ} {s rest : Text} {found : List β}
    (h : Rounds (p.map f) k s found rest k') :
    ∃ values, Rounds p k s values rest k' ∧ values.map f = found := by
  induction h with
  | done hp =>
    obtain ⟨⟨⟨v, rest'⟩ | ⟨rest', m'⟩, k₁⟩, hr, he⟩ := map_eq_some_iff.mp hp <;> cases he
    exact ⟨[], .done hr, rfl⟩
  | last hp hlen =>
    obtain ⟨v, hv, rfl⟩ := map_eq_success_iff.mp hp
    exact ⟨[v], .last hv hlen, rfl⟩
  | next hp hlen _ ih =>
    obtain ⟨v, hv, rfl⟩ := map_eq_success_iff.mp hp
    obtain ⟨values, hrounds, rfl⟩ := ih
    exact ⟨v :: values, .next hv hlen hrounds, rfl⟩

/-- Values can be mapped one by one or all at once. -/
theorem map_many (f : α → β) (p : Parser κ α) : map (List.map f) (many p) = many (map f p) := by
  funext k s
  refine Option.ext fun r => ?_
  rw [map_eq_some_iff, many_eq_some_iff]
  constructor
  · rintro ⟨r', hr', rfl⟩
    obtain ⟨values, rest, k', hrounds, rfl⟩ := many_eq_some_iff.mp hr'
    exact ⟨_, _, _, hrounds.map f, rfl⟩
  · rintro ⟨found, rest, k', hrounds, rfl⟩
    obtain ⟨values, hvalues, rfl⟩ := hrounds.of_map
    exact ⟨_, hvalues.many_eq, rfl⟩

theorem map_many1 (f : α → β) (p : Parser κ α) :
    map (List.map f) (many1 p) = many1 (map f p) := by
  rw [many1_eq_andThen, many1_eq_andThen, map_andThen, andThen_map, ← map_many]
  congr 1
  funext v
  rw [map_map, map_map]
  rfl

end Descent.Parser
