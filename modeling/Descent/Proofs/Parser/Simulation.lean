import Descent.Proofs.Parser.Cases
import Descent.Proofs.Value.Relocation
import Mathlib.Data.List.Forall2

/-!
# Two runs side by side

Two parsers run on the same text with clocks of their own. They go together as long as the clocks
do, the same text is left, and the values and messages have to do with each other. What this means
is fixed by a `Link`: how the clocks are related, how the messages are, and what of a location is
still seen in the values. Everything that a parser does with a clock, namely to move it and to look
at the location, has to respect the link, and this is all that has to be checked for a new one.

`Follows φ p q` says that `q` answers whenever `p` does, and alike, where values are compared
through `φ`. There is one lemma for each way to put parsers together. To follow goes in one
direction only, so that `p` may also be a parser that gives up earlier than `q`.
-/

namespace Descent

open Descent.Parser

/-- How the clocks and the messages of two runs are related. -/
structure Link (κ κ' : Type) [Clock κ] [Clock κ'] where
  /-- the two clocks go together -/
  clock : κ → κ' → Prop
  /-- the two messages go together -/
  message : Text → Text → Prop
  /-- what is seen of a location in a value -/
  view : Location → Location
  clock_advance : ∀ {k k'} (text : Text), clock k k' →
    clock (Clock.advance k text) (Clock.advance k' text)
  view_location : ∀ {k k'}, clock k k' → view (Clock.location k) = view (Clock.location k')
  message_refl : ∀ m, message m m
  message_expectation : ∀ {k k'} (description input : Text), clock k k' →
    message (expectation (Clock.location k) description input)
      (expectation (Clock.location k') description input)

namespace Link

variable {κ κ' : Type} [Clock κ] [Clock κ'] {α β γ δ ε ζ : Type}

/-- The same link, with the runs in the other order. -/
def symm (L : Link κ κ') : Link κ' κ where
  clock k' k := L.clock k k'
  message m' m := L.message m m'
  view := L.view
  clock_advance text hk := L.clock_advance text hk
  view_location hk := (L.view_location hk).symm
  message_refl := L.message_refl
  message_expectation description input hk := L.message_expectation description input hk

/-- The answers of two runs: the same kind of outcome with the same rest, and values that look the
same through `φ`. -/
inductive Alike (L : Link κ κ') (φ : α → γ) : Reply κ α → Reply κ' α → Prop
  | success {v v' : α} {rest : Text} {k : κ} {k' : κ'} : φ v = φ v' → L.clock k k' →
      Alike L φ ⟨.success v rest, k⟩ ⟨.success v' rest, k'⟩
  | failure {rest : Text} {m m' : Option Text} {k : κ} {k' : κ'} : Option.Rel L.message m m' →
      L.clock k k' → Alike L φ ⟨.failure rest m, k⟩ ⟨.failure rest m', k'⟩

/-- Whenever `p` answers, `q` answers alike. -/
def Follows (L : Link κ κ') (φ : α → γ) (p : Parser κ α) (q : Parser κ' α) : Prop :=
  ∀ ⦃k k' s r⦄, L.clock k k' → p k s = some r → ∃ r', q k' s = some r' ∧ L.Alike φ r r'

variable {L : Link κ κ'} {φ : α → γ} {ψ : β → δ} {p : Parser κ α} {q : Parser κ' α}

namespace Alike

variable {r : Reply κ α} {r' : Reply κ' α}

theorem rest_eq (h : L.Alike φ r r') : r.outcome.rest = r'.outcome.rest := by
  cases h <;> rfl

theorem clock (h : L.Alike φ r r') : L.clock r.clock r'.clock := by
  cases h <;> assumption

/-- Where nothing is hidden the outcomes are equal. -/
theorem outcome_eq (h : L.Alike φ r r') (hφ : ∀ v v', φ v = φ v' → v = v')
    (hmessage : ∀ m m', L.message m m' → m = m') : r.outcome = r'.outcome := by
  cases h with
  | success hv _ => exact congrArg (Outcome.success · _) (hφ _ _ hv)
  | failure hm _ =>
    cases hm with
    | none => rfl
    | some hm => exact congrArg (Outcome.failure _ ∘ some) (hmessage _ _ hm)

theorem map {f g : α → β} (h : L.Alike φ r r') (hfg : ∀ v v', φ v = φ v' → ψ (f v) = ψ (g v')) :
    L.Alike ψ (r.map f) (r'.map g) := by
  cases h with
  | success hv hk => exact .success (hfg _ _ hv) hk
  | failure hm hk => exact .failure hm hk

theorem rewind (h : L.Alike φ r r') (s : Text) : L.Alike φ (r.rewind s) (r'.rewind s) := by
  cases h with
  | success hv hk => exact .success hv hk
  | failure hm hk => exact .failure hm hk

end Alike

namespace Follows

theorem success (h : L.Follows φ p q) {k k₁ : κ} {k' : κ'} {s rest : Text} {v : α}
    (hk : L.clock k k') (hr : p k s = some ⟨.success v rest, k₁⟩) :
    ∃ v' k₁', q k' s = some ⟨.success v' rest, k₁'⟩ ∧ φ v = φ v' ∧ L.clock k₁ k₁' := by
  obtain ⟨r', hr', hal⟩ := h hk hr
  cases hal with
  | success hv hk₁ => exact ⟨_, _, hr', hv, hk₁⟩

theorem failure (h : L.Follows φ p q) {k k₁ : κ} {k' : κ'} {s rest : Text} {m : Option Text}
    (hk : L.clock k k') (hr : p k s = some ⟨.failure rest m, k₁⟩) :
    ∃ m' k₁', q k' s = some ⟨.failure rest m', k₁'⟩ ∧ Option.Rel L.message m m' ∧
      L.clock k₁ k₁' := by
  obtain ⟨r', hr', hal⟩ := h hk hr
  cases hal with
  | failure hm hk₁ => exact ⟨_, _, hr', hm, hk₁⟩

/-! ## Single parts -/

theorem succeed {v v' : α} (hv : φ v = φ v') :
    L.Follows φ (Parser.succeed v) (Parser.succeed v') := by
  intro k k' s r hk h
  cases h
  exact ⟨_, rfl, .success hv hk⟩

theorem fail : L.Follows φ (Parser.fail : Parser κ α) Parser.fail := by
  intro k k' s r hk h
  cases h
  exact ⟨_, rfl, .failure .none hk⟩

theorem map {f g : α → β} (h : L.Follows φ p q) (hfg : ∀ v v', φ v = φ v' → ψ (f v) = ψ (g v')) :
    L.Follows ψ (p.map f) (q.map g) := by
  intro k k' s r hk hr
  obtain ⟨r₁, hr₁, rfl⟩ := map_eq_some_iff.mp hr
  obtain ⟨r₁', hr₁', hal⟩ := h hk hr₁
  exact ⟨_, map_eq_some_iff.mpr ⟨_, hr₁', rfl⟩, hal.map hfg⟩

theorem andThen {f : α → Parser κ β} {g : α → Parser κ' β} (h : L.Follows φ p q)
    (hfg : ∀ v v', φ v = φ v' → L.Follows ψ (f v) (g v')) :
    L.Follows ψ (p.andThen f) (q.andThen g) := by
  intro k k' s r hk hr
  rcases andThen_eq_some_iff.mp hr with ⟨rest, m, k₁, hp, rfl⟩ | ⟨v, rest, k₁, r₁, hp, hr₁, rfl⟩
  · obtain ⟨m', k₁', hq, hm, hk₁⟩ := h.failure hk hp
    exact ⟨_, andThen_eq_some_iff.mpr (.inl ⟨_, _, _, hq, rfl⟩), .failure hm hk₁⟩
  · obtain ⟨v', k₁', hq, hv, hk₁⟩ := h.success hk hp
    obtain ⟨r₁', hr₁', hal⟩ := hfg v v' hv hk₁ hr₁
    exact ⟨_, andThen_eq_some_iff.mpr (.inr ⟨_, _, _, _, hq, hr₁', rfl⟩), hal.rewind s⟩

theorem tryMap {f g : α → Option β} (h : L.Follows φ p q)
    (hfg : ∀ v v', φ v = φ v' → (f v).map ψ = (g v').map ψ) :
    L.Follows ψ (p.tryMap f) (q.tryMap g) := by
  refine h.andThen fun v v' hv => ?_
  have hopt := hfg v v' hv
  cases hf : f v with
  | none =>
    have hg : g v' = none := by simpa [hf, eq_comm] using hopt
    rw [hg]
    exact fail
  | some u =>
    rw [hf, Option.map_some, eq_comm, Option.map_eq_some_iff] at hopt
    obtain ⟨u', hg, hu⟩ := hopt
    rw [hg]
    exact succeed hu.symm

theorem filter {c d : α → Bool} (h : L.Follows φ p q) (hcd : ∀ v v', φ v = φ v' → c v = d v') :
    L.Follows φ (p.filter c) (q.filter d) := by
  intro k k' s r hk hr
  rcases filter_eq_some_iff.mp hr with
    ⟨rest, m, k₁, hp, rfl⟩ | ⟨v, rest, k₁, hp, hc, rfl⟩ | ⟨v, rest, k₁, hp, hc, rfl⟩
  · obtain ⟨m', k₁', hq, hm, hk₁⟩ := h.failure hk hp
    exact ⟨_, filter_eq_some_iff.mpr (.inl ⟨_, _, _, hq, rfl⟩), .failure hm hk₁⟩
  · obtain ⟨v', k₁', hq, hv, hk₁⟩ := h.success hk hp
    rw [hcd v v' hv] at hc
    exact ⟨_, filter_eq_some_iff.mpr (.inr (.inl ⟨_, _, _, hq, hc, rfl⟩)), .failure .none hk₁⟩
  · obtain ⟨v', k₁', hq, hv, hk₁⟩ := h.success hk hp
    rw [hcd v v' hv] at hc
    exact ⟨_, filter_eq_some_iff.mpr (.inr (.inr ⟨_, _, _, hq, hc, rfl⟩)), .success hv hk₁⟩

theorem opt (h : L.Follows φ p q) : L.Follows (Option.map φ) p.opt q.opt := by
  intro k k' s r hk hr
  rcases opt_eq_some_iff.mp hr with ⟨rest, m, k₁, hp, rfl⟩ | ⟨v, rest, k₁, hp, rfl⟩
  · obtain ⟨m', k₁', hq, hm, hk₁⟩ := h.failure hk hp
    exact ⟨_, opt_eq_some_iff.mpr (.inl ⟨_, _, _, hq, rfl⟩), .success rfl hk₁⟩
  · obtain ⟨v', k₁', hq, hv, hk₁⟩ := h.success hk hp
    exact ⟨_, opt_eq_some_iff.mpr (.inr ⟨_, _, _, hq, rfl⟩), .success (congrArg some hv) hk₁⟩

theorem expect (h : L.Follows φ p q) (description : Text) :
    L.Follows φ (p.expect description) (q.expect description) := by
  intro k k' s r hk hr
  rcases expect_eq_some_iff.mp hr with ⟨rest, m, k₁, hp, rfl⟩ | ⟨v, rest, k₁, hp, rfl⟩
  · obtain ⟨m', k₁', hq, hm, hk₁⟩ := h.failure hk hp
    exact ⟨_, expect_eq_some_iff.mpr (.inl ⟨_, _, _, hq, rfl⟩),
      .failure (.some (L.message_expectation description s hk₁)) hk₁⟩
  · obtain ⟨v', k₁', hq, hv, hk₁⟩ := h.success hk hp
    exact ⟨_, expect_eq_some_iff.mpr (.inr ⟨_, _, _, hq, rfl⟩), .success hv hk₁⟩

theorem span {φ : Value → γ} {p : Parser κ Value} {q : Parser κ' Value} (h : L.Follows φ p q) :
    L.Follows (fun e : Value × Span => (φ e.1, L.view e.2.start, L.view e.2.stop, e.2.text))
      p.span q.span := by
  intro k k' s r hk hr
  obtain ⟨r₁, hr₁, rfl⟩ := span_eq_some_iff.mp hr
  obtain ⟨r₁', hr₁', hal⟩ := h hk hr₁
  refine ⟨_, span_eq_some_iff.mpr ⟨_, hr₁', rfl⟩, hal.map fun v v' hv => ?_⟩
  simp only [hv, L.view_location hk, L.view_location hal.clock, hal.rest_eq]

theorem window (h : L.Follows φ p q) (n : Nat) : L.Follows φ (p.window n) (q.window n) := by
  intro k k' s r hk hr
  rcases window_eq_some_iff.mp hr with ⟨rest, m, k₁, hp, rfl⟩ | ⟨v, rest, k₁, hp, rfl⟩
  · obtain ⟨m', k₁', hq, hm, hk₁⟩ := h.failure hk hp
    exact ⟨_, window_eq_some_iff.mpr (.inl ⟨_, _, _, hq, rfl⟩), .failure hm hk₁⟩
  · obtain ⟨v', k₁', hq, hv, hk₁⟩ := h.success hk hp
    exact ⟨_, window_eq_some_iff.mpr (.inr ⟨_, _, _, hq, rfl⟩), .success hv hk₁⟩

/-! ## Several parts -/

theorem choice {ps : List (Parser κ α)} {qs : List (Parser κ' α)}
    (h : List.Forall₂ (L.Follows φ) ps qs) :
    L.Follows φ (Parser.choice ps) (Parser.choice qs) := by
  induction h with
  | nil => exact fail
  | @cons p q ps qs h _ ih =>
    intro k k' s r hk hr
    rcases choice_cons_eq_some_iff.mp hr with ⟨rest, m, k₁, hp, hps⟩ | ⟨v, rest, k₁, hp, rfl⟩
    · obtain ⟨m', k₁', hq, -, hk₁⟩ := h.failure hk hp
      obtain ⟨r', hr', hal⟩ := ih hk₁ hps
      exact ⟨r', choice_cons_eq_some_iff.mpr (.inl ⟨_, _, _, hq, hr'⟩), hal⟩
    · obtain ⟨v', k₁', hq, hv, hk₁⟩ := h.success hk hp
      exact ⟨_, choice_cons_eq_some_iff.mpr (.inr ⟨_, _, _, hq, rfl⟩), .success hv hk₁⟩

theorem seq {ps : List (Parser κ α)} {qs : List (Parser κ' α)}
    (h : List.Forall₂ (L.Follows φ) ps qs) :
    L.Follows (List.map φ) (Parser.seq ps) (Parser.seq qs) := by
  induction h with
  | nil => exact succeed rfl
  | cons h _ ih =>
    refine h.andThen fun v v' hv => ih.map fun vs vs' hvs => ?_
    rw [List.map_cons, List.map_cons, hv, hvs]

theorem between {pr : Parser κ β} {qr : Parser κ' β} {pi : Parser κ ε} {qi : Parser κ' ε}
    {χ : ε → ζ} (hleft : L.Follows φ p q) (hright : L.Follows ψ pr qr)
    (hinner : L.Follows χ pi qi) :
    L.Follows χ (Parser.between p pr pi) (Parser.between q qr qi) :=
  hleft.andThen fun _ _ _ => hinner.andThen fun _ _ hv => hright.map fun _ _ _ => hv

/-- Keys are compared as they are, values through `φ`. -/
theorem record {f : Location → Location} {ps : List (Option String × Parser κ Value)}
    {qs : List (Option String × Parser κ' Value)}
    (h : List.Forall₂ (fun a b => a.1 = b.1 ∧ L.Follows (Value.relocate f) a.2 b.2) ps qs) :
    L.Follows (List.map (Value.relocateField f)) (Parser.record ps) (Parser.record qs) := by
  suffices hfrom : ∀ captured captured' : Fields Value,
      captured.map (Value.relocateField f) = captured'.map (Value.relocateField f) →
      L.Follows (List.map (Value.relocateField f)) (recordFrom captured ps)
        (recordFrom captured' qs) from hfrom [] [] rfl
  induction h with
  | nil => exact fun captured captured' hcaptured => succeed hcaptured
  | @cons a b ps qs h _ ih =>
    intro captured captured' hcaptured
    obtain ⟨key, p⟩ := a
    obtain ⟨key', q⟩ := b
    obtain ⟨rfl, hpq⟩ := h
    cases key with
    | none => exact hpq.andThen fun _ _ _ => ih _ _ hcaptured
    | some key =>
      refine hpq.andThen fun v v' hv => ih _ _ ?_
      rw [Value.put_relocateField, Value.put_relocateField, hv, hcaptured]

/-! ## Repetitions -/

theorem rounds (h : L.Follows φ p q) {k k₁ : κ} {s rest : Text} {values : List α}
    (hr : Rounds p k s values rest k₁) : ∀ {k' : κ'}, L.clock k k' →
    ∃ values' k₁', Rounds q k' s values' rest k₁' ∧ values.map φ = values'.map φ ∧
      L.clock k₁ k₁' := by
  induction hr with
  | done hp =>
    intro k' hk
    obtain ⟨m', k₁', hq, -, hk₁⟩ := h.failure hk hp
    exact ⟨[], k₁', .done hq, rfl, hk₁⟩
  | last hp hlen =>
    intro k' hk
    obtain ⟨v', k₁', hq, hv, hk₁⟩ := h.success hk hp
    exact ⟨[v'], k₁', .last hq hlen, by rw [List.map_cons, hv]; rfl, hk₁⟩
  | next hp hlen _ ih =>
    intro k' hk
    obtain ⟨v', k₁', hq, hv, hk₁⟩ := h.success hk hp
    obtain ⟨values', k₂', hr', hvs, hk₂⟩ := ih hk₁
    exact ⟨v' :: values', k₂', .next hq hlen hr', by rw [List.map_cons, hv, hvs]; rfl, hk₂⟩

theorem many (h : L.Follows φ p q) : L.Follows (List.map φ) (Parser.many p) (Parser.many q) := by
  intro k k' s r hk hr
  obtain ⟨values, rest, k₁, hrounds, rfl⟩ := many_eq_some_iff.mp hr
  obtain ⟨values', k₁', hrounds', hvs, hk₁⟩ := h.rounds hrounds hk
  exact ⟨_, many_eq_some_iff.mpr ⟨_, _, _, hrounds', rfl⟩, .success hvs hk₁⟩

theorem many1 (h : L.Follows φ p q) : L.Follows (List.map φ) (many1 p) (many1 q) := by
  rw [many1_eq_andThen, many1_eq_andThen]
  refine h.andThen fun v v' hv => h.many.map fun vs vs' hvs => ?_
  rw [List.map_cons, List.map_cons, hv, hvs]

theorem separatedRounds {ps : Parser κ β} {qs : Parser κ' β} (h : L.Follows φ p q)
    (hs : L.Follows ψ ps qs) {k k₁ : κ} {s rest : Text} {values : List α}
    (hr : SeparatedRounds p ps k s values rest k₁) : ∀ {k' : κ'}, L.clock k k' →
    ∃ values' k₁', SeparatedRounds q qs k' s values' rest k₁' ∧ values.map φ = values'.map φ ∧
      L.clock k₁ k₁' := by
  induction hr with
  | done hu =>
    intro k' hk
    obtain ⟨m', k₁', hu', -, hk₁⟩ := hs.failure hk hu
    exact ⟨[], k₁', .done hu', rfl, hk₁⟩
  | dangling hu hp =>
    intro k' hk
    obtain ⟨u', k₁', hu', -, hk₁⟩ := hs.success hk hu
    obtain ⟨m', k₂', hq, -, hk₂⟩ := h.failure hk₁ hp
    exact ⟨[], k₂', .dangling hu' hq, rfl, hk₂⟩
  | last hu hp hlen =>
    intro k' hk
    obtain ⟨u', k₁', hu', -, hk₁⟩ := hs.success hk hu
    obtain ⟨v', k₂', hq, hv, hk₂⟩ := h.success hk₁ hp
    exact ⟨[v'], k₂', .last hu' hq hlen, by rw [List.map_cons, hv]; rfl, hk₂⟩
  | next hu hp hlen _ ih =>
    intro k' hk
    obtain ⟨u', k₁', hu', -, hk₁⟩ := hs.success hk hu
    obtain ⟨v', k₂', hq, hv, hk₂⟩ := h.success hk₁ hp
    obtain ⟨values', k₃', hr', hvs, hk₃⟩ := ih hk₂
    exact ⟨v' :: values', k₃', .next hu' hq hlen hr', by rw [List.map_cons, hv, hvs]; rfl, hk₃⟩

theorem sepBy {ps : Parser κ β} {qs : Parser κ' β} (h : L.Follows φ p q)
    (hs : L.Follows ψ ps qs) : L.Follows (List.map φ) (sepBy p ps) (sepBy q qs) := by
  intro k k' s r hk hr
  rcases sepBy_eq_some_iff.mp hr with
    ⟨rest, m, k₁, hp, rfl⟩ | ⟨v, rest, k₁, values, behind, k₂, hp, hrounds, rfl⟩
  · obtain ⟨m', k₁', hq, -, hk₁⟩ := h.failure hk hp
    exact ⟨_, sepBy_eq_some_iff.mpr (.inl ⟨_, _, _, hq, rfl⟩), .success rfl hk₁⟩
  · obtain ⟨v', k₁', hq, hv, hk₁⟩ := h.success hk hp
    obtain ⟨values', k₂', hrounds', hvs, hk₂⟩ := h.separatedRounds hs hrounds hk₁
    refine ⟨_, sepBy_eq_some_iff.mpr (.inr ⟨_, _, _, _, _, _, hq, hrounds', rfl⟩), ?_⟩
    exact .success (by rw [List.map_cons, hv, hvs]; rfl) hk₂

theorem search {ps : Parser κ α} {qs : Parser κ' α} (h : L.Follows φ p q)
    (hs : L.Follows φ ps qs) {k k₁ : κ} {s : Text} {found : Option (List α × Text)}
    (hr : Search p ps k s found k₁) : ∀ {k' : κ'}, L.clock k k' →
    ∃ found' k₁', Search q qs k' s found' k₁' ∧
      found.map (fun e => (e.1.map φ, e.2)) = found'.map (fun e => (e.1.map φ, e.2)) ∧
      L.clock k₁ k₁' := by
  induction hr with
  | found hu =>
    intro k' hk
    obtain ⟨v', k₁', hu', hv, hk₁⟩ := hs.success hk hu
    exact ⟨_, k₁', .found hu', by simp [hv], hk₁⟩
  | stuck hu hp =>
    intro k' hk
    obtain ⟨m', k₁', hu', -, hk₁⟩ := hs.failure hk hu
    obtain ⟨m₂, k₂', hq, -, hk₂⟩ := h.failure hk₁ hp
    exact ⟨none, k₂', .stuck hu' hq, rfl, hk₂⟩
  | idle hu hp hlen =>
    intro k' hk
    obtain ⟨m', k₁', hu', -, hk₁⟩ := hs.failure hk hu
    obtain ⟨v', k₂', hq, -, hk₂⟩ := h.success hk₁ hp
    exact ⟨none, k₂', .idle hu' hq hlen, rfl, hk₂⟩
  | @next _ _ _ _ _ _ _ _ found _ hu hp hlen _ ih =>
    intro k' hk
    obtain ⟨m', k₁', hu', -, hk₁⟩ := hs.failure hk hu
    obtain ⟨v', k₂', hq, hv, hk₂⟩ := h.success hk₁ hp
    obtain ⟨found', k₃', hr', hfound, hk₃⟩ := ih hk₂
    refine ⟨_, k₃', .next hu' hq hlen hr', ?_, hk₃⟩
    cases found <;> cases found' <;> simp_all

theorem manyTill {ps : Parser κ α} {qs : Parser κ' α} (h : L.Follows φ p q)
    (hs : L.Follows φ ps qs) : L.Follows (List.map φ) (manyTill p ps) (manyTill q qs) := by
  intro k k' s r hk hr
  rcases manyTill_eq_some_iff.mp hr with ⟨values, rest, k₁, hsearch, rfl⟩ | ⟨k₁, r₁, hsearch, hr₁, rfl⟩
  · obtain ⟨found', k₁', hsearch', hfound, hk₁⟩ := h.search hs hsearch hk
    obtain _ | ⟨values', rest'⟩ := found'
    · cases hfound
    · simp only [Option.map_some, Option.some.injEq, Prod.mk.injEq] at hfound
      obtain ⟨hvs, rfl⟩ := hfound
      exact ⟨_, manyTill_eq_some_iff.mpr (.inl ⟨_, _, _, hsearch', rfl⟩), .success hvs hk₁⟩
  · obtain ⟨_ | found', k₁', hsearch', hfound, hk₁⟩ := h.search hs hsearch hk
    · obtain ⟨r₁', hr₁', hal⟩ := hs hk₁ hr₁
      refine ⟨_, manyTill_eq_some_iff.mpr (.inr ⟨_, _, hsearch', hr₁', rfl⟩), hal.map ?_⟩
      exact fun v v' hv => congrArg (fun u => [u]) hv
    · cases hfound

end Follows

end Link

end Descent
