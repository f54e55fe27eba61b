import Descent.Proofs.Grammar.Contract

/-!
# Repetition as a chain of rounds

The rounds of `Parser.many` form a chain: each one starts where the one before it ended, both in the
text and by the clock. A `MaximalChain` writes the chain down with all the texts and clocks between
its rounds, and without the loop that finds it. All rounds consume something, except possibly the
last one, and the chain ends only where it has to: behind a round that consumed nothing, or where
the part fails.

For a part that does not look at the clock the end of a chain is an end for good. To repeat the part
from there on leads nowhere, although a round that consumes nothing is found again.

* `Rounds.exists_chain`, `MaximalChain.rounds`: the chains of a part and the rounds of its repetition.
* `Rounds.stops`: why a chain ends.
* `many_is_maximal_chain`: both for one text.
-/

namespace Descent

namespace Parser

variable {κ α : Type} {p : Parser κ α} {k k' : κ} {s rest : Text} {v : α} {values : List α}

/-! ## Parts that do not look at the clock -/

/-- What `p` finds does not depend on the clock. What is left and said where it fails may. -/
structure IgnoresClock (p : Parser κ α) : Prop where
  success : ∀ {k s v rest k₁} (k' : κ), p k s = some ⟨.success v rest, k₁⟩ →
    ∃ k₁', p k' s = some ⟨.success v rest, k₁'⟩
  failure : ∀ {k s rest m k₁} (k' : κ), p k s = some ⟨.failure rest m, k₁⟩ →
    ∃ rest' m' k₁', p k' s = some ⟨.failure rest' m', k₁'⟩

/-! ## Chains -/

/-- A chain of rounds of `p` from the text `s` and the clock `k` on, which finds `values` and ends at
`rest`. Round `i` starts at `texts i` with `clocks i`. -/
structure MaximalChain (p : Parser κ α) (k : κ) (s : Text) (values : List α) (rest : Text)
    (texts : Nat → Text) (clocks : Nat → κ) : Prop where
  text_zero : texts 0 = s
  clock_zero : clocks 0 = k
  text_last : texts values.length = rest
  round : ∀ {i v}, values[i]? = some v →
    p (clocks i) (texts i) = some ⟨.success v (texts (i + 1)), clocks (i + 1)⟩
  shorter : ∀ {i}, i < values.length → (texts (i + 1)).length < (texts i).length ∨
    i + 1 = values.length ∧ texts (i + 1) = texts i
  maximal : (∃ i, i + 1 = values.length ∧ texts (i + 1) = texts i) ∨
    ∃ rest' m k', p (clocks values.length) rest = some ⟨.failure rest' m, k'⟩

/-- The sequence `f` behind a new first entry. -/
def prepend {β : Type} (b : β) (f : Nat → β) : Nat → β
  | 0 => b
  | i + 1 => f i

namespace MaximalChain

variable {texts : Nat → Text} {clocks : Nat → κ}

theorem cons {k₁ : κ} {s₁ : Text} (hround : p k s = some ⟨.success v s₁, k₁⟩)
    (hlen : s₁.length < s.length) (h : MaximalChain p k₁ s₁ values rest texts clocks) :
    MaximalChain p k s (v :: values) rest (prepend s texts) (prepend k clocks) where
  text_zero := rfl
  clock_zero := rfl
  text_last := h.text_last
  round := by
    intro i u hu
    cases i with
    | zero =>
      cases hu
      show p k s = some ⟨.success v (texts 0), clocks 0⟩
      rw [h.text_zero, h.clock_zero, hround]
    | succ i => exact h.round (by simpa using hu)
  shorter := by
    intro i hi
    cases i with
    | zero =>
      left
      show (texts 0).length < s.length
      rwa [h.text_zero]
    | succ i =>
      rcases h.shorter (Nat.lt_of_succ_lt_succ hi) with hlt | ⟨hlast, heq⟩
      · exact .inl hlt
      · exact .inr ⟨congrArg Nat.succ hlast, heq⟩
  maximal := by
    rcases h.maximal with ⟨i, hlast, heq⟩ | hfail
    · exact .inl ⟨i + 1, congrArg Nat.succ hlast, heq⟩
    · exact .inr hfail

/-- Behind a first round that consumed something stands a chain. -/
theorem tail (h : MaximalChain p k s (v :: values) rest texts clocks)
    (hlen : (texts 1).length < s.length) :
    MaximalChain p (clocks 1) (texts 1) values rest (fun i => texts (i + 1))
      (fun i => clocks (i + 1)) where
  text_zero := rfl
  clock_zero := rfl
  text_last := h.text_last
  round := by
    intro i u hu
    exact h.round (by simpa using hu)
  shorter := by
    intro i hi
    rcases h.shorter (Nat.succ_lt_succ hi) with hlt | ⟨hlast, heq⟩
    · exact .inl hlt
    · exact .inr ⟨Nat.succ.inj hlast, heq⟩
  maximal := by
    rcases h.maximal with ⟨i, hlast, heq⟩ | hfail
    · cases i with
      | zero =>
        -- the first round is not the one that consumed nothing
        rw [heq, h.text_zero] at hlen
        omega
      | succ i => exact .inl ⟨i, Nat.succ.inj hlast, heq⟩
    · exact .inr hfail

/-- The loop finds every chain. It compares texts by their bytes and a chain by their characters, which
is the same for the ends of a text. -/
theorem rounds (hp : p.TakesFront) (h : MaximalChain p k s values rest texts clocks) :
    ∃ k', Rounds p k s values rest k' := by
  induction values generalizing k s texts clocks with
  | nil =>
    have hrest : s = rest := h.text_zero.symm.trans h.text_last
    rcases h.maximal with ⟨i, hlast, -⟩ | ⟨rest', m, k', hfail⟩
    · cases hlast
    · have hclock : clocks ([] : List α).length = k := h.clock_zero
      rw [hclock, ← hrest] at hfail
      subst hrest
      exact ⟨k', .done hfail⟩
  | cons v values ih =>
    have hround : p k s = some ⟨.success v (texts 1), clocks 1⟩ := by
      have hzero := h.round (i := 0) rfl
      rwa [h.clock_zero, h.text_zero] at hzero
    rcases h.shorter (i := 0) (Nat.succ_pos _) with hlt | ⟨hlast, heq⟩
    · rw [h.text_zero] at hlt
      obtain ⟨k', hrounds⟩ := ih (h.tail hlt)
      have hne := (Text.length_lt_iff_of_suffix (hp hround)).mp hlt
      exact ⟨k', .next hround hne hrounds⟩
    · have hvalues : values = [] := List.eq_nil_of_length_eq_zero (Nat.succ.inj hlast).symm
      subst hvalues
      have hrest : s = rest := by
        rw [← h.text_zero, ← heq]
        exact h.text_last
      subst hrest
      have hidle : (texts 1).byteLength = s.byteLength := by
        rw [heq, h.text_zero]
      exact ⟨clocks 1, .last hround hidle⟩

end MaximalChain

namespace Rounds

/-- The texts and clocks between the rounds can be written down. -/
theorem exists_chain (hp : p.TakesFront) (h : Rounds p k s values rest k') :
    ∃ texts clocks, MaximalChain p k s values rest texts clocks := by
  induction h with
  | @done k s rest m k' hfail =>
    refine ⟨fun _ => s, fun _ => k, rfl, rfl, rfl, nofun, nofun, .inr ⟨rest, m, k', hfail⟩⟩
  | @last k s v rest k' hround hlen =>
    have hrest : rest = s := hp.eq_of_idle hround hlen
    subst hrest
    refine ⟨fun _ => rest, prepend k fun _ => k', rfl, rfl, rfl, ?_, ?_, .inl ⟨0, rfl, rfl⟩⟩
    · intro i u hu
      cases i with
      | zero =>
        cases hu
        exact hround
      | succ i => cases hu
    · intro i hi
      exact .inr ⟨by simpa using hi, rfl⟩
  | next hround hlen _ ih =>
    obtain ⟨texts, clocks, hchain⟩ := ih
    exact ⟨_, _, hchain.cons hround (hp.shorter hround hlen)⟩

/-- The rounds end where `p` fails or finds something without consuming anything. -/
theorem stops (hp : p.TakesFront) (h : Rounds p k s values rest k') :
    (∃ k₁ rest' m k₂, p k₁ rest = some ⟨.failure rest' m, k₂⟩) ∨
    ∃ k₁ v k₂, p k₁ rest = some ⟨.success v rest, k₂⟩ := by
  induction h with
  | done hfail => exact .inl ⟨_, _, _, _, hfail⟩
  | last hround hlen =>
    have hrest := hp.eq_of_idle hround hlen
    subst hrest
    exact .inr ⟨_, _, _, hround⟩
  | next _ _ _ ih => exact ih

end Rounds

/-- **A repetition is the maximal chain of its part.** It finds values and stops at a rest exactly if
there is a chain of rounds that does, in which only the last round may consume nothing, and which ends
behind such a round or where the part fails. If the part does not look at the clock, a repetition from
the rest on consumes nothing: it finds no value or a single one, that of a round that consumes
nothing. -/
theorem many_is_maximal_chain (hp : p.TakesFront) (k : κ) (s : Text) :
    (∀ values rest, (∃ k', many p k s = some ⟨.success values rest, k'⟩) ↔
      ∃ texts clocks, MaximalChain p k s values rest texts clocks) ∧
    (p.IgnoresClock → ∀ values rest k', many p k s = some ⟨.success values rest, k'⟩ →
      ∀ k₁, ∃ again k₂, many p k₁ rest = some ⟨.success again rest, k₂⟩ ∧
        (again = [] ∨ ∃ v k₃, again = [v] ∧ p k₁ rest = some ⟨.success v rest, k₃⟩)) := by
  refine ⟨fun values rest => ⟨?_, ?_⟩, ?_⟩
  · rintro ⟨k', hmany⟩
    exact (many_eq_success_iff.mp hmany).exists_chain hp
  · rintro ⟨texts, clocks, hchain⟩
    obtain ⟨k', hrounds⟩ := hchain.rounds hp
    exact ⟨k', hrounds.many_eq⟩
  · intro hclock values rest k' hmany k₁
    rcases (many_eq_success_iff.mp hmany).stops hp with ⟨_, _, _, _, hfail⟩ | ⟨_, v, _, hidle⟩
    · obtain ⟨_, _, k₂, hfail⟩ := hclock.failure k₁ hfail
      have hrounds : Rounds p k₁ rest [] rest k₂ := .done hfail
      exact ⟨[], k₂, hrounds.many_eq, .inl rfl⟩
    · obtain ⟨k₂, hidle⟩ := hclock.success k₁ hidle
      have hrounds : Rounds p k₁ rest [v] rest k₂ := .last hidle rfl
      exact ⟨[v], k₂, hrounds.many_eq, .inr ⟨v, k₂, rfl, hidle⟩⟩

end Parser

/-- A terminal only looks at the text. -/
theorem Terminal.parser_ignoresClock {κ : Type} [Clock κ] (t : Terminal Regex.Program) :
    (t.parser : Parser κ Text).IgnoresClock where
  success k' h := by
    rcases parser_eq_some_iff.mp h with ⟨-, he⟩ | ⟨n, hn, he⟩
    · cases he
    · cases he
      exact ⟨_, parser_eq_some_iff.mpr (.inr ⟨n, hn, rfl⟩)⟩
  failure k' h := by
    rcases parser_eq_some_iff.mp h with ⟨hn, -⟩ | ⟨n, -, he⟩
    · exact ⟨_, _, _, parser_eq_some_iff.mpr (.inl ⟨hn, rfl⟩)⟩
    · cases he

/-- Runs of at most two letters: the first two consume three letters, the third one nothing, and it is
the only one that is found again. -/
theorem Parser.many_is_maximal_chain_of_runs :
    let p : Parser Location Text := (Terminal.run (· == 'a') 0 (some 2)).parser
    let found : List Text := [['a', 'a'], ['a'], []]
    (p.TakesFront ∧ p.IgnoresClock) ∧
    many p ⟨1, 1⟩ ['a', 'a', 'a', 'b'] = some ⟨.success found ['b'], ⟨1, 4⟩⟩ ∧
    (∃ texts clocks, MaximalChain p ⟨1, 1⟩ ['a', 'a', 'a', 'b'] found ['b'] texts clocks) ∧
    ∃ again k₂, many p ⟨7, 1⟩ ['b'] = some ⟨.success again ['b'], k₂⟩ ∧
      (again = [] ∨ ∃ v k₃, again = [v] ∧ p ⟨7, 1⟩ ['b'] = some ⟨.success v ['b'], k₃⟩) := by
  intro p found
  have hfront : p.TakesFront := (Terminal.parser_leavesSuffix _).takesFront
  have hclock : p.IgnoresClock := Terminal.parser_ignoresClock _
  have hfirst : p ⟨1, 1⟩ ['a', 'a', 'a', 'b'] =
      some ⟨.success ['a', 'a'] ['a', 'b'], ⟨1, 3⟩⟩ := rfl
  have hsecond : p ⟨1, 3⟩ ['a', 'b'] = some ⟨.success ['a'] ['b'], ⟨1, 4⟩⟩ := rfl
  have hthird : p ⟨1, 4⟩ ['b'] = some ⟨.success [] ['b'], ⟨1, 4⟩⟩ := rfl
  have hrounds : Rounds p ⟨1, 1⟩ ['a', 'a', 'a', 'b'] found ['b'] ⟨1, 4⟩ :=
    .next hfirst (by decide) (.next hsecond (by decide) (.last hthird rfl))
  have hmany : many p ⟨1, 1⟩ ['a', 'a', 'a', 'b'] = some ⟨.success found ['b'], ⟨1, 4⟩⟩ :=
    hrounds.many_eq
  have hchain := many_is_maximal_chain hfront ⟨1, 1⟩ ['a', 'a', 'a', 'b']
  exact ⟨⟨hfront, hclock⟩, hmany, (hchain.1 _ _).mp ⟨_, hmany⟩, hchain.2 hclock _ _ _ hmany ⟨7, 1⟩⟩

end Descent
