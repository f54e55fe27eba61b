import Descent.Proofs.Grammar.Composition
import Descent.Proofs.Terminal.SkippedSpace

/-!
# Parsers that do not see white space at the front

Two runs of one parser on texts that differ only in the white space at the front. The runs have to
be compared as long as they have not matched anything: up to there each of them stands at its own
text. With the first match both of them get past the white space, and from then on they stand at the
same text (`Advance`). The loops compare how much is left before and after a round, and this
comparison comes out the same in both runs (`Advance.byteLength_eq_iff`).

Clocks and messages of the two runs have nothing to do with each other.

* `IgnoresSpace`: the two runs find the same.
* `ignoresSpace_composable`: this is kept by all operations that parsers are put together with.
-/

namespace Descent

open Descent.Text

/-! ## Where two runs stand -/

/-- Two runs that started at `s` and `s'` stand at `rest` and `rest'`. -/
inductive Advance (s s' : Text) : Text → Text → Prop
  /-- nothing was matched -/
  | idle : Advance s s' s s'
  /-- both runs are past a match, at the same text -/
  | matched {rest : Text} : rest.byteLength < s.byteLength → rest.byteLength < s'.byteLength →
      behindSpace rest = rest → Advance s s' rest rest

namespace Advance

variable {s s' rest rest' stop stop' : Text}

/-- Behind such a step the texts again differ in the space at their front at most. -/
theorem behindSpace_eq (h : Advance s s' rest rest') (hs : behindSpace s = behindSpace s') :
    behindSpace rest = behindSpace rest' := by
  cases h with
  | idle => exact hs
  | matched => rfl

/-- The guard of a loop says the same of both texts. -/
theorem byteLength_eq_iff (h : Advance s s' rest rest') :
    rest.byteLength = s.byteLength ↔ rest'.byteLength = s'.byteLength := by
  cases h with
  | idle => simp
  | matched hlt hlt' => simp [Nat.ne_of_lt hlt, Nat.ne_of_lt hlt']

theorem trans (h : Advance s s' rest rest') (h' : Advance rest rest' stop stop') :
    Advance s s' stop stop' := by
  cases h with
  | idle => exact h'
  | matched hlt hlt' hspace =>
    cases h' with
    | idle => exact .matched hlt hlt' hspace
    | matched hlt₁ _ hspace₁ => exact .matched (by omega) (by omega) hspace₁

end Advance

namespace Parser

variable {κ α β γ : Type}

/-- The answers of two runs on `s` and `s'`: a failure of both, or the same value. -/
inductive SameReading (s s' : Text) : Reply κ α → Reply κ α → Prop
  | success {v : α} {rest rest' : Text} {k k' : κ} : Advance s s' rest rest' →
      SameReading s s' ⟨.success v rest, k⟩ ⟨.success v rest', k'⟩
  | failure {rest rest' : Text} {m m' : Option Text} {k k' : κ} :
      SameReading s s' ⟨.failure rest m, k⟩ ⟨.failure rest' m', k'⟩

/-- On texts that differ in the white space at the front, `p` finds the same. -/
def IgnoresSpace (p : Parser κ α) : Prop :=
  ∀ ⦃k k' s s' r⦄, behindSpace s = behindSpace s' → p k s = some r →
    ∃ r', p k' s' = some r' ∧ SameReading s s' r r'

namespace SameReading

variable {s s' rest rest' : Text} {r r' : Reply κ α}

theorem map (h : SameReading s s' r r') (f : α → β) : SameReading s s' (r.map f) (r'.map f) := by
  cases h with
  | success hrest => exact .success hrest
  | failure => exact .failure

/-- What was read behind a match is read from where the match began. -/
theorem rewind (h : SameReading rest rest' r r') (hrest : Advance s s' rest rest') :
    SameReading s s' (r.rewind s) (r'.rewind s') := by
  cases h with
  | success hstop => exact .success (hrest.trans hstop)
  | failure => exact .failure

end SameReading

namespace IgnoresSpace

variable {p : Parser κ α} {q : Parser κ β} {s s' rest : Text} {k k₁ : κ}

theorem on_failure (hp : p.IgnoresSpace) (hs : behindSpace s = behindSpace s') {m : Option Text}
    (h : p k s = some ⟨.failure rest m, k₁⟩) (k' : κ) :
    ∃ rest' m' k₁', p k' s' = some ⟨.failure rest' m', k₁'⟩ := by
  obtain ⟨r', hr', hsame⟩ := hp hs h
  cases hsame with
  | failure => exact ⟨_, _, _, hr'⟩

/-- The form in which the second run is used: it succeeds with the same value. -/
theorem on_success (hp : p.IgnoresSpace) (hs : behindSpace s = behindSpace s') {v : α}
    (h : p k s = some ⟨.success v rest, k₁⟩) (k' : κ) :
    ∃ rest' k₁', p k' s' = some ⟨.success v rest', k₁'⟩ ∧ Advance s s' rest rest' ∧
      behindSpace rest = behindSpace rest' := by
  obtain ⟨r', hr', hsame⟩ := hp hs h
  cases hsame with
  | success hrest => exact ⟨_, _, hr', hrest, hrest.behindSpace_eq hs⟩

/-! ## Single parts -/

theorem succeed (v : α) : (succeed v : Parser κ α).IgnoresSpace := by
  intro k k' s s' r hs h
  cases h
  exact ⟨_, rfl, .success .idle⟩

theorem fail : (fail : Parser κ α).IgnoresSpace := by
  intro k k' s s' r hs h
  cases h
  exact ⟨_, rfl, .failure⟩

theorem map (hp : p.IgnoresSpace) (f : α → β) : (p.map f).IgnoresSpace := by
  intro k k' s s' r hs h
  obtain ⟨r₁, hr₁, rfl⟩ := map_eq_some_iff.mp h
  obtain ⟨r₁', hr₁', hsame⟩ := hp hs hr₁
  exact ⟨_, map_eq_some_iff.mpr ⟨_, hr₁', rfl⟩, hsame.map f⟩

theorem andThen {f : α → Parser κ β} (hp : p.IgnoresSpace) (hf : ∀ v, (f v).IgnoresSpace) :
    (p.andThen f).IgnoresSpace := by
  intro k k' s s' r hs h
  rcases andThen_eq_some_iff.mp h with ⟨rest, m, k₁, hu, rfl⟩ | ⟨v, rest, k₁, r₁, hv, hr₁, rfl⟩
  · obtain ⟨rest', m', k₁', hu'⟩ := hp.on_failure hs hu k'
    exact ⟨_, andThen_eq_some_iff.mpr (.inl ⟨_, _, _, hu', rfl⟩), .failure⟩
  · obtain ⟨rest', k₁', hv', hrest, hbehind⟩ := hp.on_success hs hv k'
    obtain ⟨r₁', hr₁', hsame⟩ := hf v hbehind hr₁
    exact ⟨_, andThen_eq_some_iff.mpr (.inr ⟨_, _, _, _, hv', hr₁', rfl⟩), hsame.rewind hrest⟩

theorem filter (hp : p.IgnoresSpace) (c : α → Bool) : (p.filter c).IgnoresSpace := by
  intro k k' s s' r hs h
  rcases filter_eq_some_iff.mp h with
    ⟨rest, m, k₁, hu, rfl⟩ | ⟨v, rest, k₁, hv, hc, rfl⟩ | ⟨v, rest, k₁, hv, hc, rfl⟩
  · obtain ⟨rest', m', k₁', hu'⟩ := hp.on_failure hs hu k'
    exact ⟨_, filter_eq_some_iff.mpr (.inl ⟨_, _, _, hu', rfl⟩), .failure⟩
  · obtain ⟨rest', k₁', hv', -, -⟩ := hp.on_success hs hv k'
    exact ⟨_, filter_eq_some_iff.mpr (.inr (.inl ⟨_, _, _, hv', hc, rfl⟩)), .failure⟩
  · obtain ⟨rest', k₁', hv', hrest, -⟩ := hp.on_success hs hv k'
    exact ⟨_, filter_eq_some_iff.mpr (.inr (.inr ⟨_, _, _, hv', hc, rfl⟩)), .success hrest⟩

theorem opt (hp : p.IgnoresSpace) : p.opt.IgnoresSpace := by
  intro k k' s s' r hs h
  rcases opt_eq_some_iff.mp h with ⟨rest, m, k₁, hu, rfl⟩ | ⟨v, rest, k₁, hv, rfl⟩
  · obtain ⟨rest', m', k₁', hu'⟩ := hp.on_failure hs hu k'
    exact ⟨_, opt_eq_some_iff.mpr (.inl ⟨_, _, _, hu', rfl⟩), .success .idle⟩
  · obtain ⟨rest', k₁', hv', hrest, -⟩ := hp.on_success hs hv k'
    exact ⟨_, opt_eq_some_iff.mpr (.inr ⟨_, _, _, hv', rfl⟩), .success hrest⟩

theorem expect [Clock κ] (hp : p.IgnoresSpace) (description : Text) :
    (p.expect description).IgnoresSpace := by
  intro k k' s s' r hs h
  rcases expect_eq_some_iff.mp h with ⟨rest, m, k₁, hu, rfl⟩ | ⟨v, rest, k₁, hv, rfl⟩
  · obtain ⟨rest', m', k₁', hu'⟩ := hp.on_failure hs hu k'
    exact ⟨_, expect_eq_some_iff.mpr (.inl ⟨_, _, _, hu', rfl⟩), .failure⟩
  · obtain ⟨rest', k₁', hv', hrest, -⟩ := hp.on_success hs hv k'
    exact ⟨_, expect_eq_some_iff.mpr (.inr ⟨_, _, _, hv', rfl⟩), .success hrest⟩

theorem choice {ps : List (Parser κ α)} (hps : ∀ p ∈ ps, p.IgnoresSpace) :
    (choice ps).IgnoresSpace := by
  induction ps with
  | nil => exact fail
  | cons p ps ih =>
    have hp := hps p List.mem_cons_self
    intro k k' s s' r hs h
    rcases choice_cons_eq_some_iff.mp h with ⟨rest, m, k₁, hu, hr⟩ | ⟨v, rest, k₁, hv, rfl⟩
    · obtain ⟨rest', m', k₁', hu'⟩ := hp.on_failure hs hu k'
      obtain ⟨r', hr', hsame⟩ := ih (fun q hq => hps q (List.mem_cons_of_mem p hq)) hs hr
      exact ⟨r', choice_cons_eq_some_iff.mpr (.inl ⟨_, _, _, hu', hr'⟩), hsame⟩
    · obtain ⟨rest', k₁', hv', hrest, -⟩ := hp.on_success hs hv k'
      exact ⟨_, choice_cons_eq_some_iff.mpr (.inr ⟨_, _, _, hv', rfl⟩), .success hrest⟩

/-! ## Repetitions -/

/-- The rounds of both runs go on and stop together. -/
theorem rounds (hp : p.IgnoresSpace) {values : List α} (h : Rounds p k s values rest k₁) :
    ∀ k' {s'}, behindSpace s = behindSpace s' →
      ∃ rest' k₁', Rounds p k' s' values rest' k₁' ∧ Advance s s' rest rest' := by
  induction h with
  | done hu =>
    intro k' s' hs
    obtain ⟨rest', m', k₁', hu'⟩ := hp.on_failure hs hu k'
    exact ⟨s', k₁', .done hu', .idle⟩
  | last hv hlen =>
    intro k' s' hs
    obtain ⟨rest', k₁', hv', hrest, -⟩ := hp.on_success hs hv k'
    exact ⟨s', k₁', .last hv' (hrest.byteLength_eq_iff.mp hlen), .idle⟩
  | next hv hlen _ ih =>
    intro k' s' hs
    obtain ⟨rest', k₁', hv', hrest, hbehind⟩ := hp.on_success hs hv k'
    obtain ⟨stop', k₂', hrounds', hstop⟩ := ih k₁' hbehind
    exact ⟨stop', k₂', .next hv' (mt hrest.byteLength_eq_iff.mpr hlen) hrounds', hrest.trans hstop⟩

theorem many (hp : p.IgnoresSpace) : IgnoresSpace (many p) := by
  intro k k' s s' r hs h
  obtain ⟨values, rest, k₁, hrounds, rfl⟩ := many_eq_some_iff.mp h
  obtain ⟨rest', k₁', hrounds', hrest⟩ := hp.rounds hrounds k' hs
  exact ⟨_, hrounds'.many_eq, .success hrest⟩

/-- A separator and an item make one step, so the two comparisons are put together. -/
theorem separatedRounds (hp : p.IgnoresSpace) (hq : q.IgnoresSpace) {values : List α}
    (h : SeparatedRounds p q k s values rest k₁) :
    ∀ k' {s'}, behindSpace s = behindSpace s' →
      ∃ rest' k₁', SeparatedRounds p q k' s' values rest' k₁' ∧ Advance s s' rest rest' := by
  induction h with
  | done hu =>
    intro k' s' hs
    obtain ⟨rest', m', k₁', hu'⟩ := hq.on_failure hs hu k'
    exact ⟨s', k₁', .done hu', .idle⟩
  | dangling hu hv =>
    intro k' s' hs
    obtain ⟨behind', k₁', hu', -, hbehind⟩ := hq.on_success hs hu k'
    obtain ⟨rest', m', k₂', hv'⟩ := hp.on_failure hbehind hv k₁'
    exact ⟨s', k₂', .dangling hu' hv', .idle⟩
  | last hu hv hlen =>
    intro k' s' hs
    obtain ⟨behind', k₁', hu', hseparator, hbehind⟩ := hq.on_success hs hu k'
    obtain ⟨rest', k₂', hv', hitem, -⟩ := hp.on_success hbehind hv k₁'
    have hround := hseparator.trans hitem
    exact ⟨s', k₂', .last hu' hv' (hround.byteLength_eq_iff.mp hlen), .idle⟩
  | next hu hv hlen _ ih =>
    intro k' s' hs
    obtain ⟨behind', k₁', hu', hseparator, hbehind⟩ := hq.on_success hs hu k'
    obtain ⟨rest', k₂', hv', hitem, hrest⟩ := hp.on_success hbehind hv k₁'
    have hround := hseparator.trans hitem
    obtain ⟨stop', k₃', hrounds', hstop⟩ := ih k₂' hrest
    exact ⟨stop', k₃', .next hu' hv' (mt hround.byteLength_eq_iff.mpr hlen) hrounds', hround.trans hstop⟩

theorem sepBy (hp : p.IgnoresSpace) (hq : q.IgnoresSpace) : (sepBy p q).IgnoresSpace := by
  intro k k' s s' r hs h
  rcases sepBy_eq_some_iff.mp h with
    ⟨rest, m, k₁, hu, rfl⟩ | ⟨v, rest, k₁, values, stop, k₂, hv, hrounds, rfl⟩
  · obtain ⟨rest', m', k₁', hu'⟩ := hp.on_failure hs hu k'
    exact ⟨_, sepBy_eq_some_iff.mpr (.inl ⟨_, _, _, hu', rfl⟩), .success .idle⟩
  · obtain ⟨rest', k₁', hv', hrest, hbehind⟩ := hp.on_success hs hv k'
    obtain ⟨stop', k₂', hrounds', hstop⟩ := hp.separatedRounds hq hrounds k₁' hbehind
    exact ⟨_, sepBy_eq_some_iff.mpr (.inr ⟨_, _, _, _, _, _, hv', hrounds', rfl⟩),
      .success (hrest.trans hstop)⟩

/-- A search finds the same in both runs, or nothing in both. -/
theorem search {q : Parser κ α} (hp : p.IgnoresSpace) (hq : q.IgnoresSpace)
    {found : Option (List α × Text)} (h : Search p q k s found k₁) :
    ∀ k' {s'}, behindSpace s = behindSpace s' →
      ∃ found' k₁', Search p q k' s' found' k₁' ∧
        Option.Rel (fun f f' => f.1 = f'.1 ∧ Advance s s' f.2 f'.2) found found' := by
  induction h with
  | found hv =>
    intro k' s' hs
    obtain ⟨rest', k₁', hv', hrest, -⟩ := hq.on_success hs hv k'
    exact ⟨_, k₁', .found hv', .some ⟨rfl, hrest⟩⟩
  | stuck hu hv =>
    intro k' s' hs
    obtain ⟨rest', m', k₁', hu'⟩ := hq.on_failure hs hu k'
    obtain ⟨rest'', m'', k₂', hv'⟩ := hp.on_failure hs hv k₁'
    exact ⟨none, k₂', .stuck hu' hv', .none⟩
  | idle hu hv hlen =>
    intro k' s' hs
    obtain ⟨rest', m', k₁', hu'⟩ := hq.on_failure hs hu k'
    obtain ⟨rest'', k₂', hv', hrest, -⟩ := hp.on_success hs hv k₁'
    exact ⟨none, k₂', .idle hu' hv' (hrest.byteLength_eq_iff.mp hlen), .none⟩
  | next hu hv hlen _ ih =>
    intro k' s' hs
    obtain ⟨rest', m', k₁', hu'⟩ := hq.on_failure hs hu k'
    obtain ⟨rest'', k₂', hv', hrest, hbehind⟩ := hp.on_success hs hv k₁'
    obtain ⟨found', k₃', hsearch', hfound⟩ := ih k₂' hbehind
    refine ⟨_, k₃', .next hu' hv' (mt hrest.byteLength_eq_iff.mpr hlen) hsearch', ?_⟩
    cases hfound with
    | none => exact .none
    | some hf => exact .some ⟨congrArg (_ :: ·) hf.1, hrest.trans hf.2⟩

theorem manyTill {q : Parser κ α} (hp : p.IgnoresSpace) (hq : q.IgnoresSpace) :
    (manyTill p q).IgnoresSpace := by
  intro k k' s s' r hs h
  rcases manyTill_eq_some_iff.mp h with
    ⟨values, rest, k₁, hsearch, rfl⟩ | ⟨k₁, r₁, hsearch, hr₁, rfl⟩
  · obtain ⟨_ | ⟨values', rest'⟩, k₁', hsearch', hfound⟩ := hp.search hq hsearch k' hs
    · cases hfound
    · obtain ⟨rfl, hrest⟩ := Option.rel_some_some.mp hfound
      exact ⟨_, manyTill_eq_some_iff.mpr (.inl ⟨_, _, _, hsearch', rfl⟩), .success hrest⟩
  · obtain ⟨found', k₁', hsearch', hfound⟩ := hp.search hq hsearch k' hs
    cases hfound
    obtain ⟨r₁', hr₁', hsame⟩ := @hq k₁ k₁' s s' r₁ hs hr₁
    exact ⟨_, manyTill_eq_some_iff.mpr (.inr ⟨_, _, hsearch', hr₁', rfl⟩), hsame.map _⟩

end IgnoresSpace

/-- So whatever is put together from parsers that do not look at the space ignores it, too. -/
theorem ignoresSpace_composable : Composable (κ := κ) fun _ p => p.IgnoresSpace where
  succeed := IgnoresSpace.succeed
  fail := @fun _ => IgnoresSpace.fail
  map f hp := hp.map f
  andThen hp hf := hp.andThen hf
  filter c hp := hp.filter c
  choice hps := .choice hps
  opt hp := hp.opt
  many hp := hp.many
  sepBy hp hq := hp.sepBy hq
  manyTill hp hq := hp.manyTill hq

end Parser

end Descent
