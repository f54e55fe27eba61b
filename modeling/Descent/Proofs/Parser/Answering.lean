import Descent.Proofs.Parser.Rest

/-!
# Parsers that give an answer

A parser may give no answer. `AnswersBelow n p` says that `p` answers every text shorter than `n`;
it also says that `p` leaves the end of the text, so that what comes behind `p` gets no longer a
text than `p` did. There is one lemma for each way to put parsers together. This is also why the
loops end: a round that does not make the text shorter consumes nothing, and so it is the last one.

The bound is the measure of all recursion: behind a parser that consumes something when it succeeds
(`Consumes`), a text is shorter by at least one (`andThen_of_consumes`).
-/

namespace Descent.Parser

variable {κ α β γ : Type}

/-- `p` answers every text shorter than `n`, and leaves the end of it. -/
structure AnswersBelow (n : Nat) (p : Parser κ α) : Prop where
  suffix : p.LeavesSuffix
  answers : ∀ k s, s.length < n → ∃ r, p k s = some r

/-- Where `p` succeeds, it consumes something. -/
def Consumes (p : Parser κ α) : Prop :=
  ∀ ⦃k s v rest k'⦄, p k s = some ⟨.success v rest, k'⟩ → rest.length < s.length

theorem LeavesSuffix.length_le {p : Parser κ α} (hp : p.LeavesSuffix) {k k' : κ} {s rest : Text}
    {v : α} (h : p k s = some ⟨.success v rest, k'⟩) : rest.length ≤ s.length := by
  have hrest : rest <:+ s := hp h
  exact hrest.length_le

/-! ## Consumption -/

namespace Consumes

variable {p : Parser κ α}

theorem map (hp : p.Consumes) (f : α → β) : (p.map f).Consumes := by
  intro k s v rest k' h
  obtain ⟨⟨⟨u, rest'⟩ | ⟨rest', m⟩, k₁⟩, hr, he⟩ := map_eq_some_iff.mp h
  · cases he
    exact hp hr
  · cases he

theorem andThen {f : α → Parser κ β} (hp : p.Consumes) (hf : ∀ v, (f v).LeavesSuffix) :
    (p.andThen f).Consumes := by
  intro k s v rest k' h
  obtain ⟨u, behind, k₁, hu, hv⟩ := andThen_eq_success_iff.mp h
  have hfirst := hp hu
  have hsecond := (hf u).length_le hv
  omega

/-- It is enough that what comes second consumes something. -/
theorem andThen_right {f : α → Parser κ β} (hp : p.LeavesSuffix) (hf : ∀ v, (f v).Consumes) :
    (p.andThen f).Consumes := by
  intro k s v rest k' h
  obtain ⟨u, behind, k₁, hu, hv⟩ := andThen_eq_success_iff.mp h
  have hfirst := hp.length_le hu
  have hsecond := hf u hv
  omega

theorem tryMap (hp : p.Consumes) (f : α → Option β) : (p.tryMap f).Consumes := by
  refine hp.andThen fun v => ?_
  cases f v with
  | none => exact .fail
  | some u => exact .succeed u

theorem between {left : Parser κ β} {right : Parser κ γ} (hleft : left.LeavesSuffix)
    (hright : right.LeavesSuffix) (hp : p.Consumes) : (between left right p).Consumes :=
  andThen_right hleft fun _ => hp.andThen fun _ => hright.map _

theorem filter (hp : p.Consumes) (c : α → Bool) : (p.filter c).Consumes := by
  intro k s v rest k' h
  rcases filter_eq_some_iff.mp h with
    ⟨_, m, k₁, -, he⟩ | ⟨u, rest₁, k₁, -, -, he⟩ | ⟨u, rest₁, k₁, hu, -, he⟩ <;> cases he
  exact hp hu

theorem expect [Clock κ] (hp : p.Consumes) (description : Text) :
    (p.expect description).Consumes := by
  intro k s v rest k' h
  rcases expect_eq_some_iff.mp h with ⟨_, m, k₁, -, he⟩ | ⟨u, rest₁, k₁, hu, he⟩ <;> cases he
  exact hp hu

theorem choice {ps : List (Parser κ α)} (hps : ∀ p ∈ ps, p.Consumes) : (choice ps).Consumes := by
  induction ps with
  | nil =>
    intro k s v rest k' h
    cases h
  | cons p ps ih =>
    intro k s v rest k' h
    rcases choice_cons_eq_some_iff.mp h with ⟨_, m, k₁, -, hr⟩ | ⟨u, rest₁, k₁, hu, he⟩
    · exact ih (fun q hq => hps q (List.mem_cons_of_mem p hq)) hr
    · cases he
      exact hps p List.mem_cons_self hu

end Consumes

/-! ## Answers -/

/-- A search ends if its parts give answers and each item leaves the end of its text: the search goes
on only while the text gets shorter. What the stop leaves does not matter. -/
theorem exists_search {n : Nat} {p q : Parser κ α} (hfront : p.TakesFront)
    (hp : ∀ k s, s.length < n → ∃ r, p k s = some r)
    (hq : ∀ k s, s.length < n → ∃ r, q k s = some r) (k : κ) {s : Text} (hs : s.length < n) :
    ∃ found k', Search p q k s found k' := by
  induction hm : s.length using Nat.strongRecOn generalizing k s with
  | ind m ih =>
    subst hm
    obtain ⟨⟨⟨v, rest⟩ | ⟨rest₁, m₁⟩, k₁⟩, h⟩ := hq k s hs
    · exact ⟨_, _, .found h⟩
    · obtain ⟨⟨⟨v, rest⟩ | ⟨rest, m⟩, k₂⟩, h'⟩ := hp k₁ s hs
      · by_cases hlen : rest.byteLength = s.byteLength
        · exact ⟨_, _, .idle h h' hlen⟩
        · have hshorter := hfront.shorter h' hlen
          obtain ⟨found, k₃, hsearch⟩ := ih _ hshorter k₂ (by omega) rfl
          exact ⟨_, _, .next h h' hlen hsearch⟩
      · exact ⟨_, _, .stuck h h'⟩

namespace AnswersBelow

variable {n : Nat} {p : Parser κ α} {q : Parser κ β}

theorem mono {m : Nat} (hp : p.AnswersBelow n) (hm : m ≤ n) : p.AnswersBelow m :=
  ⟨hp.suffix, fun k s hs => hp.answers k s (by omega)⟩

/-- The two kinds of an answer. -/
theorem cases (hp : p.AnswersBelow n) (k : κ) {s : Text} (hs : s.length < n) :
    (∃ rest m k', p k s = some ⟨.failure rest m, k'⟩) ∨
      ∃ v rest k', p k s = some ⟨.success v rest, k'⟩ ∧ rest.length ≤ s.length := by
  obtain ⟨⟨⟨v, rest⟩ | ⟨rest, m⟩, k'⟩, h⟩ := hp.answers k s hs
  · exact .inr ⟨v, rest, k', h, hp.suffix.length_le h⟩
  · exact .inl ⟨rest, m, k', h⟩

theorem succeed (v : α) : (succeed v : Parser κ α).AnswersBelow n :=
  ⟨.succeed v, fun _ _ _ => ⟨_, rfl⟩⟩

theorem fail : (fail : Parser κ α).AnswersBelow n :=
  ⟨.fail, fun _ _ _ => ⟨_, rfl⟩⟩

theorem map (hp : p.AnswersBelow n) (f : α → β) : (p.map f).AnswersBelow n := by
  refine ⟨hp.suffix.map f, fun k s hs => ?_⟩
  obtain ⟨r, hr⟩ := hp.answers k s hs
  exact ⟨_, map_eq_some_iff.mpr ⟨r, hr, rfl⟩⟩

/-- What comes behind `p` has to answer the texts that `p` can leave. -/
theorem andThen_of_length {m : Nat} {f : α → Parser κ β} (hp : p.AnswersBelow n)
    (hlength : ∀ ⦃k s v rest k'⦄, s.length < n → p k s = some ⟨.success v rest, k'⟩ →
      rest.length < m)
    (hf : ∀ v, (f v).AnswersBelow m) : (p.andThen f).AnswersBelow n := by
  refine ⟨hp.suffix.andThen fun v => (hf v).suffix, fun k s hs => ?_⟩
  rcases hp.cases k hs with ⟨rest, m, k', h⟩ | ⟨v, rest, k', h, -⟩
  · exact ⟨_, andThen_eq_some_iff.mpr (.inl ⟨_, _, _, h, rfl⟩)⟩
  · obtain ⟨r, hr⟩ := (hf v).answers k' rest (hlength hs h)
    exact ⟨_, andThen_eq_some_iff.mpr (.inr ⟨_, _, _, _, h, hr, rfl⟩)⟩

theorem andThen {f : α → Parser κ β} (hp : p.AnswersBelow n) (hf : ∀ v, (f v).AnswersBelow n) :
    (p.andThen f).AnswersBelow n := by
  refine hp.andThen_of_length (fun k s v rest k' hs h => ?_) hf
  have hle := hp.suffix.length_le h
  omega

/-- Behind a first part that consumes something, the second one has to answer on shorter texts only.
-/
theorem andThen_of_consumes {f : α → Parser κ β} (hp : p.AnswersBelow (n + 1))
    (hconsumes : p.Consumes) (hf : ∀ v, (f v).AnswersBelow n) :
    (p.andThen f).AnswersBelow (n + 1) := by
  refine hp.andThen_of_length (fun k s v rest k' hs h => ?_) hf
  have hlt := hconsumes h
  omega

theorem tryMap (hp : p.AnswersBelow n) (f : α → Option β) : (p.tryMap f).AnswersBelow n := by
  refine hp.andThen fun v => ?_
  cases f v with
  | none => exact fail
  | some u => exact succeed u

theorem filter (hp : p.AnswersBelow n) (c : α → Bool) : (p.filter c).AnswersBelow n := by
  refine ⟨hp.suffix.filter c, fun k s hs => ?_⟩
  rcases hp.cases k hs with ⟨rest, m, k', h⟩ | ⟨v, rest, k', h, -⟩
  · exact ⟨_, filter_eq_some_iff.mpr (.inl ⟨_, _, _, h, rfl⟩)⟩
  · cases hc : c v with
    | false => exact ⟨_, filter_eq_some_iff.mpr (.inr (.inl ⟨_, _, _, h, hc, rfl⟩))⟩
    | true => exact ⟨_, filter_eq_some_iff.mpr (.inr (.inr ⟨_, _, _, h, hc, rfl⟩))⟩

theorem opt (hp : p.AnswersBelow n) : p.opt.AnswersBelow n := by
  refine ⟨hp.suffix.opt, fun k s hs => ?_⟩
  rcases hp.cases k hs with ⟨rest, m, k', h⟩ | ⟨v, rest, k', h, -⟩
  · exact ⟨_, opt_eq_some_iff.mpr (.inl ⟨_, _, _, h, rfl⟩)⟩
  · exact ⟨_, opt_eq_some_iff.mpr (.inr ⟨_, _, _, h, rfl⟩)⟩

theorem expect [Clock κ] (hp : p.AnswersBelow n) (description : Text) :
    (p.expect description).AnswersBelow n := by
  refine ⟨hp.suffix.expect description, fun k s hs => ?_⟩
  rcases hp.cases k hs with ⟨rest, m, k', h⟩ | ⟨v, rest, k', h, -⟩
  · exact ⟨_, expect_eq_some_iff.mpr (.inl ⟨_, _, _, h, rfl⟩)⟩
  · exact ⟨_, expect_eq_some_iff.mpr (.inr ⟨_, _, _, h, rfl⟩)⟩

theorem span [Clock κ] (hp : p.AnswersBelow n) : p.span.AnswersBelow n := by
  refine ⟨hp.suffix.span, fun k s hs => ?_⟩
  obtain ⟨r, hr⟩ := hp.answers k s hs
  exact ⟨_, span_eq_some_iff.mpr ⟨r, hr, rfl⟩⟩

theorem window (hp : p.AnswersBelow n) (m : Nat) : (p.window m).AnswersBelow n := by
  refine ⟨.window p m, fun k s hs => ?_⟩
  have htake : (s.take m).length < n := by
    rw [List.length_take]
    omega
  rcases hp.cases k htake with ⟨rest, m, k', h⟩ | ⟨v, rest, k', h, -⟩
  · exact ⟨_, window_eq_some_iff.mpr (.inl ⟨_, _, _, h, rfl⟩)⟩
  · exact ⟨_, window_eq_some_iff.mpr (.inr ⟨_, _, _, h, rfl⟩)⟩

/-! ## Several parts -/

theorem choice {ps : List (Parser κ α)} (hps : ∀ p ∈ ps, p.AnswersBelow n) :
    (choice ps).AnswersBelow n := by
  refine ⟨.choice fun p hp => (hps p hp).suffix, ?_⟩
  induction ps with
  | nil => exact fail.answers
  | cons p ps ih =>
    intro k s hs
    rcases (hps p List.mem_cons_self).cases k hs with ⟨rest, m, k', h⟩ | ⟨v, rest, k', h, -⟩
    · obtain ⟨r, hr⟩ := ih (fun q hq => hps q (List.mem_cons_of_mem p hq)) k' s hs
      exact ⟨r, choice_cons_eq_some_iff.mpr (.inl ⟨_, _, _, h, hr⟩)⟩
    · exact ⟨_, choice_cons_eq_some_iff.mpr (.inr ⟨_, _, _, h, rfl⟩)⟩

theorem seq {ps : List (Parser κ α)} (hps : ∀ p ∈ ps, p.AnswersBelow n) :
    (seq ps).AnswersBelow n := by
  induction ps with
  | nil => exact succeed []
  | cons p ps ih =>
    have hrest := ih fun q hq => hps q (List.mem_cons_of_mem p hq)
    exact (hps p List.mem_cons_self).andThen fun v => hrest.map _

theorem recordFrom {parts : List (Option String × Parser κ α)}
    (hparts : ∀ e ∈ parts, e.2.AnswersBelow n) (captured : Fields α) :
    (recordFrom captured parts).AnswersBelow n := by
  induction parts generalizing captured with
  | nil => exact succeed captured
  | cons e parts ih =>
    have hrest := ih fun e' he' => hparts e' (List.mem_cons_of_mem e he')
    have he := hparts e List.mem_cons_self
    obtain ⟨_ | key, p⟩ := e
    · exact he.andThen fun v => hrest _
    · exact he.andThen fun v => hrest _

theorem between {left : Parser κ α} {right : Parser κ β} {inner : Parser κ γ}
    (hleft : left.AnswersBelow n) (hright : right.AnswersBelow n)
    (hinner : inner.AnswersBelow n) : (between left right inner).AnswersBelow n :=
  hleft.andThen fun _ => hinner.andThen fun _ => hright.map _

/-! ## Repetitions -/

/-- The rounds end, since each of them but the last is on a shorter text than the one before. -/
theorem exists_rounds (hp : p.AnswersBelow n) (k : κ) {s : Text} (hs : s.length < n) :
    ∃ values rest k', Rounds p k s values rest k' := by
  induction hm : s.length using Nat.strongRecOn generalizing k s with
  | ind m ih =>
    subst hm
    rcases hp.cases k hs with ⟨rest, m, k', h⟩ | ⟨v, rest, k', h, -⟩
    · exact ⟨_, _, _, .done h⟩
    · by_cases hlen : rest.byteLength = s.byteLength
      · exact ⟨_, _, _, .last h hlen⟩
      · have hshorter := hp.suffix.takesFront.shorter h hlen
        obtain ⟨values, stop, k₁, hrounds⟩ := ih _ hshorter k' (by omega) rfl
        exact ⟨_, _, _, .next h hlen hrounds⟩

theorem many (hp : p.AnswersBelow n) : AnswersBelow n (many p) := by
  refine ⟨hp.suffix.many, fun k s hs => ?_⟩
  obtain ⟨values, rest, k', hrounds⟩ := hp.exists_rounds k hs
  exact ⟨_, hrounds.many_eq⟩

/-- Behind the first round the text is no longer than it was, also if that round consumed nothing. -/
theorem many1 (hp : p.AnswersBelow n) : (many1 p).AnswersBelow n := by
  rw [many1_eq_andThen]
  exact hp.andThen fun _ => hp.many.map _

theorem exists_separatedRounds (hp : p.AnswersBelow n) (hq : q.AnswersBelow n) (k : κ) {s : Text}
    (hs : s.length < n) : ∃ values rest k', SeparatedRounds p q k s values rest k' := by
  induction hm : s.length using Nat.strongRecOn generalizing k s with
  | ind m ih =>
    subst hm
    rcases hq.cases k hs with ⟨rest, m, k', h⟩ | ⟨u, behind, k₁, h, hbehind⟩
    · exact ⟨_, _, _, .done h⟩
    · rcases hp.cases k₁ (show behind.length < n by omega) with
        ⟨rest, m, k', h'⟩ | ⟨v, rest, k', h', -⟩
      · exact ⟨_, _, _, .dangling h h'⟩
      · by_cases hlen : rest.byteLength = s.byteLength
        · exact ⟨_, _, _, .last h h' hlen⟩
        · -- a separator and an item are one round, and the two of them leave the end of its text
          have hsuffix : rest <:+ s := (hp.suffix h').trans (hq.suffix h)
          have hshorter := (Text.length_lt_iff_of_suffix hsuffix).mpr hlen
          obtain ⟨values, stop, k₂, hrounds⟩ := ih _ hshorter k' (by omega) rfl
          exact ⟨_, _, _, .next h h' hlen hrounds⟩

theorem sepBy (hp : p.AnswersBelow n) (hq : q.AnswersBelow n) : (sepBy p q).AnswersBelow n := by
  refine ⟨hp.suffix.sepBy hq.suffix, fun k s hs => ?_⟩
  rcases hp.cases k hs with ⟨rest, m, k', h⟩ | ⟨v, rest, k', h, hlen⟩
  · exact ⟨_, sepBy_eq_some_iff.mpr (.inl ⟨_, _, _, h, rfl⟩)⟩
  · obtain ⟨values, stop, k₁, hrounds⟩ :=
      hp.exists_separatedRounds hq k' (show rest.length < n by omega)
    exact ⟨_, sepBy_eq_some_iff.mpr (.inr ⟨_, _, _, _, _, _, h, hrounds, rfl⟩)⟩

/-- The stop is tried a last time on the whole text, where it was tried at first. -/
theorem manyTill {q : Parser κ α} (hp : p.AnswersBelow n) (hq : q.AnswersBelow n) :
    (manyTill p q).AnswersBelow n := by
  refine ⟨hp.suffix.manyTill hq.suffix, fun k s hs => ?_⟩
  obtain ⟨_ | ⟨values, rest⟩, k₁, hsearch⟩ :=
    exists_search hp.suffix.takesFront hp.answers hq.answers k hs
  · obtain ⟨r, hr⟩ := hq.answers k₁ s hs
    exact ⟨_, manyTill_eq_some_iff.mpr (.inr ⟨_, _, hsearch, hr, rfl⟩)⟩
  · exact ⟨_, manyTill_eq_some_iff.mpr (.inl ⟨_, _, _, hsearch, rfl⟩)⟩

end AnswersBelow

end Descent.Parser
