import Descent.Grammar.Semantics
import Descent.Proofs.Parser.Cases

/-!
# The text that a parser leaves

Two facts about the rest of an answer. The text that is left is the end of the text that was given
(`LeavesSuffix`), for successes (`TakesFront`) and for failures. A parser that fails gives back
everything (`GivesBack`); here it matters how a parser treats the failure of a part. Parsers that go
on behind a part (`andThen` and all that are made with it) and parsers that try something else put
the failure at their own input, whatever the part did. Those that only look at the value of a part
hand its failure on, and so does `manyTill` with its stop.
-/

namespace Descent

namespace Parser

variable {κ α β γ : Type}

/-- Whatever `p` answers, the text that is left is the end of the text that was given. -/
def LeavesSuffix (p : Parser κ α) : Prop :=
  ∀ ⦃k s r⦄, p k s = some r → r.outcome.rest <:+ s

/-- Where `p` succeeds, the text that is left is the end of the text that was given. -/
def TakesFront (p : Parser κ α) : Prop :=
  ∀ ⦃k s v rest k'⦄, p k s = some ⟨.success v rest, k'⟩ → rest <:+ s

/-- Where `p` fails, everything is given back. -/
def GivesBack (p : Parser κ α) : Prop :=
  ∀ ⦃k s rest m k'⦄, p k s = some ⟨.failure rest m, k'⟩ → rest = s

theorem LeavesSuffix.takesFront {p : Parser κ α} (hp : p.LeavesSuffix) : p.TakesFront :=
  fun _ _ _ _ _ h => hp h

section TakesFront

variable {p : Parser κ α} {k k' : κ} {s rest : Text} {v : α}

/-- Where a loop stops because a round left as many bytes as it was given, the round consumed
nothing. -/
theorem TakesFront.eq_of_idle (hp : p.TakesFront) (h : p k s = some ⟨.success v rest, k'⟩)
    (hlen : rest.byteLength = s.byteLength) : rest = s := by
  have hsuffix : rest <:+ s := hp h
  have hle : rest.length ≤ s.length := hsuffix.length_le
  refine hsuffix.eq_of_length (Nat.le_antisymm hle (Nat.le_of_not_lt fun hlt => ?_))
  exact (Text.length_lt_iff_of_suffix hsuffix).mp hlt hlen

/-- Where a loop goes on, the text got shorter. -/
theorem TakesFront.shorter (hp : p.TakesFront) (h : p k s = some ⟨.success v rest, k'⟩)
    (hlen : rest.byteLength ≠ s.byteLength) : rest.length < s.length :=
  (Text.length_lt_iff_of_suffix (hp h)).mpr hlen

end TakesFront

/-- What a rewound answer leaves is an end of an end, or everything. -/
theorem rest_rewind_suffix {s t : Text} {r : Reply κ α} (hr : r.outcome.rest <:+ t)
    (ht : t <:+ s) : (r.rewind s).outcome.rest <:+ s := by
  obtain ⟨⟨v, rest⟩ | ⟨rest, m⟩, k⟩ := r
  · exact hr.trans ht
  · exact List.suffix_rfl

/-! ## Suffixes -/

namespace LeavesSuffix

variable {p : Parser κ α} {q : Parser κ β}

theorem succeed (v : α) : (succeed v : Parser κ α).LeavesSuffix := by
  intro k s r h
  cases h
  exact List.suffix_rfl

theorem fail : (fail : Parser κ α).LeavesSuffix := by
  intro k s r h
  cases h
  exact List.suffix_rfl

theorem map (hp : p.LeavesSuffix) (f : α → β) : (p.map f).LeavesSuffix := by
  intro k s r h
  obtain ⟨r', hr', rfl⟩ := map_eq_some_iff.mp h
  have := hp hr'
  simpa [Reply.map] using this

theorem andThen {f : α → Parser κ β} (hp : p.LeavesSuffix) (hf : ∀ v, (f v).LeavesSuffix) :
    (p.andThen f).LeavesSuffix := by
  intro k s r h
  rcases andThen_eq_some_iff.mp h with ⟨rest, m, k', -, rfl⟩ | ⟨v, rest, k', r', hv, hr', rfl⟩
  · exact List.suffix_rfl
  · exact rest_rewind_suffix (hf v hr') (hp hv)

theorem tryMap (hp : p.LeavesSuffix) (f : α → Option β) : (p.tryMap f).LeavesSuffix := by
  refine hp.andThen fun v => ?_
  cases f v with
  | none => exact fail
  | some found => exact succeed found

theorem filter (hp : p.LeavesSuffix) (c : α → Bool) : (p.filter c).LeavesSuffix := by
  intro k s r h
  rcases filter_eq_some_iff.mp h with
    ⟨rest, m, k', hr, rfl⟩ | ⟨v, rest, k', -, -, rfl⟩ | ⟨v, rest, k', hr, -, rfl⟩
  · exact hp hr
  · exact List.suffix_rfl
  · exact hp hr

theorem opt (hp : p.LeavesSuffix) : p.opt.LeavesSuffix := by
  intro k s r h
  rcases opt_eq_some_iff.mp h with ⟨rest, m, k', -, rfl⟩ | ⟨v, rest, k', hr, rfl⟩
  · exact List.suffix_rfl
  · exact hp hr

theorem expect [Clock κ] (hp : p.LeavesSuffix) (description : Text) :
    (p.expect description).LeavesSuffix := by
  intro k s r h
  rcases expect_eq_some_iff.mp h with ⟨rest, m, k', -, rfl⟩ | ⟨v, rest, k', hr, rfl⟩
  · exact List.suffix_rfl
  · exact hp hr

theorem span [Clock κ] (hp : p.LeavesSuffix) : p.span.LeavesSuffix := by
  intro k s r h
  obtain ⟨r', hr', rfl⟩ := span_eq_some_iff.mp h
  have := hp hr'
  simpa [Reply.map] using this

/-- Nothing is asked of the part: what it left is used only to count the characters it took. -/
theorem window (p : Parser κ α) (n : Nat) : (p.window n).LeavesSuffix := by
  intro k s r h
  rcases window_eq_some_iff.mp h with ⟨rest, m, k', -, rfl⟩ | ⟨v, rest, k', -, rfl⟩
  · exact List.suffix_rfl
  · exact List.drop_suffix _ _

theorem choice {ps : List (Parser κ α)} (hps : ∀ p ∈ ps, p.LeavesSuffix) :
    (choice ps).LeavesSuffix := by
  induction ps with
  | nil => exact fail
  | cons p ps ih =>
    intro k s r h
    rcases choice_cons_eq_some_iff.mp h with ⟨rest, m, k', -, hr⟩ | ⟨v, rest, k', hr, rfl⟩
    · exact ih (fun q hq => hps q (List.mem_cons_of_mem _ hq)) hr
    · exact hps p List.mem_cons_self hr

theorem seq {ps : List (Parser κ α)} (hps : ∀ p ∈ ps, p.LeavesSuffix) :
    (seq ps).LeavesSuffix := by
  induction ps with
  | nil => exact succeed []
  | cons p ps ih =>
    refine (hps p List.mem_cons_self).andThen fun v => ?_
    exact (ih fun q hq => hps q (List.mem_cons_of_mem _ hq)).map _

theorem record {parts : List (Option String × Parser κ α)}
    (hparts : ∀ part ∈ parts, part.2.LeavesSuffix) : (record parts).LeavesSuffix := by
  suffices h : ∀ captured, (recordFrom captured parts).LeavesSuffix from h []
  induction parts with
  | nil => exact succeed
  | cons part parts ih =>
    intro captured
    have hp := hparts part List.mem_cons_self
    have hrest := ih fun q hq => hparts q (List.mem_cons_of_mem _ hq)
    obtain ⟨_ | key, p⟩ := part
    · exact hp.andThen fun _ => hrest captured
    · exact hp.andThen fun v => hrest (captured.put key v)

theorem between {right : Parser κ γ} (hp : p.LeavesSuffix) (hright : right.LeavesSuffix)
    (hq : q.LeavesSuffix) : (between p right q).LeavesSuffix :=
  hp.andThen fun _ => hq.andThen fun _ => hright.map _

end LeavesSuffix

theorem Rounds.rest_suffix {p : Parser κ α} {k k' : κ} {s rest : Text} {values : List α}
    (hp : p.LeavesSuffix) (h : Rounds p k s values rest k') : rest <:+ s := by
  induction h with
  | done _ => exact List.suffix_rfl
  | last _ _ => exact List.suffix_rfl
  | next hr _ _ ih => exact ih.trans (hp hr)

theorem SeparatedRounds.rest_suffix {p : Parser κ α} {q : Parser κ β} {k k' : κ} {s rest : Text}
    {values : List α} (hp : p.LeavesSuffix) (hq : q.LeavesSuffix)
    (h : SeparatedRounds p q k s values rest k') : rest <:+ s := by
  induction h with
  | done _ => exact List.suffix_rfl
  | dangling _ _ => exact List.suffix_rfl
  | last _ _ _ => exact List.suffix_rfl
  | next hu hv _ _ ih => exact ih.trans ((hp hv).trans (hq hu))

theorem Search.rest_suffix {p q : Parser κ α} {k k' : κ} {s : Text}
    {found : Option (List α × Text)} (hp : p.LeavesSuffix) (hq : q.LeavesSuffix)
    (h : Search p q k s found k') : ∀ f ∈ found, f.2 <:+ s := by
  induction h with
  | found hr =>
    rintro f ⟨⟩
    exact hq hr
  | stuck _ _ => exact nofun
  | idle _ _ _ => exact nofun
  | next _ hr _ _ ih =>
    intro f hf
    obtain ⟨f', hf', rfl⟩ := Option.map_eq_some_iff.mp hf
    exact (ih f' hf').trans (hp hr)

namespace LeavesSuffix

variable {p : Parser κ α} {q : Parser κ β}

theorem many (hp : p.LeavesSuffix) : LeavesSuffix (many p) := by
  intro k s r h
  obtain ⟨values, rest, k', hrounds, rfl⟩ := many_eq_some_iff.mp h
  exact hrounds.rest_suffix hp

theorem many1 (hp : p.LeavesSuffix) : (many1 p).LeavesSuffix := by
  rw [many1_eq_andThen]
  exact hp.andThen fun _ => hp.many.map _

theorem sepBy (hp : p.LeavesSuffix) (hq : q.LeavesSuffix) : (sepBy p q).LeavesSuffix := by
  intro k s r h
  rcases sepBy_eq_some_iff.mp h with
    ⟨rest, m, k', -, rfl⟩ | ⟨v, rest, k', values, behind, k'', hv, hrounds, rfl⟩
  · exact List.suffix_rfl
  · exact (hrounds.rest_suffix hp hq).trans (hp hv)

theorem manyTill {q : Parser κ α} (hp : p.LeavesSuffix) (hq : q.LeavesSuffix) :
    (manyTill p q).LeavesSuffix := by
  intro k s r h
  rcases manyTill_eq_some_iff.mp h with ⟨values, rest, k', hsearch, rfl⟩ | ⟨k₁, r', -, hr', rfl⟩
  · exact hsearch.rest_suffix hp hq _ rfl
  · have := hq hr'
    simpa [Reply.map] using this

end LeavesSuffix

/-! ## Failures -/

/-- This holds whatever the parts do, and so of all sequences. -/
theorem andThen_givesBack (p : Parser κ α) (f : α → Parser κ β) : (p.andThen f).GivesBack := by
  intro k s rest m k' h
  rcases andThen_eq_some_iff.mp h with ⟨rest', m', k₁, -, he⟩ | ⟨v, rest', k₁, r', -, -, he⟩
  · cases he
    rfl
  · obtain ⟨_ | ⟨rest'', m''⟩, k₂⟩ := r'
    · cases he
    · cases he
      rfl

theorem seq_givesBack (ps : List (Parser κ α)) : (seq ps).GivesBack := by
  cases ps with
  | nil => exact nofun
  | cons p ps => exact andThen_givesBack p _

theorem many1_givesBack (p : Parser κ α) : (many1 p).GivesBack := by
  rw [many1_eq_andThen]
  exact andThen_givesBack p _

theorem record_givesBack (parts : List (Option String × Parser κ α)) :
    (record parts).GivesBack := by
  cases parts with
  | nil => exact nofun
  | cons part parts =>
    obtain ⟨_ | key, p⟩ := part
    · exact andThen_givesBack p _
    · exact andThen_givesBack p _

theorem choice_givesBack (ps : List (Parser κ α)) : (choice ps).GivesBack := by
  induction ps with
  | nil =>
    intro k s rest m k' h
    cases h
    rfl
  | cons p ps ih =>
    intro k s rest m k' h
    rcases choice_cons_eq_some_iff.mp h with ⟨rest', m', k₁, -, hr⟩ | ⟨v, rest', k₁, -, he⟩
    · exact ih hr
    · cases he

theorem opt_givesBack (p : Parser κ α) : p.opt.GivesBack := by
  intro k s rest m k' h
  rcases opt_eq_some_iff.mp h with ⟨_, _, _, -, he⟩ | ⟨_, _, _, -, he⟩ <;> cases he

theorem many_givesBack (p : Parser κ α) : GivesBack (many p) := by
  intro k s rest m k' h
  obtain ⟨_, _, _, -, he⟩ := many_eq_some_iff.mp h
  cases he

theorem sepBy_givesBack (p : Parser κ α) (q : Parser κ β) : (sepBy p q).GivesBack := by
  intro k s rest m k' h
  rcases sepBy_eq_some_iff.mp h with ⟨_, _, _, -, he⟩ | ⟨_, _, _, _, _, _, -, -, he⟩ <;> cases he

theorem expect_givesBack [Clock κ] (description : Text) (p : Parser κ α) :
    (p.expect description).GivesBack := by
  intro k s rest m k' h
  rcases expect_eq_some_iff.mp h with ⟨_, _, _, -, he⟩ | ⟨_, _, _, -, he⟩
  · cases he
    rfl
  · cases he

theorem window_givesBack (n : Nat) (p : Parser κ α) : (p.window n).GivesBack := by
  intro k s rest m k' h
  rcases window_eq_some_iff.mp h with ⟨_, _, _, -, he⟩ | ⟨_, _, _, -, he⟩
  · cases he
    rfl
  · cases he

namespace GivesBack

variable {p : Parser κ α}

/-- A failure behind `Reply.map` was one before. -/
theorem of_map {f : α → β} {r : Reply κ α} {s rest : Text} {m : Option Text} {k k' : κ}
    (hp : p.GivesBack) (hr : p k s = some r) (h : r.map f = ⟨.failure rest m, k'⟩) : rest = s := by
  obtain ⟨_ | ⟨rest', m'⟩, k₁⟩ := r
  · cases h
  · cases h
    exact hp hr

theorem map (hp : p.GivesBack) (f : α → β) : (p.map f).GivesBack := by
  intro k s rest m k' h
  obtain ⟨r', hr', he⟩ := map_eq_some_iff.mp h
  exact hp.of_map hr' he

theorem span [Clock κ] (hp : p.GivesBack) : p.span.GivesBack := by
  intro k s rest m k' h
  obtain ⟨r', hr', he⟩ := span_eq_some_iff.mp h
  exact hp.of_map hr' he

theorem filter (hp : p.GivesBack) (c : α → Bool) : (p.filter c).GivesBack := by
  intro k s rest m k' h
  rcases filter_eq_some_iff.mp h with
    ⟨rest', m', k₁, hr, he⟩ | ⟨v, rest', k₁, -, -, he⟩ | ⟨v, rest', k₁, -, -, he⟩
  · cases he
    exact hp hr
  · cases he
    rfl
  · cases he

/-- The failure of `manyTill` is that of its stop. -/
theorem manyTill {q : Parser κ α} (hq : q.GivesBack) : (manyTill p q).GivesBack := by
  intro k s rest m k' h
  rcases manyTill_eq_some_iff.mp h with ⟨values, rest', k₁, -, he⟩ | ⟨k₁, r', -, hr', he⟩
  · cases he
  · exact hq.of_map hr' he

end GivesBack

end Parser

end Descent
