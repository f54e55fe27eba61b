import Descent.Proofs.Parser.Rest

/-!
# The contract of every grammar

Whatever a grammar is put together from, and wherever its references lead, the answers of its parser
keep a contract: the text that is left is the end of the text that was given, and a failure gives
back everything. A single kind of leaf breaks the second part (`Probe.rejectPast`), and it is
noticed from outside only through parsers that hand the failure of a part on untouched. These are
collected in `LetsPast`.

* `denote_leavesSuffix`, `resolve_leavesSuffix`, `parser_leavesSuffix`: the text that is left.
* `denote_givesBack`, `resolve_givesBack`, `parser_givesBack`: failures, away from `LetsPast`.
* `parser_contract`: all of it for one answer.
-/

namespace Descent

open Descent.Parser

variable {κ : Type} [Clock κ]

/-! ## Terminals -/

namespace Terminal

theorem runLength_le_length (test : Char → Bool) (max : Option Nat) (s : Text) :
    runLength test max s ≤ s.length := by
  fun_induction runLength test max s with
  | case1 s => exact Nat.zero_le _
  | case2 max hmax => exact Nat.zero_le _
  | case3 max c s hmax hc ih =>
    rw [List.length_cons]
    omega
  | case4 max c s hmax hc => exact Nat.zero_le _

/-- A match ends within the text. -/
theorem matchLength?_le_length (t : Terminal Regex.Program) {s : Text} {n : Nat}
    (h : t.matchLength? s = some n) : n ≤ s.length := by
  cases t with
  | literal text =>
    simp only [matchLength?, Option.ite_none_right_eq_some, Option.some.injEq] at h
    obtain ⟨hfront, rfl⟩ := h
    exact (List.isPrefixOf_iff_prefix.mp hfront).length_le
  | pattern r => exact r.matchFrom?_le_length h
  | run test min max =>
    simp only [matchLength?, Option.ite_none_right_eq_some, Option.some.injEq] at h
    obtain ⟨-, rfl⟩ := h
    exact runLength_le_length test max s

theorem matchLength?_literal_pos {text : Text} (htext : text ≠ []) {s : Text} {n : Nat}
    (h : (literal text).matchLength? s = some n) : 0 < n := by
  simp only [matchLength?, Option.ite_none_right_eq_some, Option.some.injEq] at h
  obtain ⟨-, rfl⟩ := h
  exact List.length_pos_iff.mpr htext

theorem matchLength?_run_pos {test : Char → Bool} {max : Option Nat} {s : Text} {n : Nat}
    (h : (run test 1 max).matchLength? s = some n) : 0 < n := by
  simp only [matchLength?, Option.ite_none_right_eq_some, Option.some.injEq] at h
  omega

/-- A terminal always answers, and what it takes is cut off as it stands. -/
theorem parser_eq_some_iff {t : Terminal Regex.Program} {k : κ} {s : Text} {r : Reply κ Text} :
    t.parser k s = some r ↔
      (t.matchLength? s = none ∧ ⟨.failure s none, k⟩ = r) ∨
      ∃ n, t.matchLength? s = some n ∧
        ⟨.success (s.take n) (s.drop n), Clock.advance k (s.take n)⟩ = r := by
  unfold parser
  cases t.matchLength? s <;> simp

theorem parser_leavesSuffix (t : Terminal Regex.Program) :
    (t.parser : Parser κ Text).LeavesSuffix := by
  intro k s r h
  rcases parser_eq_some_iff.mp h with ⟨-, rfl⟩ | ⟨n, -, rfl⟩
  · exact List.suffix_rfl
  · exact List.drop_suffix n s

theorem parser_givesBack (t : Terminal Regex.Program) :
    (t.parser : Parser κ Text).GivesBack := by
  intro k s rest m k' h
  rcases parser_eq_some_iff.mp h with ⟨-, he⟩ | ⟨n, -, he⟩
  · cases he
    rfl
  · cases he

end Terminal

/-! ## Probes -/

namespace Probe

theorem parser_leavesSuffix (q : Probe) (isWrapped : Bool) :
    (q.parser isWrapped : Parser κ Value).LeavesSuffix := by
  intro k s r h
  cases q with
  | columnAtLeast n =>
    simp only [parser] at h
    split at h <;> cases h <;> exact List.suffix_rfl
  | rejectPast message =>
    cases h
    exact List.drop_suffix 1 s
  | location | wrapped | advance | reject =>
    cases h
    exact List.suffix_rfl

theorem parser_givesBack {q : Probe} (hq : ∀ message, q ≠ rejectPast message) (isWrapped : Bool) :
    (q.parser isWrapped : Parser κ Value).GivesBack := by
  intro k s rest m k' h
  cases q with
  | columnAtLeast n =>
    simp only [parser] at h
    split at h <;> cases h
    rfl
  | rejectPast message => exact absurd rfl (hq message)
  | reject message =>
    cases h
    rfl
  | location | wrapped | advance => cases h

end Probe

/-! ## The text that is left -/

/-- Every terminal leaves the end of its text. -/
def Ambient.LeavesSuffix (a : Ambient κ) : Prop := ∀ t, (a.apply t).LeavesSuffix

namespace Grammar

variable {resolve : Reference → Ambient κ → Parser κ Value}

/-- A wrapper reads in front of a terminal and behind it, so it leaves an end where both do. -/
theorem denoteWrapper_leavesSuffix {w : Wrapper (Grammar Regex.Program)}
    (hw : w.Forall fun g => (g.denote resolve none).LeavesSuffix) {t : Parser κ Text}
    (ht : t.LeavesSuffix) : (denoteWrapper resolve w t).LeavesSuffix := by
  have hlit : ∀ text, ((Terminal.literal text).parser : Parser κ Text).LeavesSuffix :=
    fun text => Terminal.parser_leavesSuffix _
  cases w with
  | skip ignored => exact .between hw hw ht
  | identity => exact ht
  | upper => exact ht.map _
  | twice =>
    refine .map (.seq ?_) _
    intro p hp
    simp only [List.mem_cons, List.not_mem_nil, or_false, or_self] at hp
    exact hp ▸ ht
  | expect => exact ht.expect _
  | quote => exact .between (hlit _) (hlit _) ht
  | nonempty => exact ht.filter _
  | orStar =>
    refine .choice ?_
    intro p hp
    simp only [List.mem_cons, List.not_mem_nil, or_false] at hp
    rcases hp with rfl | rfl
    · exact ht
    · exact hlit _
  | opt => exact ht.opt.map _
  | many => exact ht.many.map _

/-- Every grammar leaves an end of its text, if the definitions that it refers to do. -/
theorem denote_leavesSuffix
    (hresolve : ∀ r a, a.LeavesSuffix → (resolve r a).LeavesSuffix) (g : Grammar Regex.Program) :
    ∀ a : Ambient κ, a.LeavesSuffix → (g.denote resolve a).LeavesSuffix := by
  induction g with
  | terminal t => exact fun a ha => (ha t).map _
  | bare t => exact fun a ha => t.parser_leavesSuffix.map _
  | probe q => exact fun a ha => q.parser_leavesSuffix _
  | ref r => exact hresolve r
  | seq ps ih =>
    intro a ha
    rw [denote, denoteAll_eq_map]
    refine .map (.seq ?_) _
    intro p hp
    obtain ⟨g, hg, rfl⟩ := List.mem_map.mp hp
    exact ih g hg a ha
  | record fields ih =>
    intro a ha
    rw [denote, denoteFields_eq_map]
    refine .map (.record ?_) _
    intro p hp
    obtain ⟨f, hf, rfl⟩ := List.mem_map.mp hp
    exact ih f hf a ha
  | between left right inner hleft hright hinner =>
    exact fun a ha => .between (hleft a ha) (hright a ha) (hinner a ha)
  | choice ps ih =>
    intro a ha
    rw [denote, denoteAll_eq_map]
    refine .choice ?_
    intro p hp
    obtain ⟨g, hg, rfl⟩ := List.mem_map.mp hp
    exact ih g hg a ha
  | opt p ih => exact fun a ha => (ih a ha).opt.map _
  | many p ih => exact fun a ha => (ih a ha).many.map _
  | many1 p ih => exact fun a ha => (ih a ha).many1.map _
  | sepBy item separator hitem hseparator =>
    exact fun a ha => ((hitem a ha).sepBy (hseparator a ha)).map _
  | manyTill item stop hitem hstop =>
    exact fun a ha => ((hitem a ha).manyTill (hstop a ha)).map _
  | terminals w p hw ih =>
    intro a ha
    refine ih _ fun t => denoteWrapper_leavesSuffix ?_ t.parser_leavesSuffix
    cases w with
    | skip ignored => exact hw none fun t => t.parser_leavesSuffix
    | _ => trivial
  | map f p ih => exact fun a ha => (ih a ha).map _
  | tryMap f p ih => exact fun a ha => (ih a ha).tryMap _
  | filter f p ih => exact fun a ha => (ih a ha).filter _
  | replace value p ih => exact fun a ha => (ih a ha).map _
  | nth n p ih => exact fun a ha => ((ih a ha).tryMap _).tryMap _
  | select indices p ih => exact fun a ha => (((ih a ha).tryMap _).tryMap _).map _
  | slice part p ih => exact fun a ha => (((ih a ha).tryMap _).map _).map _
  | put key value p ih => exact fun a ha => (((ih a ha).tryMap _).map _).map _
  | expect description p ih => exact fun a ha => (ih a ha).expect _
  | span p ih => exact fun a ha => (ih a ha).span.map _
  | window n p ih => exact fun a ha => .window _ n

end Grammar

/-- By induction on the depth: a definition is a grammar whose references are one level down. -/
theorem Rules.resolve_leavesSuffix (rules : Rules) (depth : Nat) :
    ∀ r (a : Ambient κ), a.LeavesSuffix → (rules.resolve depth r a).LeavesSuffix := by
  induction depth with
  | zero => exact fun r a ha => nofun
  | succ depth ih =>
    intro r a ha
    rw [resolve]
    cases rules.find? r with
    | none => exact .fail
    | some g => exact g.denote_leavesSuffix ih a ha

theorem Rules.ambient_leavesSuffix (rules : Rules) (depth : Nat)
    (w : Option (Wrapper (Grammar Regex.Program))) :
    (rules.ambient depth w : Ambient κ).LeavesSuffix := by
  intro t
  cases w with
  | none => exact t.parser_leavesSuffix
  | some w =>
    refine Grammar.denoteWrapper_leavesSuffix ?_ t.parser_leavesSuffix
    cases w with
    | skip ignored =>
      exact ignored.denote_leavesSuffix (rules.resolve_leavesSuffix depth) none
        fun t => t.parser_leavesSuffix
    | _ => trivial

theorem Grammar.parser_leavesSuffix (rules : Rules) (depth : Nat)
    (w : Option (Wrapper (Grammar Regex.Program))) (g : Grammar Regex.Program) :
    (g.parser rules depth w : Parser κ Value).LeavesSuffix :=
  g.denote_leavesSuffix (rules.resolve_leavesSuffix depth) _ (rules.ambient_leavesSuffix depth w)

/-! ## Failures -/

/-- Every terminal that fails gives back everything. -/
def Ambient.GivesBack (a : Ambient κ) : Prop := ∀ t, (a.apply t).GivesBack

namespace Grammar

/-- A leaf that fails past its input can be reached through parts whose failure is handed on
untouched. A choice with a single alternative is not among them, but a chain of choices that has
only its first alternative is that alternative (`Grammar.orChain`). -/
inductive LetsPast (rules : Rules) : Grammar Regex.Program → Prop
  | rejectPast (message : Text) : LetsPast rules (.probe (.rejectPast message))
  | map (f : Transform) {p : Grammar Regex.Program} : LetsPast rules p → LetsPast rules (.map f p)
  | replace (value : Value) {p : Grammar Regex.Program} : LetsPast rules p →
      LetsPast rules (.replace value p)
  | filter (f : Condition) {p : Grammar Regex.Program} : LetsPast rules p →
      LetsPast rules (.filter f p)
  | span {p : Grammar Regex.Program} : LetsPast rules p → LetsPast rules (.span p)
  | terminals (w : Wrapper (Grammar Regex.Program)) {p : Grammar Regex.Program} :
      LetsPast rules p → LetsPast rules (.terminals w p)
  | manyTill (item : Grammar Regex.Program) {stop : Grammar Regex.Program} :
      LetsPast rules stop → LetsPast rules (.manyTill item stop)
  | ref {r : Reference} {g : Grammar Regex.Program} : rules.find? r = some g →
      LetsPast rules g → LetsPast rules (.ref r)

variable {resolve : Reference → Ambient κ → Parser κ Value}

/-- What a wrapper matches besides the terminal does not matter: only the failure of the terminal
itself is ever handed on. -/
theorem denoteWrapper_givesBack (w : Wrapper (Grammar Regex.Program)) {t : Parser κ Text}
    (ht : t.GivesBack) : (denoteWrapper resolve w t).GivesBack := by
  cases w with
  | skip ignored => exact andThen_givesBack _ _
  | identity => exact ht
  | upper => exact ht.map _
  | twice => exact (seq_givesBack _).map _
  | expect => exact expect_givesBack _ _
  | quote => exact andThen_givesBack _ _
  | nonempty => exact ht.filter _
  | orStar => exact choice_givesBack _
  | opt => exact (opt_givesBack _).map _
  | many => exact (many_givesBack _).map _

/-- Only the grammars that let a failure past can fail in the middle of the text. -/
theorem denote_givesBack {rules : Rules}
    (hresolve : ∀ r, ¬ LetsPast rules (.ref r) → ∀ a, a.GivesBack → (resolve r a).GivesBack)
    (g : Grammar Regex.Program) (hg : ¬ LetsPast rules g) :
    ∀ a : Ambient κ, a.GivesBack → (g.denote resolve a).GivesBack := by
  induction g with
  | terminal t => exact fun a ha => (ha t).map _
  | bare t => exact fun a ha => t.parser_givesBack.map _
  | probe q =>
    intro a ha
    refine q.parser_givesBack ?_ _
    rintro message rfl
    exact hg (.rejectPast message)
  | ref r => exact hresolve r hg
  -- these put every failure at their own input
  | seq ps => exact fun a ha => (seq_givesBack _).map _
  | record fields => exact fun a ha => (record_givesBack _).map _
  | between left right inner => exact fun a ha => andThen_givesBack _ _
  | choice ps => exact fun a ha => choice_givesBack _
  | opt p => exact fun a ha => (opt_givesBack _).map _
  | many p => exact fun a ha => (many_givesBack _).map _
  | many1 p => exact fun a ha => (many1_givesBack _).map _
  | sepBy item separator => exact fun a ha => (sepBy_givesBack _ _).map _
  | tryMap f p => exact fun a ha => andThen_givesBack _ _
  | nth n p => exact fun a ha => andThen_givesBack _ _
  | select indices p => exact fun a ha => (andThen_givesBack _ _).map _
  | slice part p => exact fun a ha => ((andThen_givesBack _ _).map _).map _
  | put key value p => exact fun a ha => ((andThen_givesBack _ _).map _).map _
  | expect description p => exact fun a ha => expect_givesBack _ _
  | window n p => exact fun a ha => window_givesBack _ _
  -- these hand the failure of a part on
  | manyTill item stop _ ih =>
    exact fun a ha => (ih (fun h => hg (.manyTill item h)) a ha).manyTill.map _
  | terminals w p _ ih =>
    intro a ha
    exact ih (fun h => hg (.terminals w h)) _ fun t => denoteWrapper_givesBack w t.parser_givesBack
  | map f p ih => exact fun a ha => (ih (fun h => hg (.map f h)) a ha).map _
  | filter f p ih => exact fun a ha => (ih (fun h => hg (.filter f h)) a ha).filter _
  | replace value p ih => exact fun a ha => (ih (fun h => hg (.replace value h)) a ha).map _
  | span p ih => exact fun a ha => (ih (fun h => hg (.span h)) a ha).span.map _

end Grammar

/-- A reference gives back everything if its definition does. -/
theorem Rules.resolve_givesBack (rules : Rules) (depth : Nat) :
    ∀ r, ¬ Grammar.LetsPast rules (.ref r) →
      ∀ a : Ambient κ, a.GivesBack → (rules.resolve depth r a).GivesBack := by
  induction depth with
  | zero => exact fun r hr a ha => nofun
  | succ depth ih =>
    intro r hr a ha
    rw [resolve]
    cases hfind : rules.find? r with
    | none => exact choice_givesBack []
    | some g => exact g.denote_givesBack ih (fun h => hr (.ref hfind h)) a ha

theorem Grammar.parser_givesBack {rules : Rules} {g : Grammar Regex.Program}
    (hg : ¬ LetsPast rules g) (depth : Nat) (w : Option (Wrapper (Grammar Regex.Program))) :
    (g.parser rules depth w : Parser κ Value).GivesBack := by
  refine g.denote_givesBack (rules.resolve_givesBack depth) hg _ fun t => ?_
  cases w with
  | none => exact t.parser_givesBack
  | some w => exact denoteWrapper_givesBack w t.parser_givesBack

/-! ## The contract -/

theorem consumed_append {s rest : Text} (h : rest <:+ s) : consumed s rest ++ rest = s := by
  obtain ⟨front, rfl⟩ := h
  simp [consumed]

/-- **The contract of every grammar.** Exactly the successes have a value, and only failures have a
message. The text that is left is the end of the text that was given, so that the consumed text can
be cut off at its length in bytes; no terminal matches more text than there is. A failure gives back
everything, unless a leaf that does not is reached through parts that hand its failure on. -/
theorem Grammar.parser_contract {rules : Rules} {depth : Nat}
    {w : Option (Wrapper (Grammar Regex.Program))} {g : Grammar Regex.Program} {l : Location}
    {s : Text} {r : Reply Location Value} (h : g.parser rules depth w l s = some r) :
    ((r.outcome.isSuccess = true ↔ r.outcome.value?.isSome = true) ∧
      (r.outcome.message?.isSome = true → r.outcome.isSuccess = false)) ∧
    (r.outcome.rest <:+ s ∧ r.outcome.rest.byteLength ≤ s.byteLength ∧
      s.bytePrefix? (s.byteLength - r.outcome.rest.byteLength) =
        some (consumed s r.outcome.rest) ∧
      ∀ t : Terminal Regex.Program, ∀ text n, t.matchLength? text = some n → n ≤ text.length) ∧
    (r.outcome.isSuccess = false → r.outcome.rest = s ∨ LetsPast rules g) := by
  have hsuffix : r.outcome.rest <:+ s := g.parser_leavesSuffix rules depth w h
  have hbytes : s.byteLength =
      (consumed s r.outcome.rest).byteLength + r.outcome.rest.byteLength := by
    rw [← Text.byteLength_append, consumed_append hsuffix]
  refine ⟨?_, ⟨hsuffix, by omega, ?_, fun t text n => t.matchLength?_le_length⟩, ?_⟩
  · cases r.outcome <;> simp [Outcome.isSuccess, Outcome.value?, Outcome.message?]
  · have hcut := Text.bytePrefix?_append (consumed s r.outcome.rest) r.outcome.rest
    rw [consumed_append hsuffix] at hcut
    rwa [hbytes, Nat.add_sub_cancel]
  · intro hfail
    by_cases hg : LetsPast rules g
    · exact Or.inr hg
    · obtain ⟨_ | ⟨rest, m⟩, k'⟩ := r
      · cases hfail
      · exact Or.inl (parser_givesBack hg depth w h)

/-- The exception at work: the failure of the leaf comes out through a filter, a span and a
reference. -/
theorem Grammar.parser_contract_of_rejectPast :
    let rules : Rules := { cells := [("x", .probe (.rejectPast "no".toList))] }
    let g : Grammar Regex.Program := .filter .always (.span (.ref (.cell "x")))
    g.parser rules 1 (some (.skip .whitespace)) Location.start "ab".toList =
        some ⟨.failure "b".toList (some "no".toList), .start⟩ ∧
      ("b".toList = "ab".toList ∨ LetsPast rules g) := by
  intro rules g
  have h : g.parser rules 1 (some (.skip .whitespace)) Location.start "ab".toList =
      some ⟨.failure "b".toList (some "no".toList), .start⟩ := rfl
  exact ⟨h, (parser_contract h).2.2 rfl⟩

end Descent
