import Descent.Proofs.Grammar.Composition
import Descent.Proofs.Grammar.Contract
import Descent.Proofs.Grammar.Simulation
import Descent.Proofs.Parser.Accounting
import Descent.Proofs.Value.Spans
import Mathlib.Tactic

/-!
# Where the location is behind a grammar

The location never lags behind the consumed text, whatever the grammar is, but it can run ahead: text
that is matched and given back is counted. Whether this can happen is seen from the form of a grammar.

* `Grammar.Quiet`: nothing that was matched is ever given back. Such a grammar does not move the
  location when it fails.
* `Grammar.Exact`: nothing that was matched is given back on the way to a success. Such a grammar ends
  at the right location when it succeeds, and its spans are exact.
* `location_accounts_for_text`: what the location is worth for each of them.
-/

namespace Descent

open Descent.Parser

/-! ## Leaves -/

theorem Terminal.parser_keeps (t : Terminal Regex.Program) (A : Accounting) :
    t.parser.Keeps A fun _ => True := by
  intro l s r h
  rcases parser_eq_some_iff.mp h with ⟨-, rfl⟩ | ⟨n, -, rfl⟩
  · exact .failure (A.failed_refl l)
  · exact .success trivial (List.take_append_drop n s).symm (A.found_refl _)

/-- A probe can move the location as if it had consumed a text, so all that is left is a bound. -/
theorem Probe.parser_keeps_noLag (q : Probe) (isWrapped : Bool) :
    (q.parser isWrapped).Keeps .noLag fun _ => True := by
  intro l s r h
  have hidle : ∀ {v : Value} {k : Location}, l ≤ k →
      Accounting.noLag.Settled (fun _ => True) l s ⟨.success v s, k⟩ := by
    intro v k hk
    refine .success (c := []) trivial rfl ?_
    rwa [Location.after_nil]
  have hmiss : ∀ {rest : Text} {m : Option Text},
      Accounting.noLag.Settled (fun _ : Value => True) l s ⟨.failure rest m, l⟩ :=
    .failure (Location.le_refl l)
  cases q with
  | columnAtLeast n =>
    simp only [parser] at h
    split at h <;> cases h
    · exact hidle (Location.le_refl l)
    · exact hmiss
  | location | wrapped =>
    cases h
    exact hidle (Location.le_refl l)
  | advance text =>
    cases h
    exact hidle (Location.le_after l text)
  | reject | rejectPast =>
    cases h
    exact hmiss

/-! ## No grammar lags behind -/

/-- The location never lags behind `p`. -/
abbrev Parser.NoLag {α : Type} (p : Parser Location α) : Prop :=
  p.Keeps .noLag fun _ => True

theorem Parser.composable_noLag : Composable fun _ => NoLag where
  succeed _ := .succeed trivial
  fail := @fun _ => Keeps.fail
  map _ hp := hp.map fun _ _ => trivial
  andThen hp hf := hp.andThen Accounting.rejects_noLag fun v _ => hf v
  filter c hp := hp.filter Accounting.rejects_noLag c
  choice hps := .choice Accounting.forgives_noLag hps
  opt hp := (Keeps.opt Accounting.forgives_noLag hp).mono fun _ _ => trivial
  many hp := (Keeps.many Accounting.forgives_noLag hp).mono fun _ _ => trivial
  sepBy hp hq := (Keeps.sepBy Accounting.forgives_noLag Accounting.rejects_noLag hp hq).mono
    fun _ _ => trivial
  manyTill hp hq := (Keeps.manyTill Accounting.forgives_noLag Accounting.rejects_noLag hp hq).mono
    fun _ _ => trivial

/-- No terminal lags behind. -/
def Ambient.NoLag (a : Ambient Location) : Prop := ∀ t, (a.apply t).NoLag

namespace Grammar

/-- Whatever a grammar is made of, the location does not fall behind the text. -/
theorem denote_noLag {resolve : Reference → Ambient Location → Parser Location Value}
    (hresolve : ∀ r a, a.NoLag → (resolve r a).NoLag) (g : Grammar Regex.Program)
    {a : Ambient Location} (ha : a.NoLag) : (g.denote resolve a).NoLag := by
  have hterminal : ∀ t : Terminal Regex.Program, t.parser.NoLag := fun t => t.parser_keeps _
  induction g using induct_children generalizing a with
  | step g ih =>
    cases g with
    | terminal t => exact Keeps.map (ha t) fun _ _ => trivial
    | bare t => exact Keeps.map (hterminal t) fun _ _ => trivial
    | probe q => exact q.parser_keeps_noLag _
    | ref r => exact hresolve r a ha
    | terminals w p =>
      refine ih p List.mem_cons_self (denoteWrapper_of_terminal composable_noLag hterminal ?_ ?_)
      · cases w with
        | skip ignored => exact ih ignored (by simp [children, Wrapper.grammars]) hterminal
        | _ => trivial
      · exact fun _ t => (hterminal t).expect _
    | expect description p => exact (ih p List.mem_cons_self ha).expect description
    | span p => exact (ih p List.mem_cons_self ha).span.map fun _ _ => trivial
    | window n p => exact (ih p List.mem_cons_self ha).window n
    | _ =>
      refine denote_of_children composable_noLag ?_ fun q hq => ih q hq ha
      trivial

end Grammar

/-- By induction on the depth: the references of a definition are one level down. -/
theorem Rules.resolve_noLag (rules : Rules) (depth : Nat) :
    ∀ r a, a.NoLag → (rules.resolve depth r a).NoLag := by
  induction depth with
  | zero => exact fun r a ha => nofun
  | succ depth ih =>
    intro r a ha
    rw [resolve]
    cases rules.find? r with
    | none => exact .fail
    | some g => exact g.denote_noLag ih ha

theorem Grammar.parser_noLag (rules : Rules) (depth : Nat)
    (w : Option (Wrapper (Grammar Regex.Program))) (g : Grammar Regex.Program) :
    (g.parser rules depth w : Parser Location Value).NoLag := by
  rw [← parser_under]
  exact (g.under w).denote_noLag (rules.resolve_noLag depth) fun t => t.parser_keeps _

/-! ## Quiet and exact grammars -/

namespace Grammar

/-- Nothing that the grammar matched is ever given back. -/
inductive Quiet {ρ : Type} : Grammar ρ → Prop
  | terminal (t : Terminal ρ) : Quiet (terminal t)
  | bare (t : Terminal ρ) : Quiet (bare t)
  | map (f : Transform) {p : Grammar ρ} : Quiet p → Quiet (map f p)
  | replace (value : Value) {p : Grammar ρ} : Quiet p → Quiet (replace value p)
  | expect (description : Text) {p : Grammar ρ} : Quiet p → Quiet (expect description p)
  | span {p : Grammar ρ} : Quiet p → Quiet (span p)
  | choice {ps : List (Grammar ρ)} : (∀ p ∈ ps, Quiet p) → Quiet (choice ps)
  | opt {p : Grammar ρ} : Quiet p → Quiet (opt p)
  | many {p : Grammar ρ} : Quiet p → Quiet (many p)
  | many1 {p : Grammar ρ} : Quiet p → Quiet (many1 p)

theorem Quiet.orChain {ρ : Type} {p : Grammar ρ} {ps : List (Grammar ρ)} (hp : p.Quiet)
    (hps : ∀ q ∈ ps, q.Quiet) : (orChain p ps).Quiet := by
  unfold Grammar.orChain
  induction ps generalizing p with
  | nil => exact hp
  | cons q ps ih =>
    obtain ⟨hq, hps⟩ := List.forall_mem_cons.mp hps
    exact ih (.choice (by simp [hp, hq])) hps

/-- Nothing that the grammar matched is given back on the way to a success. -/
inductive Exact {ρ : Type} : Grammar ρ → Prop
  | quiet {g : Grammar ρ} : Quiet g → Exact g
  | seq {ps : List (Grammar ρ)} : (∀ p ∈ ps, Exact p) → Exact (seq ps)
  | record {fields : List (Field (Grammar ρ))} : (∀ f ∈ fields, Exact f.part) →
      Exact (record fields)
  | between {left right inner : Grammar ρ} : Exact left → Exact right → Exact inner →
      Exact (between left right inner)
  | choice {ps : List (Grammar ρ)} {p : Grammar ρ} : (∀ q ∈ ps, Quiet q) → Exact p →
      Exact (choice (ps ++ [p]))
  | manyTill {item stop : Grammar ρ} : Quiet item → Quiet stop → Exact (manyTill item stop)
  | map (f : Transform) {p : Grammar ρ} : Exact p → Exact (map f p)
  | tryMap (f : Extraction) {p : Grammar ρ} : Exact p → Exact (tryMap f p)
  | filter (f : Condition) {p : Grammar ρ} : Exact p → Exact (filter f p)
  | replace (value : Value) {p : Grammar ρ} : Exact p → Exact (replace value p)
  | nth (n : Nat) {p : Grammar ρ} : Exact p → Exact (nth n p)
  | select (indices : List Nat) {p : Grammar ρ} : Exact p → Exact (select indices p)
  | slice (part : Slice) {p : Grammar ρ} : Exact p → Exact (slice part p)
  | put (key : String) (value : Value) {p : Grammar ρ} : Exact p → Exact (put key value p)
  | expect (description : Text) {p : Grammar ρ} : Exact p → Exact (expect description p)
  | span {p : Grammar ρ} : Exact p → Exact (span p)

/-- The span stands in a value that is written in the grammar itself. -/
inductive Supplies {ρ : Type} (place : Span) : Grammar ρ → Prop
  | replace {value : Value} {p : Grammar ρ} : place ∈ value.spans →
      Supplies place (replace value p)
  | put {key : String} {value : Value} {p : Grammar ρ} : place ∈ value.spans →
      Supplies place (put key value p)
  | child {g q : Grammar ρ} : q ∈ g.children → Supplies place q → Supplies place g

/-! ## Steadiness -/

/-- Two clocks that have nothing to do with each other. -/
def anywhere (κ : Type) [Clock κ] : Link κ κ where
  clock _ _ := True
  message _ _ := True
  view _ := .start
  clock_advance _ _ := trivial
  view_location _ := rfl
  message_refl _ := trivial
  message_expectation _ _ _ := trivial

variable {resolve : Reference → Ambient Location → Parser Location Value}

/-- What a quiet grammar finds does not depend on the location. -/
theorem Quiet.denote_follows {g : Grammar Regex.Program} (hg : g.Quiet) :
    (anywhere Location).Values (g.denote resolve none) (g.denote resolve none) := by
  induction hg with
  | terminal t | bare t => exact t.parser_follows.map fun _ _ hv => congrArg Value.str hv
  | map f _ ih =>
    refine Link.Follows.map ih fun v v' hv => ?_
    rw [Transform.apply_relocate, Transform.apply_relocate, hv]
  | replace value _ ih => exact Link.Follows.map ih fun _ _ _ => rfl
  | expect description _ ih => exact ih.expect description
  | span _ ih =>
    refine Link.Follows.map ih.span fun v v' hv => ?_
    simp only [Prod.mk.injEq] at hv
    obtain ⟨hvalue, hstart, hstop, htext⟩ := hv
    simp only [Value.ofSpanned, Value.relocate_spanned, hvalue, hstart, hstop, htext]
  | choice _ ih =>
    rw [denote, denoteAll_eq_map]
    exact .choice (forall₂_map ih)
  | opt _ ih =>
    refine Link.Follows.map ih.opt fun v v' hv => ?_
    rw [Value.ofOption_relocate, Value.ofOption_relocate, hv]
  | many _ ih => exact map_list_follows ih.many
  | many1 _ ih => exact map_list_follows ih.many1

/-- Where a quiet grammar fails from one location, it succeeds from none. -/
theorem Quiet.steady {g : Grammar Regex.Program} (hg : g.Quiet) {l k : Location} {s rest : Text}
    {m : Option Text} (h : g.denote resolve none l s = some ⟨.failure rest m, k⟩) (l' : Location)
    (v : Value) (behind : Text) (k' : Location) :
    g.denote resolve none l' s ≠ some ⟨.success v behind, k'⟩ := by
  intro hsuccess
  have hclock : (anywhere Location).clock l l' := trivial
  obtain ⟨m', k'', hfail, -⟩ := hg.denote_follows.failure hclock h
  rw [hsuccess] at hfail
  cases hfail

/-! ## What they keep -/

variable {P : Span → Prop}

/-- A condition on spans that those in the values of a grammar meet, and those that are exact. -/
structure Admits (P : Span → Prop) (g : Grammar Regex.Program) : Prop where
  supplied : ∀ place, g.Supplies place → P place
  covering : ∀ start text, P (.covering start text)

theorem Admits.child {g q : Grammar Regex.Program} (h : g.Admits P) (hq : q ∈ g.children) :
    q.Admits P :=
  ⟨fun place hplace => h.supplied place (.child hq hplace), h.covering⟩

/-- Where the location is exact, a span starts and stops at the ends of the text it covers. -/
theorem Admits.ofSpanned {g : Grammar Regex.Program} (h : g.Admits P) {A : Accounting}
    (hA : ∀ l k, A.found l k → l = k) {p : Parser Location Value}
    (hp : p.Keeps A (Value.AllSpans P)) :
    (p.span.map Value.ofSpanned).Keeps A (Value.AllSpans P) := by
  refine hp.span.map fun e he => Value.allSpans_spanned.mpr ⟨?_, he.1⟩
  obtain ⟨v, ⟨start, stop, text⟩⟩ := e
  have hstop : start.after text = stop := hA _ _ he.2
  rw [← hstop]
  exact h.covering start text

theorem keeps_str {A : Accounting} {p : Parser Location Text} (hp : p.Keeps A fun _ => True) :
    (p.map Value.str).Keeps A (Value.AllSpans P) :=
  hp.map fun t _ => Value.allSpans_str t

theorem keeps_list {A : Accounting} {p : Parser Location (List Value)}
    (hp : p.Keeps A (∀ v ∈ ·, v.AllSpans P)) : (p.map Value.list).Keeps A (Value.AllSpans P) :=
  hp.map fun _ hvs => Value.allSpans_list.mpr hvs

/-- A quiet grammar is exact, and leaves the location alone where it fails. -/
theorem Quiet.denote_keeps {g : Grammar Regex.Program} (hg : g.Quiet) (hP : g.Admits P) :
    (g.denote resolve none).Keeps .quiet (Value.AllSpans P) := by
  have hA := Accounting.forgives_quiet
  induction hg with
  | terminal t | bare t => exact keeps_str (t.parser_keeps _)
  | map f _ ih => exact (ih (hP.child List.mem_cons_self)).map fun _ hv => f.spans_apply hv
  | replace value _ ih =>
    refine (ih (hP.child List.mem_cons_self)).map fun _ _ => ?_
    exact fun place hplace => hP.supplied place (.replace hplace)
  | expect description _ ih => exact (ih (hP.child List.mem_cons_self)).expect description
  | span _ ih => exact hP.ofSpanned (fun _ _ h => h) (ih (hP.child List.mem_cons_self))
  | choice _ ih =>
    rw [denote, denoteAll_eq_map]
    exact .choice hA (List.forall_mem_map.mpr fun p hp => ih p hp (hP.child hp))
  | opt _ ih =>
    exact ((ih (hP.child List.mem_cons_self)).opt hA).map fun _ hv => Value.allSpans_ofOption hv
  | many _ ih => exact keeps_list ((ih (hP.child List.mem_cons_self)).many hA)
  | many1 _ ih => exact keeps_list ((ih (hP.child List.mem_cons_self)).many1 hA)

/-- An exact grammar accounts for its text with every success. -/
theorem Exact.denote_keeps {g : Grammar Regex.Program} (hg : g.Exact) (hP : g.Admits P) :
    (g.denote resolve none).Keeps .exact (Value.AllSpans P) := by
  have hA := Accounting.rejects_exact
  have hasList : ∀ {p : Parser Location Value}, p.Keeps .exact (Value.AllSpans P) →
      (asList p).Keeps .exact (∀ v ∈ ·, v.AllSpans P) :=
    fun hp => hp.tryMap hA fun _ hv => Value.allSpans_of_mem_list? hv
  induction hg with
  | quiet hg => exact (hg.denote_keeps hP).quiet_exact
  | seq _ ih =>
    rw [denote, denoteAll_eq_map]
    exact keeps_list (.seq hA (List.forall_mem_map.mpr fun p hp => ih p hp (hP.child hp)))
  | @record fields _ ih =>
    rw [denote, denoteFields_eq_map]
    have hfields : ∀ f ∈ fields, (f.part.denote resolve none).Keeps .exact (Value.AllSpans P) :=
      fun f hf => ih f hf (hP.child (List.mem_map_of_mem hf))
    refine Keeps.map (P := fun found => ∀ e ∈ found, e.2.AllSpans P)
      (.record hA (List.forall_mem_nil _) ?_ (List.forall_mem_map.mpr hfields))
      fun _ h => Value.allSpans_record.mpr h
    exact fun key v found hv hfound => Value.allSpans_put hv hfound
  | between _ _ _ hleft hright hinner =>
    exact .between hA (hleft (hP.child (by simp [children])))
      (hright (hP.child (by simp [children]))) (hinner (hP.child (by simp [children])))
  | choice hps _ ih =>
    rw [denote, denoteAll_eq_map, List.map_append, List.map_singleton]
    refine .choice_concat (List.forall_mem_map.mpr fun q hq => ?_)
      (ih (hP.child (by simp [children])))
    exact (hps q hq).denote_keeps (hP.child (by simp [children, hq]))
  | manyTill hitem hstop =>
    refine keeps_list (.manyTill_exact (hitem.denote_keeps (hP.child (by simp [children])))
      (hstop.denote_keeps (hP.child (by simp [children]))) ?_)
    exact fun _ _ _ _ _ hfail => hstop.steady hfail
  | map f _ ih => exact (ih (hP.child List.mem_cons_self)).map fun _ hv => f.spans_apply hv
  | tryMap f _ ih => exact (ih (hP.child List.mem_cons_self)).tryMap hA fun _ hv => f.spans_apply hv
  | filter f _ ih => exact (ih (hP.child List.mem_cons_self)).filter hA _
  | replace value _ ih =>
    refine (ih (hP.child List.mem_cons_self)).map fun _ _ => ?_
    exact fun place hplace => hP.supplied place (.replace hplace)
  | nth n _ ih =>
    refine (hasList (ih (hP.child List.mem_cons_self))).tryMap hA fun vs hvs v hv => ?_
    exact hvs v (List.mem_of_getElem? hv)
  | select indices _ ih =>
    refine keeps_list ((hasList (ih (hP.child List.mem_cons_self))).tryMap hA ?_)
    exact fun vs hvs us hus u hu => hvs u (mem_of_mapM_getElem? hus u hu)
  | slice part _ ih =>
    refine keeps_list ((hasList (ih (hP.child List.mem_cons_self))).map ?_)
    exact fun vs hvs v hv => hvs v (part.mem_of_mem_apply hv)
  | put key value _ ih =>
    have hvalue : value.AllSpans P := fun place hplace => hP.supplied place (.put hplace)
    have hp := ih (hP.child List.mem_cons_self)
    have hrecord := hp.tryMap hA fun _ hv => Value.allSpans_of_mem_record? hv
    refine Keeps.map (hrecord.map fun fields hfields => ?_) fun _ h => Value.allSpans_record.mpr h
    exact Value.allSpans_put hvalue hfields
  | expect description _ ih => exact (ih (hP.child List.mem_cons_self)).expect description
  | span _ ih => exact hP.ofSpanned (fun _ _ h => h) (ih (hP.child List.mem_cons_self))

/-! ## Parts of an exact grammar -/

theorem Quiet.of_mem_children {ρ : Type} {g q : Grammar ρ} (hg : g.Quiet) (hq : q ∈ g.children) :
    q.Quiet := by
  cases hg with
  | terminal | bare => cases hq
  | choice hps => exact hps q hq
  | map _ hp | replace _ hp | expect _ hp | span hp | opt hp | many hp | many1 hp =>
    cases List.mem_singleton.mp hq
    exact hp

theorem Exact.of_mem_children {ρ : Type} {g q : Grammar ρ} (hg : g.Exact) (hq : q ∈ g.children) :
    q.Exact := by
  cases hg with
  | quiet hg => exact .quiet (hg.of_mem_children hq)
  | seq hps => exact hps q hq
  | record hfields =>
    obtain ⟨f, hf, rfl⟩ := List.mem_map.mp hq
    exact hfields f hf
  | between hleft hright hinner =>
    simp only [children, List.mem_cons, List.not_mem_nil, or_false] at hq
    rcases hq with rfl | rfl | rfl <;> assumption
  | choice hps hp =>
    rcases List.mem_append.mp hq with hq | hq
    · exact .quiet (hps q hq)
    · cases List.mem_singleton.mp hq
      exact hp
  | manyTill hitem hstop =>
    simp only [children, List.mem_cons, List.not_mem_nil, or_false] at hq
    rcases hq with rfl | rfl
    · exact .quiet hitem
    · exact .quiet hstop
  | map _ hp | tryMap _ hp | filter _ hp | replace _ hp | nth _ hp | select _ hp | slice _ hp
  | put _ _ hp | expect _ hp | span hp =>
    cases List.mem_singleton.mp hq
    exact hp

theorem Exact.everywhere {ρ : Type} (g : Grammar ρ) (hg : g.Exact) : g.Everywhere Exact := by
  induction g using induct_children with
  | step g ih => exact .intro hg fun q hq => ih q hq (hg.of_mem_children hq)

/-! ## The location as an account -/

/-- The location accounts for the consumed text. It never lags behind it, for any grammar. For an exact
grammar without a wrapper it is right on success. So are all spans that the grammar makes: those that
are in its value, unless they were written in the grammar, and those of every part inside it, wherever
it is run. A quiet grammar does not move the location when it fails. -/
theorem location_accounts_for_text (rules : Rules) (g : Grammar Regex.Program) :
    (∀ w (l : Location) s v rest k, g.Replies rules w l s ⟨.success v rest, k⟩ →
      ∃ c, s = c ++ rest ∧ l.after c ≤ k) ∧
    (g.Exact →
      (∀ (l : Location) s v rest k, g.Replies rules none l s ⟨.success v rest, k⟩ →
        (∃ c, s = c ++ rest ∧ k = l.after c) ∧
        ∀ place ∈ v.spans, g.Supplies place ∨ place = .covering place.start place.text) ∧
      g.Everywhere fun q => ∀ p, q = span p → ∀ (l : Location) s v rest k,
        q.Replies rules none l s ⟨.success v rest, k⟩ →
          ∃ u c, s = c ++ rest ∧ v = .spanned u (.covering l c)) ∧
    (g.Quiet → ∀ (l : Location) s rest m k, g.Replies rules none l s ⟨.failure rest m, k⟩ →
      k = l) := by
  refine ⟨?_, fun hg => ⟨?_, ?_⟩, ?_⟩
  · rintro w l s v rest k ⟨depth, h⟩
    exact ((g.parser_noLag rules depth w).of_success h).2
  · rintro l s v rest k ⟨depth, h⟩
    have hP : g.Admits fun place => g.Supplies place ∨ place = .covering place.start place.text :=
      ⟨fun _ => .inl, fun _ _ => .inr rfl⟩
    obtain ⟨hspans, c, hs, hk⟩ := (hg.denote_keeps hP).of_success h
    exact ⟨⟨c, hs, hk.symm⟩, hspans⟩
  · refine hg.everywhere.mono ?_
    rintro q hq p rfl l s v rest k ⟨depth, h⟩
    have hp : p.Exact := hq.of_mem_children List.mem_cons_self
    have hP : p.Admits fun _ => True := ⟨fun _ _ => trivial, fun _ _ => trivial⟩
    obtain ⟨⟨⟨e, rest⟩ | ⟨rest, m⟩, k⟩, hspan, he⟩ := map_eq_some_iff.mp h
    · obtain ⟨-, c, hs, rfl, hplace⟩ := (hp.denote_keeps hP).span_eq hspan
      cases he
      exact ⟨e.1, c, hs, congrArg (Value.spanned e.1) hplace⟩
    · cases he
  · rintro hg l s rest m k ⟨depth, h⟩
    have hP : g.Admits fun _ => True := ⟨fun _ _ => trivial, fun _ _ => trivial⟩
    exact ((hg.denote_keeps hP).of_failure h).symm

/-- A line and some letters of the next one, with spans, are read exactly; the letters fail without a
trace. Two attempts at a word that begin alike are counted together, and the location is then ahead. -/
theorem location_accounts_for_text_of_lines :
    let letters : Grammar Regex.Program := many1 (orChain (literal ['a']) [literal ['b']])
    let lines := choice [literal ['n', 'o'],
      span (seq [manyTill any (literal ['\n']), span letters])]
    let value := Value.spanned (.list [.list [.str ['x'], .str ['\n']],
      .spanned (.list [.str ['a'], .str ['b']]) (.covering ⟨4, 1⟩ ['a', 'b'])])
      (.covering ⟨3, 5⟩ ['x', '\n', 'a', 'b'])
    let word : Grammar Regex.Program :=
      choice [seq [literal ['a'], literal ['b']], seq [literal ['a'], literal ['c']]]
    let found := Value.list [.str ['a'], .str ['c']]
    let w : Wrapper (Grammar Regex.Program) := .skip whitespace
    (lines.Exact ∧ letters.Quiet) ∧
    (lines.Replies {} none (Location.mk 3 5) ['x', '\n', 'a', 'b', 'c']
        ⟨.success value ['c'], ⟨4, 3⟩⟩ ∧
      ∀ place ∈ value.spans, lines.Supplies place ∨ place = .covering place.start place.text) ∧
    (letters.Replies {} none (Location.mk 3 5) ['x'] ⟨.failure ['x'] none, ⟨3, 5⟩⟩ ∧
      Location.mk 3 5 = ⟨3, 5⟩) ∧
    word.Replies {} (some w) (Location.mk 1 1) ['\n', 'a', 'c', '!']
        ⟨.success found ['!'], ⟨3, 3⟩⟩ ∧
      ∃ c, ['\n', 'a', 'c', '!'] = c ++ ['!'] ∧ Location.after ⟨1, 1⟩ c ≤ ⟨3, 3⟩ := by
  intro letters lines value word found w
  have hletters : letters.Quiet := .many1 (.orChain (.terminal _) (by simp [literal, Quiet.terminal]))
  have hline : (manyTill any (literal ['\n']) : Grammar Regex.Program).Exact :=
    .manyTill (.terminal _) (.terminal _)
  have hlines : lines.Exact := by
    have hno : ∀ q ∈ [(literal ['n', 'o'] : Grammar Regex.Program)], q.Quiet :=
      List.forall_mem_singleton.mpr (.terminal _)
    refine .choice hno (.span (.seq (List.forall_mem_cons.mpr ⟨hline, ?_⟩)))
    exact List.forall_mem_singleton.mpr (.span (.quiet hletters))
  have hread : lines.Replies {} none (Location.mk 3 5) ['x', '\n', 'a', 'b', 'c']
      ⟨.success value ['c'], ⟨4, 3⟩⟩ := by
    simp only [lines, letters, value]
    exact ⟨0, by cbv⟩
  have hmiss : letters.Replies {} none (Location.mk 3 5) ['x'] ⟨.failure ['x'] none, ⟨3, 5⟩⟩ :=
    ⟨0, by rfl⟩
  have hword : word.Replies {} (some w) (Location.mk 1 1) ['\n', 'a', 'c', '!']
      ⟨.success found ['!'], ⟨3, 3⟩⟩ := ⟨0, by rfl⟩
  have haccounts := location_accounts_for_text {} lines
  exact ⟨⟨hlines, hletters⟩, ⟨hread, ((haccounts.2.1 hlines).1 _ _ _ _ _ hread).2⟩,
    ⟨hmiss, (location_accounts_for_text {} letters).2.2 hletters _ _ _ _ _ hmiss⟩,
    hword, (location_accounts_for_text {} word).1 _ _ _ _ _ _ hword⟩

end Grammar

end Descent
