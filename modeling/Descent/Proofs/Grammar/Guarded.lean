import Descent.Proofs.Grammar.Contract
import Descent.Proofs.Grammar.Simulation
import Descent.Proofs.Parser.Answering

/-!
# Grammars that always give an answer

A grammar is guarded if every reference in it stands behind a token: something that consumes at
least one character when it succeeds. Where all rules are guarded, the text gets shorter from one
reference to the next, so that references are never nested more deeply than the text is long.

Terminals can be wrapped, and a wrapper has a grammar of its own, which runs on the same text as the
terminal. This does no harm as long as a wrapped token still consumes something; only the wrappers
that make a terminal optional are excluded (`Wrapper.IsOptional`).

* `denote_answersBelow`: a grammar answers the texts that its references answer.
* `Guarded.denote_answersBelow`: a guarded grammar answers texts that are longer by one.
* `resolve_answersBelow`: with depth `n`, references answer texts shorter than `n`.
* `guarded_rules_answer`: every grammar answers every text.
-/

namespace Descent

open Descent.Parser

variable {κ : Type} [Clock κ]

/-! ## Guarded grammars -/

/-- A wrapper under which every terminal matches the empty text. -/
def Wrapper.IsOptional {γ : Type} : Wrapper γ → Prop
  | opt | many => True
  | _ => False

namespace Grammar

/-- A condition on the wrappers of a grammar. -/
def OnWrapper {ρ : Type} (P : Wrapper (Grammar ρ) → Prop) : Grammar ρ → Prop
  | terminals w _ => P w
  | _ => True

/-- A part that consumes something when it succeeds. -/
inductive IsToken {ρ : Type} : Grammar ρ → Prop
  | literal {text : Text} : text ≠ [] → IsToken (literal text)
  | any : IsToken any
  | digit : IsToken digit
  | integer : IsToken integer

/-- Every reference in the grammar stands behind a token, those inside wrappers included. -/
inductive Guarded {ρ : Type} : Grammar ρ → Prop
  | node {g : Grammar ρ} : ¬ g.IsRef → (∀ q ∈ g.children, Guarded q) → Guarded g
  | seq {p : Grammar ρ} {ps : List (Grammar ρ)} : p.IsToken → Guarded (seq (p :: ps))
  | record {f : Field (Grammar ρ)} {fields : List (Field (Grammar ρ))} : f.part.IsToken →
      Guarded (record (f :: fields))
  | between {left right inner : Grammar ρ} : left.IsToken → Guarded (between left right inner)

end Grammar

/-! ## Terminals and wrappers -/

theorem Terminal.parser_answersBelow (t : Terminal Regex.Program) (n : Nat) :
    (t.parser : Parser κ Text).AnswersBelow n := by
  refine ⟨t.parser_leavesSuffix, fun k s hs => ?_⟩
  cases hm : t.matchLength? s with
  | none => exact ⟨_, parser_eq_some_iff.mpr (.inl ⟨hm, rfl⟩)⟩
  | some m => exact ⟨_, parser_eq_some_iff.mpr (.inr ⟨m, hm, rfl⟩)⟩

theorem Terminal.parser_consumes {t : Terminal Regex.Program}
    (ht : ∀ s n, t.matchLength? s = some n → 0 < n) : (t.parser : Parser κ Text).Consumes := by
  intro k s v rest k' h
  rcases parser_eq_some_iff.mp h with ⟨-, he⟩ | ⟨n, hn, he⟩ <;> cases he
  have hpos := ht s n hn
  have hle := t.matchLength?_le_length hn
  rw [List.length_drop]
  omega

theorem Terminal.literal_consumes {text : Text} (htext : text ≠ []) :
    ((Terminal.literal text).parser : Parser κ Text).Consumes :=
  parser_consumes fun _ _ hn => matchLength?_literal_pos htext hn

theorem Terminal.run_consumes (test : Char → Bool) (max : Option Nat) :
    ((Terminal.run test 1 max).parser : Parser κ Text).Consumes :=
  parser_consumes fun _ _ hn => matchLength?_run_pos hn

/-- The surroundings leave the terminals with answers, and what consumes something does so still. -/
structure Ambient.AnswersBelow (n : Nat) (a : Ambient κ) : Prop where
  answers : ∀ t, (a.apply t).AnswersBelow n
  consumes : ∀ t : Terminal Regex.Program, (t.parser : Parser κ Text).Consumes →
    (a.apply t).Consumes

theorem Ambient.AnswersBelow.none (n : Nat) : Ambient.AnswersBelow n (none : Ambient κ) :=
  ⟨fun t => t.parser_answersBelow n, fun _ ht => ht⟩

theorem Ambient.AnswersBelow.mono {n m : Nat} {a : Ambient κ} (ha : a.AnswersBelow n)
    (hm : m ≤ n) : a.AnswersBelow m :=
  ⟨fun t => (ha.answers t).mono hm, ha.consumes⟩

namespace Grammar

variable {resolve : Reference → Ambient κ → Parser κ Value} {n : Nat}

theorem denoteWrapper_answersBelow {w : Wrapper (Grammar Regex.Program)}
    (hw : w.Forall fun g => (g.denote resolve none).AnswersBelow n) {t : Parser κ Text}
    (ht : t.AnswersBelow n) : (denoteWrapper resolve w t).AnswersBelow n := by
  have hlit : ∀ text, ((Terminal.literal text).parser : Parser κ Text).AnswersBelow n :=
    fun text => Terminal.parser_answersBelow _ n
  cases w with
  | skip ignored => exact .between hw hw ht
  | identity => exact ht
  | upper => exact ht.map _
  | twice => exact .map (.seq (by simp [ht])) _
  | expect => exact ht.expect _
  | quote => exact .between (hlit _) (hlit _) ht
  | nonempty => exact ht.filter _
  | orStar => exact .choice (by simp [ht, hlit])
  | opt => exact ht.opt.map _
  | many => exact ht.many.map _

/-- A wrapper that does not make its terminal optional consumes what the terminal consumes. -/
theorem denoteWrapper_consumes {w : Wrapper (Grammar Regex.Program)}
    (hw : w.Forall fun g => (g.denote resolve none).LeavesSuffix) (hopt : ¬ w.IsOptional)
    {t : Parser κ Text} (hsuffix : t.LeavesSuffix) (ht : t.Consumes) :
    (denoteWrapper resolve w t).Consumes := by
  have hquote : ((Terminal.literal ['\'']).parser : Parser κ Text).LeavesSuffix :=
    Terminal.parser_leavesSuffix _
  have hstar : ((Terminal.literal ['*']).parser : Parser κ Text).Consumes :=
    Terminal.literal_consumes (by simp)
  cases w with
  | skip ignored => exact .between hw hw ht
  | identity => exact ht
  | upper => exact ht.map _
  | twice =>
    refine .map (ht.andThen fun v => LeavesSuffix.map (.seq ?_) _) _
    simpa using hsuffix
  | expect => exact ht.expect _
  | quote => exact .between hquote hquote ht
  | nonempty => exact ht.filter _
  | orStar => exact .choice (by simp [ht, hstar])
  | opt | many => exact absurd trivial hopt

/-- The surroundings that a wrapper makes, if it does not make terminals optional. -/
theorem ambient_answersBelow {w : Wrapper (Grammar Regex.Program)}
    (hw : w.Forall fun g => (g.denote resolve none).AnswersBelow n) (hopt : ¬ w.IsOptional) :
    Ambient.AnswersBelow n (some (denoteWrapper resolve w)) := by
  refine ⟨fun t => denoteWrapper_answersBelow hw (t.parser_answersBelow n), fun t ht => ?_⟩
  exact denoteWrapper_consumes (w.forall_mono (fun _ hg => hg.suffix) hw) hopt
    t.parser_leavesSuffix ht

/-! ## Grammars -/

theorem probe_answersBelow (q : Probe) (isWrapped : Bool) :
    (q.parser isWrapped : Parser κ Value).AnswersBelow n := by
  refine ⟨q.parser_leavesSuffix isWrapped, fun k s hs => ?_⟩
  cases q with
  | columnAtLeast m =>
    simp only [Probe.parser]
    split <;> exact ⟨_, rfl⟩
  | _ => exact ⟨_, rfl⟩

/-- A node answers what all its parts answer. References and wrappers are looked at elsewhere. -/
theorem denote_answersBelow_of_children {g : Grammar Regex.Program} {a : Ambient κ}
    (ha : a.AnswersBelow n) (href : ¬ g.IsRef) (hterminals : ∀ w p, g ≠ terminals w p)
    (h : ∀ q ∈ g.children, (q.denote resolve a).AnswersBelow n) :
    (g.denote resolve a).AnswersBelow n := by
  cases g with
  | terminal t => exact (ha.answers t).map _
  | bare t => exact (t.parser_answersBelow n).map _
  | probe q => exact probe_answersBelow q _
  | ref r => exact absurd trivial href
  | seq ps =>
    rw [denote, denoteAll_eq_map]
    exact .map (.seq (List.forall_mem_map.mpr h)) _
  | record fields =>
    rw [denote, denoteFields_eq_map]
    refine .map (.recordFrom (List.forall_mem_map.mpr ?_) _) _
    exact fun f hf => h f.part (List.mem_map_of_mem hf)
  | between left right inner =>
    exact .between (h left (by simp [children])) (h right (by simp [children]))
      (h inner (by simp [children]))
  | choice ps =>
    rw [denote, denoteAll_eq_map]
    exact .choice (List.forall_mem_map.mpr h)
  | opt p => exact (h p List.mem_cons_self).opt.map _
  | many p => exact (h p List.mem_cons_self).many.map _
  | many1 p => exact (h p List.mem_cons_self).many1.map _
  | sepBy item separator =>
    exact ((h item (by simp [children])).sepBy (h separator (by simp [children]))).map _
  | manyTill item stop =>
    exact ((h item (by simp [children])).manyTill (h stop (by simp [children]))).map _
  | terminals w p => exact absurd rfl (hterminals w p)
  | map f p | replace f p => exact (h p List.mem_cons_self).map _
  | tryMap f p => exact (h p List.mem_cons_self).tryMap _
  | filter f p => exact (h p List.mem_cons_self).filter _
  | nth m p => exact ((h p List.mem_cons_self).tryMap _).tryMap _
  | select indices p => exact (((h p List.mem_cons_self).tryMap _).tryMap _).map _
  | slice part p => exact (((h p List.mem_cons_self).tryMap _).map _).map _
  | put key value p => exact (((h p List.mem_cons_self).tryMap _).map _).map _
  | expect description p => exact (h p List.mem_cons_self).expect _
  | span p => exact (h p List.mem_cons_self).span.map _
  | window m p => exact (h p List.mem_cons_self).window m

/-- A grammar answers the texts that its references answer. -/
theorem denote_answersBelow {g : Grammar Regex.Program}
    (hg : g.Everywhere (OnWrapper (¬ ·.IsOptional)))
    (hresolve : ∀ r a, a.AnswersBelow n → (resolve r a).AnswersBelow n) {a : Ambient κ}
    (ha : a.AnswersBelow n) : (g.denote resolve a).AnswersBelow n := by
  induction g using induct_children generalizing a with
  | step g ih =>
    cases g with
    | ref r => exact hresolve r a ha
    | terminals w p =>
      have hw : w.Forall fun q => (q.denote resolve none).AnswersBelow n := by
        have hparts := hg.wrapper
        cases w with
        | skip ignored => exact ih ignored (by simp [children, Wrapper.grammars]) hparts (.none n)
        | _ => trivial
      exact ih p List.mem_cons_self (hg.child List.mem_cons_self)
        (ambient_answersBelow hw hg.here)
    | _ =>
      exact denote_answersBelow_of_children ha id (fun _ _ h => by cases h)
        fun q hq => ih q hq (hg.child hq) ha

/-! ## Behind a token -/

/-- A token has no references, so its answer does not depend on the rules. -/
theorem IsToken.denote_answersBelow {g : Grammar Regex.Program} (hg : g.IsToken) {a : Ambient κ}
    (ha : a.AnswersBelow n) : (g.denote resolve a).AnswersBelow n := by
  cases hg with
  | literal _ | any | digit => exact (ha.answers _).map _
  | integer => exact ((ha.answers _).map _).tryMap _

theorem IsToken.denote_consumes {g : Grammar Regex.Program} (hg : g.IsToken) {a : Ambient κ}
    (ha : a.AnswersBelow n) : (g.denote resolve a).Consumes := by
  cases hg with
  | literal htext => exact (ha.consumes _ (Terminal.literal_consumes htext)).map _
  | any | digit => exact (ha.consumes _ (Terminal.run_consumes _ _)).map _
  | integer => exact ((ha.consumes _ (Terminal.run_consumes _ _)).map _).tryMap _

/-- A guarded grammar answers texts that are longer by one than those that its references answer:
by the time a reference is reached, a token has consumed something. -/
theorem Guarded.denote_answersBelow {g : Grammar Regex.Program} (hguarded : g.Guarded)
    (hg : g.Everywhere (OnWrapper (¬ ·.IsOptional)))
    (hresolve : ∀ r a, a.AnswersBelow n → (resolve r a).AnswersBelow n) {a : Ambient κ}
    (ha : a.AnswersBelow (n + 1)) : (g.denote resolve a).AnswersBelow (n + 1) := by
  have hshorter := ha.mono (Nat.le_succ n)
  induction hguarded generalizing a with
  | @node g href _ ih =>
    cases g with
    | terminals w p =>
      have hw : w.Forall fun q => (q.denote resolve none).AnswersBelow (n + 1) := by
        have hparts := hg.wrapper
        cases w with
        | skip ignored =>
          exact ih ignored (by simp [children, Wrapper.grammars]) hparts (.none _) (.none _)
        | _ => trivial
      have ha' := ambient_answersBelow hw hg.here
      exact ih p List.mem_cons_self (hg.child List.mem_cons_self) ha' (ha'.mono (Nat.le_succ n))
    | _ =>
      exact denote_answersBelow_of_children ha href (fun _ _ h => by cases h)
        fun q hq => ih q hq (hg.child hq) ha hshorter
  | @seq p ps htoken =>
    have hps : ∀ q ∈ ps, (q.denote resolve a).AnswersBelow n := fun q hq =>
      Grammar.denote_answersBelow (hg.child (List.mem_cons_of_mem p hq)) hresolve hshorter
    rw [denote, denoteAll_eq_map]
    refine .map ((htoken.denote_answersBelow ha).andThen_of_consumes (htoken.denote_consumes ha)
      fun v => ?_) _
    exact .map (.seq (List.forall_mem_map.mpr hps)) _
  | @record f fields htoken =>
    have hfields : ∀ e ∈ fields, (e.part.denote resolve a).AnswersBelow n := fun e he =>
      Grammar.denote_answersBelow
        (hg.child (List.mem_map_of_mem (List.mem_cons_of_mem f he))) hresolve hshorter
    rw [denote, denoteFields_eq_map]
    refine .map ?_ _
    have hbehind : ∀ captured, (recordFrom captured
        (fields.map fun e => (e.key, e.part.denote resolve a))).AnswersBelow n :=
      fun captured => .recordFrom (List.forall_mem_map.mpr hfields) captured
    obtain ⟨_ | key, part⟩ := f
    · exact (htoken.denote_answersBelow ha).andThen_of_consumes (htoken.denote_consumes ha)
        fun v => hbehind _
    · exact (htoken.denote_answersBelow ha).andThen_of_consumes (htoken.denote_consumes ha)
        fun v => hbehind _
  | @between left right inner htoken =>
    have hright : (right.denote resolve a).AnswersBelow n :=
      Grammar.denote_answersBelow (hg.child (by simp [children])) hresolve hshorter
    have hinner : (inner.denote resolve a).AnswersBelow n :=
      Grammar.denote_answersBelow (hg.child (by simp [children])) hresolve hshorter
    exact (htoken.denote_answersBelow ha).andThen_of_consumes (htoken.denote_consumes ha)
      fun v => hinner.andThen fun u => hright.map _

end Grammar

/-! ## Rules -/

/-- Every rule is guarded. -/
def Rules.Guarded (rules : Rules) : Prop :=
  ∀ r g, rules.find? r = some g → g.Guarded

/-- By induction on the depth: behind a token the text is shorter, and references are only needed
there. -/
theorem Rules.resolve_answersBelow {rules : Rules} (hguarded : rules.Guarded)
    (hrules : rules.Everywhere (Grammar.OnWrapper (¬ ·.IsOptional))) (depth : Nat) :
    ∀ r (a : Ambient κ), a.AnswersBelow depth → (rules.resolve depth r a).AnswersBelow depth := by
  induction depth with
  | zero =>
    intro r a ha
    exact ⟨rules.resolve_leavesSuffix 0 r a fun t => (ha.answers t).suffix,
      fun k s hs => absurd hs (Nat.not_lt_zero _)⟩
  | succ depth ih =>
    intro r a ha
    rw [resolve]
    cases hfind : rules.find? r with
    | none => exact .fail
    | some g => exact (hguarded r g hfind).denote_answersBelow (hrules r g hfind) ih ha

/-- Where all rules are guarded and no wrapper makes a terminal optional, every grammar answers every
text: the depth that is needed is at most the length of the text and one, and the answer does not
depend on it. -/
theorem Grammar.guarded_rules_answer {rules : Rules}
    {w : Option (Wrapper (Grammar Regex.Program))} {g : Grammar Regex.Program}
    (hguarded : rules.Guarded) (hrules : rules.Everywhere (OnWrapper (¬ ·.IsOptional)))
    (hg : (g.under w).Everywhere (OnWrapper (¬ ·.IsOptional))) (k : κ) (s : Text) :
    ∃ r, ∀ depth, s.length < depth → g.parser rules depth w k s = some r := by
  have hanswers : (g.parser rules (s.length + 1) w : Parser κ Value).AnswersBelow
      (s.length + 1) := by
    rw [← parser_under]
    exact denote_answersBelow hg (rules.resolve_answersBelow hguarded hrules _) (.none _)
  obtain ⟨r, hr⟩ := hanswers.answers k s (Nat.lt_succ_self _)
  exact ⟨r, fun depth hdepth => parser_mono hdepth hr⟩

/-- Rounds that may match nothing, nested in each other and in a rule that refers to itself behind a
bracket, with spaces skipped. -/
theorem Grammar.guarded_rules_answer_of_nullable_rounds :
    let group : Grammar Regex.Program :=
      choice [seq [literal ['('], many (opt (ref (.cell "group"))), literal [')']], integer]
    let rules : Rules := ⟨[("group", group)], []⟩
    let w : Wrapper (Grammar Regex.Program) := .skip (many (opt (literal [' '])))
    let g : Grammar Regex.Program := many (opt (sepBy (ref (.cell "group")) (opt (literal [',']))))
    let input : Text := ['(', '(', '7', ' ', ')', '(', ',']
    rules.Guarded ∧ ∃ r, ∀ depth, 7 < depth →
      g.parser rules depth (some w) Location.start input = some r := by
  intro group rules w g input
  have hfind : ∀ r body, rules.find? r = some body → body = group := by
    intro r body h
    cases r with
    | cell name =>
      simp only [Rules.find?, rules, Fields.find?, Option.ite_none_right_eq_some,
        Option.some.injEq] at h
      exact h.2.symm
    | definition name => cases h
  have hgroup : group.Guarded := by
    refine .node id (List.forall_mem_cons.mpr ⟨.seq (.literal (by simp)), ?_⟩)
    refine List.forall_mem_singleton.mpr (.node id (List.forall_mem_singleton.mpr ?_))
    exact .node id (List.forall_mem_nil _)
  have hguarded : rules.Guarded := fun r body h => hfind r body h ▸ hgroup
  have hrules : rules.Everywhere (OnWrapper (¬ ·.IsOptional)) := by
    intro r body h
    rw [hfind r body h]
    simp [group, Everywhere.iff_children, children, OnWrapper, literal, integer]
  have hg : (g.under (some w)).Everywhere (OnWrapper (¬ ·.IsOptional)) := by
    simp [g, w, under, Everywhere.iff_children, children, Wrapper.grammars, OnWrapper,
      Wrapper.IsOptional, literal]
  exact ⟨hguarded, guarded_rules_answer hguarded hrules hg Location.start input⟩

end Descent
