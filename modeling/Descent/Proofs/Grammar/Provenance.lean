import Descent.Proofs.Grammar.Composition
import Descent.Proofs.Grammar.Contract
import Descent.Proofs.Grammar.Whole
import Descent.Proofs.Report.Place
import Mathlib.Tactic

/-!
# Where messages come from

A failure has a message only if a node that says what it expects failed last. All parsers that hand
the failure of a part on do so at once, without reading anything further; so the location in the
message is the one at which the whole parser ends. The text in the message stood in front of the node,
and is therefore the end of the whole text. This is so for grammars without leaves that write messages
of their own and without windows, which hide a part of the text (`Grammar.IsCandid`).

* `denote_explains`, `resolve_explains`, `parser_explains`: the messages of parsers.
* `messages_have_provenance`: messages with all their parts, also those in the errors for whole texts.
-/

namespace Descent

open Descent.Parser

variable {κ : Type} {α β : Type}

/-- A choice that fails has nothing to say of its own. -/
theorem Parser.choice_message (ps : List (Parser κ α)) {k k' : κ} {s rest : Text} {m : Option Text}
    (h : choice ps k s = some ⟨.failure rest m, k'⟩) : m = none := by
  induction ps generalizing k with
  | nil =>
    cases h
    rfl
  | cons p ps ih =>
    rcases choice_cons_eq_some_iff.mp h with ⟨rest', m', k₁, -, hr⟩ | ⟨v, rest', k₁, -, he⟩
    · exact ih hr
    · cases he

variable [Clock κ]

namespace Parser

/-- The message says at which location something was expected that `D` describes, and shows the front
of what stands at the end of `s`. -/
def Explained (D : Text → Prop) (l : Location) (s m : Text) : Prop :=
  ∃ d t, D d ∧ t <:+ s ∧ m = expectation l d t

/-- The messages of `p` tell where `p` ended and what it expected there. -/
structure Explains (D : Text → Prop) (p : Parser κ α) : Prop where
  suffix : p.LeavesSuffix
  explained : ∀ ⦃k s rest m k'⦄, p k s = some ⟨.failure rest (some m), k'⟩ →
    Explained D (Clock.location k') s m

namespace Explains

variable {D : Text → Prop} {p : Parser κ α}

theorem map (hp : p.Explains D) (f : α → β) : (p.map f).Explains D := by
  refine ⟨hp.suffix.map f, fun k s rest m k' h => ?_⟩
  obtain ⟨⟨⟨v, rest'⟩ | ⟨rest', m'⟩, k₁⟩, hr, he⟩ := map_eq_some_iff.mp h
  · cases he
  · cases he
    exact hp.explained hr

theorem andThen {f : α → Parser κ β} (hp : p.Explains D) (hf : ∀ v, (f v).Explains D) :
    (p.andThen f).Explains D := by
  refine ⟨hp.suffix.andThen fun v => (hf v).suffix, fun k s rest m k' h => ?_⟩
  rcases andThen_eq_some_iff.mp h with ⟨rest', m', k₁, hr, he⟩ | ⟨v, behind, k₁, r, hv, hr, he⟩
  · cases he
    exact hp.explained hr
  · obtain ⟨⟨u, rest'⟩ | ⟨rest', m'⟩, k₂⟩ := r
    · cases he
    · cases he
      obtain ⟨d, t, hd, ht, hm⟩ := (hf v).explained hr
      have hbehind : behind <:+ s := hp.suffix hv
      exact ⟨d, t, hd, ht.trans hbehind, hm⟩

theorem filter (hp : p.Explains D) (c : α → Bool) : (p.filter c).Explains D := by
  refine ⟨hp.suffix.filter c, fun k s rest m k' h => ?_⟩
  rcases filter_eq_some_iff.mp h with
    ⟨_, _, _, hr, he⟩ | ⟨_, _, _, -, -, he⟩ | ⟨_, _, _, -, -, he⟩ <;> cases he
  exact hp.explained hr

/-- Where no part succeeds, what they expected is forgotten. -/
theorem choice {ps : List (Parser κ α)} (hps : ∀ p ∈ ps, p.Explains D) :
    (choice ps).Explains D := by
  refine ⟨.choice fun p hp => (hps p hp).suffix, fun k s rest m k' h => ?_⟩
  cases choice_message ps h

theorem opt (hp : p.Explains D) : p.opt.Explains D := by
  refine ⟨hp.suffix.opt, fun k s rest m k' h => ?_⟩
  rcases opt_eq_some_iff.mp h with ⟨_, _, _, -, he⟩ | ⟨_, _, _, -, he⟩ <;> cases he

theorem many (hp : p.Explains D) : Explains D (many p) := by
  refine ⟨hp.suffix.many, fun k s rest m k' h => ?_⟩
  obtain ⟨_, _, _, -, he⟩ := many_eq_some_iff.mp h
  cases he

theorem sepBy {q : Parser κ β} (hp : p.Explains D) (hq : q.Explains D) :
    (sepBy p q).Explains D := by
  refine ⟨hp.suffix.sepBy hq.suffix, fun k s rest m k' h => ?_⟩
  rcases sepBy_eq_some_iff.mp h with ⟨_, _, _, -, he⟩ | ⟨_, _, _, _, _, _, -, -, he⟩ <;> cases he

/-- The stop is tried once more where the search led nowhere, and this is the last thing done. -/
theorem manyTill {q : Parser κ α} (hp : p.Explains D) (hq : q.Explains D) :
    (manyTill p q).Explains D := by
  refine ⟨hp.suffix.manyTill hq.suffix, fun k s rest m k' h => ?_⟩
  rcases manyTill_eq_some_iff.mp h with ⟨_, _, _, -, he⟩ | ⟨k₁, r', -, hr', he⟩
  · cases he
  · obtain ⟨⟨v, rest'⟩ | ⟨rest', m'⟩, k₂⟩ := r'
    · cases he
    · cases he
      exact hq.explained hr'

/-- The message is made here, from the place where the part failed and from the whole text. -/
theorem expect (hp : p.Explains D) {description : Text} (hD : D description) :
    (p.expect description).Explains D := by
  refine ⟨hp.suffix.expect description, fun k s rest m k' h => ?_⟩
  rcases expect_eq_some_iff.mp h with ⟨_, _, _, -, he⟩ | ⟨_, _, _, -, he⟩
  · cases he
    exact ⟨description, s, hD, List.suffix_rfl, rfl⟩
  · cases he

theorem span (hp : p.Explains D) : p.span.Explains D := by
  refine ⟨hp.suffix.span, fun k s rest m k' h => ?_⟩
  obtain ⟨⟨⟨v, rest'⟩ | ⟨rest', m'⟩, k₁⟩, hr, he⟩ := span_eq_some_iff.mp h
  · cases he
  · cases he
    exact hp.explained hr

end Explains

theorem composable_explains (D : Text → Prop) :
    Composable fun _ => Explains D (κ := κ) where
  succeed v := ⟨.succeed v, nofun⟩
  fail := ⟨.fail, nofun⟩
  map f hp := hp.map f
  andThen hp hf := hp.andThen hf
  filter c hp := hp.filter c
  choice hps := .choice hps
  opt hp := hp.opt
  many hp := hp.many
  sepBy hp hq := hp.sepBy hq
  manyTill hp hq := hp.manyTill hq

end Parser

/-! ## Leaves -/

theorem Terminal.parser_explains (t : Terminal Regex.Program) (D : Text → Prop) :
    (t.parser : Parser κ Text).Explains D := by
  refine ⟨t.parser_leavesSuffix, fun k s rest m k' h => ?_⟩
  rcases parser_eq_some_iff.mp h with ⟨-, he⟩ | ⟨n, -, he⟩ <;> cases he

/-- The probe writes a message of its own. -/
def Probe.IsReject : Probe → Prop
  | reject _ | rejectPast _ => True
  | _ => False

/-- Only the probes that reject have a message, which may be any text. -/
theorem Probe.parser_explains {q : Probe} (hq : ¬ q.IsReject) (isWrapped : Bool)
    (D : Text → Prop) : (q.parser isWrapped : Parser κ Value).Explains D := by
  refine ⟨q.parser_leavesSuffix isWrapped, fun k s rest m k' h => ?_⟩
  cases q with
  | reject message | rejectPast message => exact absurd trivial hq
  | columnAtLeast n =>
    simp only [parser] at h
    split at h <;> cases h
  | location | wrapped | advance => cases h

/-- Every terminal explains itself. -/
def Ambient.Explains (D : Text → Prop) (a : Ambient κ) : Prop := ∀ t, (a.apply t).Explains D

namespace Grammar

/-! ## Grammars -/

/-- The node neither writes a message of its own nor hides a part of the text. -/
def IsCandid {ρ : Type} : Grammar ρ → Prop
  | probe q => ¬ q.IsReject
  | window _ _ => False
  | _ => True

/-- Something in the grammar, or in a wrapper inside it, is described by `d`. -/
inductive Describes {ρ : Type} (d : Text) : Grammar ρ → Prop
  | expect {p : Grammar ρ} : Describes d (expect d p)
  | token {p : Grammar ρ} : d = "token".toList → Describes d (terminals .expect p)
  | child {g q : Grammar ρ} : q ∈ g.children → Describes d q → Describes d g

variable {D : Text → Prop} {resolve : Reference → Ambient κ → Parser κ Value}

/-- Messages come from descriptions in the grammar or from below its references. -/
theorem denote_explains {g : Grammar Regex.Program} (hg : g.Everywhere IsCandid)
    (hD : ∀ d, g.Describes d → D d)
    (hresolve : ∀ r a, a.Explains D → (resolve r a).Explains D) {a : Ambient κ}
    (ha : a.Explains D) : (g.denote resolve a).Explains D := by
  have hterminal : ∀ t : Terminal Regex.Program, (t.parser : Parser κ Text).Explains D :=
    fun t => t.parser_explains D
  induction g using induct_children generalizing a with
  | step g ih =>
    have hpart : ∀ q ∈ g.children, ∀ {b : Ambient κ}, b.Explains D →
        (q.denote resolve b).Explains D :=
      fun q hq b hb => ih q hq (hg.child hq) (fun d hd => hD d (.child hq hd)) hb
    cases g with
    | terminal t => exact (ha t).map _
    | bare t => exact (hterminal t).map _
    | probe q => exact q.parser_explains hg.here _ D
    | ref r => exact hresolve r a ha
    | terminals w p =>
      refine hpart p List.mem_cons_self
        (denoteWrapper_of_terminal (composable_explains D) hterminal ?_ ?_)
      · cases w with
        | skip ignored => exact hpart ignored (by simp [children, Wrapper.grammars]) hterminal
        | _ => trivial
      · rintro rfl t
        exact (hterminal t).expect (hD _ (.token rfl))
    | expect description p => exact (hpart p List.mem_cons_self ha).expect (hD _ .expect)
    | span p => exact (hpart p List.mem_cons_self ha).span.map _
    | window n p => exact absurd hg.here id
    | _ =>
      refine denote_of_children (composable_explains D) ?_ fun q hq => hpart q hq ha
      trivial

end Grammar

/-- By induction on the depth; the descriptions of all definitions may come up. -/
theorem Rules.resolve_explains {rules : Rules} (hrules : rules.Everywhere Grammar.IsCandid)
    {D : Text → Prop} (hD : ∀ r g, rules.find? r = some g → ∀ d, g.Describes d → D d)
    (depth : Nat) :
    ∀ r (a : Ambient κ), a.Explains D → (rules.resolve depth r a).Explains D := by
  induction depth with
  | zero => exact fun r a ha => ⟨rules.resolve_leavesSuffix 0 r a fun t => (ha t).suffix, nofun⟩
  | succ depth ih =>
    intro r a ha
    rw [resolve]
    cases hfind : rules.find? r with
    | none => exact (composable_explains D).fail
    | some g => exact Grammar.denote_explains (hrules r g hfind) (hD r g hfind) ih ha

namespace Grammar

/-- What the messages of a grammar can describe. -/
def Expectable (rules : Rules) (g : Grammar Regex.Program) (d : Text) : Prop :=
  g.Describes d ∨ ∃ r body, rules.find? r = some body ∧ body.Describes d

variable {rules : Rules} {w : Option (Wrapper (Grammar Regex.Program))}
  {g : Grammar Regex.Program}

theorem parser_explains (hrules : rules.Everywhere IsCandid)
    (hg : (g.under w).Everywhere IsCandid) (depth : Nat) :
    (g.parser rules depth w : Parser κ Value).Explains ((g.under w).Expectable rules) := by
  rw [← parser_under]
  have hresolve := rules.resolve_explains (κ := κ) hrules
    (D := (g.under w).Expectable rules) (fun r body hfind d hd => .inr ⟨r, body, hfind, hd⟩) depth
  exact denote_explains hg (fun d hd => .inl hd) hresolve fun t => t.parser_explains _

/-! ## Messages -/

theorem preview_cases (t : Text) :
    preview t = t ∧ t.length ≤ 20 ∨ preview t = t.take 20 ++ "...".toList ∧ 20 < t.length := by
  unfold preview previewLength
  split
  · exact .inl ⟨rfl, ‹_›⟩
  · exact .inr ⟨rfl, by omega⟩

/-- The message `m` names the location `l` and something that `d` describes, and shows the front of the
text `t`: at most 20 characters of it. -/
def Quotes (l : Location) (d t m : Text) : Prop :=
  ∃ shown, m = "[".toList ++ l.display ++ "]: Expected ".toList ++ d ++ ", got \"".toList ++ shown ++
      "\"".toList ∧
    (shown = t ∧ t.length ≤ 20 ∨ shown = t.take 20 ++ "...".toList ∧ 20 < t.length)

theorem quotes_expectation (l : Location) (d t : Text) : Quotes l d t (expectation l d t) :=
  ⟨preview t, rfl, preview_cases t⟩

/-- A message names a description that can come up, and quotes an end of the text. -/
theorem Replies.quotes (hrules : rules.Everywhere IsCandid) (hg : (g.under w).Everywhere IsCandid)
    {l k : Location} {s rest m : Text}
    (h : g.Replies rules w l s ⟨.failure rest (some m), k⟩) :
    ∃ d t, (g.under w).Expectable rules d ∧ t <:+ s ∧ Quotes k d t m := by
  obtain ⟨depth, hr⟩ := h
  obtain ⟨d, t, hd, ht, rfl⟩ := (parser_explains hrules hg depth).explained hr
  exact ⟨d, t, hd, ht, quotes_expectation k d t⟩

/-- **Where messages come from.** A message names the location at which the parse ends, something that
the grammar, a definition or a wrapper describes, and what stands at some place of the text. In the
error for a whole text, the place is found from the location of the message, and it shows that same
location whenever this is the location of a place in the text. -/
theorem messages_have_provenance (hrules : rules.Everywhere IsCandid)
    (hg : (g.under w).Everywhere IsCandid) :
    (∀ (l : Location) s rest m k, g.Replies rules w l s ⟨.failure rest (some m), k⟩ →
      ∃ d t, (g.under w).Expectable rules d ∧ t <:+ s ∧ Quotes k d t m) ∧
    ∀ s m place, g.ParsesTo rules s (.error (.expected m place)) →
      ∃ rest k d t, g.Replies rules none Location.start s ⟨.failure rest (some m), k⟩ ∧
        g.Expectable rules d ∧ t <:+ s ∧ Quotes k d t m ∧ place = .ofLocation s k ∧
        ∀ a b, s = a ++ b → k = Location.start.after a → place.location = k := by
  refine ⟨fun l s rest m k h => h.quotes hrules hg, ?_⟩
  rintro s m place ⟨⟨o, k⟩, hr, hfinish⟩
  obtain ⟨⟨rest, rfl⟩, rfl⟩ := Reply.finish_eq_expected_iff.mp hfinish
  have hbare : g.Everywhere IsCandid := by
    cases w with
    | none => exact hg
    | some w => exact hg.child List.mem_cons_self
  obtain ⟨d, t, hd, ht, hm⟩ := hr.quotes (w := none) hrules hbare
  refine ⟨rest, k, d, t, hr, hd, ht, hm, rfl, ?_⟩
  rintro a b rfl rfl
  exact Place.location_ofLocation a b

/-- The digits of a number lead to no stop, which is then tried at their start: the message shows this
place, and the location of the end. -/
theorem messages_have_provenance_of_digits :
    let number : Grammar Regex.Program :=
      manyTill digit (expect "stop".toList (literal [';']))
    let rules : Rules := ⟨[("number", number)], []⟩
    let g : Grammar Regex.Program := seq [literal ['=', '\n'], ref (.cell "number")]
    let w : Wrapper (Grammar Regex.Program) := .skip (expect "space".toList whitespace)
    let input := "=\n123456789012345678901".toList
    let m := "[2:22]: Expected stop, got \"12345678901234567890...\"".toList
    (rules.Everywhere IsCandid ∧ (g.under (some w)).Everywhere IsCandid) ∧
    g.ParsesTo rules input (.error (.expected m ⟨input, 23⟩)) ∧
    ∃ rest k d t, g.Replies rules none Location.start input ⟨.failure rest (some m), k⟩ ∧
      g.Expectable rules d ∧ t <:+ input ∧ Quotes k d t m ∧
      (⟨input, 23⟩ : Place) = .ofLocation input k ∧
      ∀ a b, input = a ++ b → k = Location.start.after a → (⟨input, 23⟩ : Place).location = k := by
  intro number rules g w input m
  have hnumber : number.Everywhere IsCandid := by
    simp [number, Everywhere.iff_children, children, IsCandid, digit, literal]
  have hrules : rules.Everywhere IsCandid := by
    intro r body h
    cases r with
    | cell name =>
      simp only [Rules.find?, rules, Fields.find?, Option.ite_none_right_eq_some,
        Option.some.injEq] at h
      exact h.2 ▸ hnumber
    | definition name => cases h
  have hg : (g.under (some w)).Everywhere IsCandid := by
    simp [g, w, under, Everywhere.iff_children, children, Wrapper.grammars, IsCandid, literal,
      whitespace]
  have hparse : g.ParsesTo rules input (.error (.expected m ⟨input, 23⟩)) := by
    refine ⟨⟨.failure input (some m), ⟨2, 22⟩⟩, ⟨1, ?_⟩, ?_⟩
    · simp only [g, rules, number, input, m]
      cbv
    · have hend : Location.start.after input = ⟨2, 22⟩ := rfl
      have hoffset := Place.offsetOf_after .start input []
      rw [hend, List.append_nil] at hoffset
      refine Reply.finish_eq_expected_iff.mpr ⟨⟨input, rfl⟩, ?_⟩
      rw [Place.ofLocation, hoffset]
      rfl
  exact ⟨⟨hrules, hg⟩, hparse,
    (messages_have_provenance hrules hg).2 input m ⟨input, 23⟩ hparse⟩

end Grammar

end Descent
