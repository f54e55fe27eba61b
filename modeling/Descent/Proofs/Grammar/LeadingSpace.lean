import Descent.Proofs.Grammar.Simulation
import Descent.Proofs.Parser.LeadingSpace
import Mathlib.Tactic

/-!
# White space at the front of a text

A grammar whose terminals are matched with white space skipped does not see the white space at the
front of a text, provided that it reads nothing but such terminals and that none of these matches
the empty text (`ReadsTokens`). A terminal that matches the empty text would only skip the white
space, and one run would be ahead of the other without having matched anything.

* `denote_ignoresSpace`, `resolve_ignoresSpace`: along a grammar, and through references.
* `leading_space_is_irrelevant`: with and without white space at the front, the same is found.
-/

namespace Descent

open Descent.Parser Descent.Text

variable {κ : Type} [Clock κ]

/-- Both runs match at the same text, and leave the same. -/
theorem Terminal.spaced_ignoresSpace {t : Terminal Regex.Program}
    (ht : ∀ s n, t.matchLength? s = some n → 0 < n) : (t.spaced : Parser κ Text).IgnoresSpace := by
  intro k k' s s' r hs h
  cases hm : t.matchLength? (behindSpace s) with
  | none =>
    obtain ⟨k₁, hr⟩ := spaced_eq_failure hm k
    obtain ⟨k₁', hr'⟩ := spaced_eq_failure (hs ▸ hm) k'
    cases hr.symm.trans h
    exact ⟨_, hr', .failure⟩
  | some n =>
    obtain ⟨k₁, hr⟩ := spaced_eq_success hm k
    obtain ⟨k₁', hr'⟩ := spaced_eq_success (hs ▸ hm) k'
    cases hr.symm.trans h
    rw [← hs] at hr'
    have hpos := ht _ n hm
    have hn := t.matchLength?_le_length hm
    have hdrop := behindSpace_length_le ((behindSpace s).drop n)
    rw [List.length_drop] at hdrop
    have hlength := behindSpace_length_le s
    have hlength' := behindSpace_length_le s'
    rw [← hs] at hlength'
    have hrest : behindSpace ((behindSpace s).drop n) <:+ behindSpace s :=
      (behindSpace_suffix _).trans (List.drop_suffix n _)
    have hsuffix := hrest.trans (behindSpace_suffix s)
    have hsuffix' := hrest.trans (hs ▸ behindSpace_suffix s')
    exact ⟨_, hr', .success (.matched (byteLength_lt_of_suffix hsuffix (by omega))
      (byteLength_lt_of_suffix hsuffix' (by omega)) (behindSpace_behindSpace _))⟩

namespace Grammar

/-- A terminal of the grammar matches no empty text, and nothing in it looks at the text, at its
place or at the surroundings without matching a terminal. -/
def ReadsTokens : Grammar Regex.Program → Prop
  | terminal t => ∀ s n, t.matchLength? s = some n → 0 < n
  | bare _ | probe _ | terminals _ _ | span _ | window _ _ => False
  | _ => True

/-- Terminals skip the space in front of them, and nothing else in such a grammar looks at it. -/
theorem denote_ignoresSpace {resolve : Reference → Ambient κ → Parser κ Value}
    (hresolve : ∀ r, (resolve r (.spaceSkipped κ)).IgnoresSpace) {g : Grammar Regex.Program}
    (hg : g.Everywhere ReadsTokens) : (g.denote resolve (.spaceSkipped κ)).IgnoresSpace := by
  induction g using induct_children with
  | step g ih =>
    have hpart : ∀ q ∈ g.children, (q.denote resolve (.spaceSkipped κ)).IgnoresSpace :=
      fun q hq => ih q hq (hg.child hq)
    cases g with
    | terminal t =>
      rw [denote, Ambient.spaceSkipped_apply]
      exact (Terminal.spaced_ignoresSpace hg.here).map _
    | ref r => exact hresolve r
    | expect description p => exact (hpart p List.mem_cons_self).expect description
    | bare | probe | terminals | span | window => exact absurd hg.here id
    | _ =>
      refine denote_of_children ignoresSpace_composable ?_ hpart
      trivial

end Grammar

theorem Rules.resolve_ignoresSpace {rules : Rules} (hrules : rules.Everywhere Grammar.ReadsTokens)
    (depth : Nat) (r : Reference) : (rules.resolve depth r (.spaceSkipped κ)).IgnoresSpace := by
  induction depth generalizing r with
  | zero => exact nofun
  | succ depth ih =>
    rw [resolve]
    cases hfind : rules.find? r with
    | none => exact .fail
    | some g => exact Grammar.denote_ignoresSpace ih (hrules r g hfind)

namespace Grammar

variable {rules : Rules} {g : Grammar Regex.Program}
  {w : Option (Wrapper (Grammar Regex.Program))}

/-- Texts that only differ in the space in front of them are read alike. -/
theorem Replies.sameReading (hrules : rules.Everywhere ReadsTokens) (hg : g.Everywhere ReadsTokens)
    {s s' : Text} (hs : behindSpace s = behindSpace s') {k : κ} {r : Reply κ Value}
    (h : (terminals (.skip whitespace) g).Replies rules w k s r) (k' : κ) :
    ∃ r', (terminals (.skip whitespace) g).Replies rules w k' s' r' ∧ SameReading s s' r r' := by
  obtain ⟨depth, hr⟩ := h
  have hignores : (g.denote (rules.resolve depth) (.spaceSkipped κ)).IgnoresSpace :=
    denote_ignoresSpace (rules.resolve_ignoresSpace hrules depth) hg
  rw [parser, denote_terminals_skip] at hr
  obtain ⟨r', hr', hsame⟩ := @hignores k k' s s' r hs hr
  exact ⟨r', ⟨depth, hr'⟩, hsame⟩

/-- **White space at the front makes no difference.** With white space `u` in front of a text and
without it, the grammar answers or does not, it succeeds or fails, and it finds the same. Either
nothing is consumed in both cases, or what is left is the same proper end of the text and begins with
no white space. -/
theorem leading_space_is_irrelevant (hrules : rules.Everywhere ReadsTokens)
    (hg : g.Everywhere ReadsTokens) {u : Text} (hu : ∀ c ∈ u, isWhiteSpace c) (input : Text)
    (k k' : κ) :
    let document := terminals (.skip whitespace) g
    ((∃ r, document.Replies rules w k (u ++ input) r) ↔ ∃ r', document.Replies rules w k' input r') ∧
    ∀ r r', document.Replies rules w k (u ++ input) r → document.Replies rules w k' input r' →
      r.outcome.isSuccess = r'.outcome.isSuccess ∧ r.outcome.value? = r'.outcome.value? ∧
      (r.outcome.isSuccess →
        (r.outcome.rest = u ++ input ∧ r'.outcome.rest = input) ∨
        (r.outcome.rest = r'.outcome.rest ∧ r'.outcome.rest <:+ input ∧ r'.outcome.rest ≠ input ∧
          ∀ c ∈ r'.outcome.rest.head?, isWhiteSpace c = false)) := by
  intro document
  have hspace : behindSpace (u ++ input) = behindSpace input := behindSpace_append hu input
  refine ⟨⟨fun ⟨r, hr⟩ => ?_, fun ⟨r', hr'⟩ => ?_⟩, fun r r' hr hr' => ?_⟩
  · obtain ⟨r', hr', -⟩ := hr.sameReading hrules hg hspace k'
    exact ⟨r', hr'⟩
  · obtain ⟨r, hr, -⟩ := hr'.sameReading hrules hg hspace.symm k
    exact ⟨r, hr⟩
  · obtain ⟨r₁, hr₁, hsame⟩ := hr.sameReading hrules hg hspace k'
    obtain rfl := hr₁.unique hr'
    obtain ⟨depth, hd⟩ := hr₁
    have hsuffix := parser_leavesSuffix rules depth w document hd
    cases hsame with
    | failure => exact ⟨rfl, rfl, nofun⟩
    | success hrest =>
      refine ⟨rfl, rfl, fun _ => ?_⟩
      cases hrest with
      | idle => exact .inl ⟨rfl, rfl⟩
      | matched _ hlt hbehind =>
        exact .inr ⟨rfl, hsuffix, fun h => absurd (congrArg byteLength h) (Nat.ne_of_lt hlt),
          behindSpace_eq_self_iff.mp hbehind⟩

/-- A nested list with white space in front of it: the recursion passes the white space at the front,
and what stands behind the list is left. -/
theorem leading_space_is_irrelevant_of_list :
    let value : Grammar Regex.Program := choice [integer,
      between (literal ['[']) (literal [']']) (commaList (ref (.cell "value")))]
    let rules : Rules := ⟨[("value", value)], []⟩
    let document := terminals (.skip whitespace) (ref (.cell "value"))
    let u := " \n".toList
    let input := "[7, [] ] x".toList
    let found : Value := .list [.int 7, .list []]
    (rules.Everywhere ReadsTokens ∧ (ref (.cell "value")).Everywhere ReadsTokens ∧
      ∀ c ∈ u, isWhiteSpace c) ∧
    document.Replies rules none Location.start (u ++ input) ⟨.success found ['x'], ⟨3, 10⟩⟩ ∧
    ∃ r', document.Replies rules none Location.start input r' ∧
      r'.outcome.value? = some found ∧ r'.outcome.rest = ['x'] := by
  intro value rules document u input found
  have hvalue : value.Everywhere ReadsTokens := by
    have hdigits : ReadsTokens (terminal (.run Char.isDigit 1 none)) :=
      fun s n hn => Terminal.matchLength?_run_pos hn
    have hliteral : ∀ c, ReadsTokens (terminal (.literal [c])) :=
      fun c s n hn => Terminal.matchLength?_literal_pos (by simp) hn
    simp only [value, integer, commaList, literal, Everywhere.iff_children, children, List.Forall,
      hdigits, hliteral]
    simp [ReadsTokens]
  have hrules : rules.Everywhere ReadsTokens := by
    intro r body h
    cases r with
    | cell name =>
      simp only [Rules.find?, rules, Fields.find?, Option.ite_none_right_eq_some,
        Option.some.injEq] at h
      exact h.2 ▸ hvalue
    | definition name => cases h
  have hg : (ref (.cell "value") : Grammar Regex.Program).Everywhere ReadsTokens :=
    .intro trivial (List.forall_mem_nil _)
  have hu : ∀ c ∈ u, isWhiteSpace c := List.all_eq_true.mp rfl
  have hr : document.Replies rules none Location.start (u ++ input)
      ⟨.success found ['x'], ⟨3, 10⟩⟩ := by
    refine ⟨3, ?_⟩
    simp only [document, rules, value, u, input, found]
    cbv
  obtain ⟨hanswers, hsame⟩ := leading_space_is_irrelevant (w := none) hrules hg hu input
    Location.start Location.start
  obtain ⟨r', hr'⟩ := hanswers.mp ⟨_, hr⟩
  obtain ⟨-, hvalue', hrest⟩ := hsame _ r' hr hr'
  refine ⟨⟨hrules, hg, hu⟩, hr, r', hr', hvalue'.symm, ?_⟩
  rcases hrest rfl with ⟨hidle, -⟩ | ⟨hrest, -⟩
  · exact absurd hidle (by decide)
  · exact hrest.symm

end Grammar

end Descent
