import Descent.Proofs.Grammar.Definition
import Descent.Proofs.Session.Environment
import Mathlib.Tactic

/-!
# Lazy parsers and references

A lazy parser is built when it is used for the first time, and never again. It keeps its builds on a tally.
Only copies share a tally, so that the tally of a parser without copies tells the builds of that parser
alone (`Counted`). What the parser does is not touched by any of this.

References are transparent: a reference, a lazy parser for what it leads to, and the definition itself can
be put in each other's place, in grammars, in wrappers and in definitions.

* `Counted.effect`, `counted_run`: the tally of a lazy parser, step by step and for whole sessions.
* `Counted.parse`: a lazy parser that was run in an environment is built, and was built once.
* `references_are_transparent`: what may be put in the place of a reference.
-/

namespace Descent

namespace Session

variable {depth : Nat} {s s' : Session} {st : Step} {name : String} {p : LazyParser}

/-! ## Tallies -/

/-- Every lazy parser has a tally. -/
def Tallied (s : Session) : Prop :=
  ∀ n p, s.lazies.find? n = some p → p.tally < s.tallies.length

theorem Tallied.insert (h : s.Tallied) (name : String) {tallies : List Nat}
    (hlength : s.tallies.length ≤ tallies.length) (hp : p.tally < tallies.length) :
    { s with lazies := s.lazies.insert name p, tallies }.Tallied := by
  intro n q hq
  rw [Fields.find?_insert] at hq
  split at hq
  · cases hq
    exact hp
  · exact Nat.lt_of_lt_of_le (h n q hq) hlength

theorem Tallied.used (h : s.Tallied) (parser : String) : (s.used parser).Tallied := by
  rcases s.used_cases parser with hused | ⟨p, hfind, -, hused⟩
  · rwa [hused]
  · rw [hused]
    have hlength : s.tallies.length ≤ (s.tallies.set p.tally (s.tallies.getD p.tally 0 + 1)).length :=
      Nat.le_of_eq List.length_set.symm
    exact h.insert parser hlength (Nat.lt_of_lt_of_le (h parser p hfind) hlength)

/-- A lazy parser that a step adds gets a new tally or shares that of its source. -/
theorem Tallied.effect (h : s.Tallied) (heffect : Effect s st s') : s'.Tallied := by
  cases heffect with
  | parse e input l => exact h.used _
  | use huses => exact h.used _
  | @lazy name source g hbuild =>
    have hlength : (s.tallies ++ [0]).length = s.tallies.length + 1 := List.length_append
    refine h.insert name (p := ⟨g, false, s.tallies.length⟩) (by omega) ?_
    exact hlength ▸ Nat.lt_succ_self _
  | @copy name source p hsource => exact h.insert name (Nat.le_refl _) (h source p hsource)
  | _ => exact h

theorem Tallied.run (h : s.Tallied) (depth : Nat) (steps : List Step) :
    (s.run depth steps).1.Tallied := by
  induction steps generalizing s with
  | nil => exact h
  | cons st steps ih => exact ih (h.effect (s.step_effect depth st))

/-! ## A lazy parser without copies -/

/-- The name stands for the lazy parser `p`, which has a tally of its own. The tally tells whether the
parser has been built. -/
structure Counted (s : Session) (name : String) (p : LazyParser) : Prop where
  handle : s.handles.find? name = some .lazy
  found : s.lazies.find? name = some p
  tallied : p.tally < s.tallies.length
  apart : ∀ n q, n ≠ name → s.lazies.find? n = some q → q.tally ≠ p.tally
  builds : s.tallies.getD p.tally 0 = p.built.toNat

namespace Counted

theorem grammar? (h : s.Counted name p) : s.grammar? name = some p.grammar := by
  unfold Session.grammar?
  rw [h.handle]
  exact congrArg (Option.map (·.grammar)) h.found

theorem answer (h : s.Counted name p) :
    (s.step depth (.lazyState name)).2 = .lazyState p.built p.built.toNat := by
  simp only [step, h.found, h.builds]

theorem start (h : s.Tallied) (depth : Nat) {source : Grammar PatternSource} {g : Grammar Regex.Program}
    (hbuild : source.build = .ok g) :
    (s.step depth (.lazy name source)).1.Counted name ⟨g, false, s.tallies.length⟩ := by
  simp only [step, withGrammar, hbuild]
  refine ⟨?_, ?_, ?_, fun n q hn hq => ?_, ?_⟩
  · show (s.handles.insert name .lazy).find? name = _
    rw [Fields.find?_insert, if_pos rfl]
  · show (s.lazies.insert name _).find? name = _
    rw [Fields.find?_insert, if_pos rfl]
  · show s.tallies.length < (s.tallies ++ [0]).length
    rw [List.length_append]
    exact Nat.lt_succ_self _
  · -- the tallies of the other parsers were there before
    have hold : s.lazies.find? n = some q := (Fields.find?_insert_of_ne hn).symm.trans hq
    exact Nat.ne_of_lt (h n q hold)
  · show (s.tallies ++ [0]).getD s.tallies.length 0 = 0
    rw [getD_append_zero, List.getD_eq_getElem?_getD, List.getElem?_eq_none (Nat.le_refl _)]
    rfl

/-- The parser counts as before when another name is given to a lazy parser with another tally. -/
theorem insert (h : s.Counted name p) {n : String} (hn : n ≠ name) {q : LazyParser}
    (hq : q.tally ≠ p.tally) {handles : Fields Handle} (hhandle : handles.find? name = some .lazy)
    {tallies : List Nat} (hlength : s.tallies.length ≤ tallies.length)
    (htally : tallies.getD p.tally 0 = s.tallies.getD p.tally 0) :
    { s with handles, lazies := s.lazies.insert n q, tallies }.Counted name p := by
  refine ⟨hhandle, ?_, Nat.lt_of_lt_of_le h.tallied hlength, fun m r hm hr => ?_, htally.trans h.builds⟩
  · exact (Fields.find?_insert_of_ne (Ne.symm hn)).trans h.found
  · rw [Fields.find?_insert] at hr
    split at hr
    · cases hr
      exact hq
    · exact h.apart m r hm hr

/-- To use the parser builds it, unless it has been built. -/
theorem used_self (h : s.Counted name p) : (s.used name).Counted name { p with built := true } := by
  have hused : s.used name = s.build name p := by
    unfold used
    rw [h.handle, h.found]
  rw [hused, build]
  obtain ⟨grammar, built, tally⟩ := p
  cases built with
  | true => exact h
  | false =>
    refine ⟨h.handle, ?_, ?_, fun n q hn hq => ?_, ?_⟩
    · exact (Fields.find?_insert ..).trans (if_pos rfl)
    · exact Nat.lt_of_lt_of_eq h.tallied List.length_set.symm
    · exact h.apart n q hn ((Fields.find?_insert_of_ne hn).symm.trans hq)
    · have hbuilds : s.tallies.getD tally 0 = 0 := h.builds
      show (s.tallies.set tally (s.tallies.getD tally 0 + 1)).getD tally 0 = 1
      rw [hbuilds, List.getD_eq_getElem?_getD, List.getElem?_set_self h.tallied]
      rfl

theorem used (h : s.Counted name p) (parser : String) : ∃ q, (s.used parser).Counted name q := by
  by_cases hname : parser = name
  · subst hname
    exact ⟨_, h.used_self⟩
  · rcases s.used_cases parser with hused | ⟨q, hfind, -, hused⟩
    · rw [hused]
      exact ⟨p, h⟩
    · rw [hused]
      have hapart : q.tally ≠ p.tally := h.apart parser q hname hfind
      refine ⟨p, h.insert hname (q := { q with built := true }) hapart h.handle
        (Nat.le_of_eq List.length_set.symm) ?_⟩
      rw [List.getD_eq_getElem?_getD, List.getElem?_set_ne hapart, List.getD_eq_getElem?_getD]

theorem effect (h : s.Counted name p) (heffect : Effect s st s') (hname : st.namesParser? ≠ some name)
    (hcopy : ∀ n, st ≠ .cloneLazy n name) : ∃ q, s'.Counted name q := by
  cases heffect with
  | parse e input l =>
    obtain ⟨q, hq⟩ := h.used _
    exact ⟨q, hq.handle, hq.found, hq.tallied, hq.apart, hq.builds⟩
  | use huses => exact h.used _
  | @handle _ n other hnames =>
    have hne : name ≠ n := fun heq => hname (heq ▸ hnames)
    have hhandle : (s.handles.insert n other).find? name = some .lazy :=
      (Fields.find?_insert_of_ne hne).trans h.handle
    exact ⟨p, hhandle, h.found, h.tallied, h.apart, h.builds⟩
  | @lazy n source g hbuild =>
    have hne : name ≠ n := fun heq => hname (heq ▸ rfl)
    have hlength : s.tallies.length ≤ (s.tallies ++ [0]).length := by
      rw [List.length_append]
      exact Nat.le_add_right _ _
    refine ⟨p, h.insert (Ne.symm hne) ?_ ((Fields.find?_insert_of_ne hne).trans h.handle) hlength
      (getD_append_zero _ _)⟩
    exact Nat.ne_of_gt h.tallied
  | @copy n source q hsource =>
    have hne : name ≠ n := fun heq => hname (heq ▸ rfl)
    have hsourceNe : source ≠ name := fun heq => hcopy n (heq ▸ rfl)
    exact ⟨p, h.insert (Ne.symm hne) (h.apart source q hsourceNe hsource)
      ((Fields.find?_insert_of_ne hne).trans h.handle) (Nat.le_refl _) rfl⟩
  | _ => exact ⟨p, h.handle, h.found, h.tallied, h.apart, h.builds⟩

theorem run (h : s.Counted name p) (depth : Nat) {steps : List Step}
    (hnames : ∀ st ∈ steps, st.namesParser? ≠ some name)
    (hcopies : ∀ st ∈ steps, ∀ n, st ≠ .cloneLazy n name) :
    ∃ q, (s.run depth steps).1.Counted name q := by
  induction steps generalizing s p with
  | nil => exact ⟨p, h⟩
  | cons st steps ih =>
    rw [List.forall_mem_cons] at hnames hcopies
    obtain ⟨q, hq⟩ := h.effect (s.step_effect depth st) hnames.1 hcopies.1
    exact ih hq hnames.2 hcopies.2

/-- A lazy parser that was run in an environment is built, however the run ends. -/
theorem parse (h : s.Counted name p) {env : String} {l : Location}
    {w : Option (Wrapper (Grammar Regex.Program))} (henv : s.Shows env l w) (depth : Nat)
    (input : Text) :
    (s.step depth (.parse name env input)).1.Counted name { p with built := true } := by
  obtain ⟨e, he, -, -⟩ := henv
  simp only [step, withEnv, he, runParser_eq, h.grammar?]
  have hused := h.used_self
  cases p.grammar.parser s.rules depth e.wrapper (s.location e) input with
  | none => exact hused
  | some r => exact ⟨hused.handle, hused.found, hused.tallied, hused.apart, hused.builds⟩

end Counted

/-- A lazy parser keeps its tally for itself as long as it is not copied. -/
theorem counted_run (depth : Nat) (rules : Rules) (before : List Step) {more : List Step}
    {source : Grammar PatternSource} {g : Grammar Regex.Program} (hbuild : source.build = .ok g)
    (hnames : ∀ st ∈ more, st.namesParser? ≠ some name)
    (hcopies : ∀ st ∈ more, ∀ n, st ≠ .cloneLazy n name) :
    ∃ p, (run depth { rules } (before ++ .lazy name source :: more)).1.Counted name p := by
  have hempty : Tallied { rules } := nofun
  rw [run_append]
  exact (Counted.start (hempty.run depth before) depth hbuild).run depth hnames hcopies

/-! ## References -/

theorem grammar?_named {make : Step} {source : Grammar PatternSource} {g : Grammar Regex.Program}
    (hmake : make = .parser name source ∨ make = .lazy name source) (hbuild : source.build = .ok g) :
    (s.step depth make).1.grammar? name = some g := by
  rcases hmake with rfl | rfl
  · simp only [step, withGrammar, hbuild, addHandle, Session.grammar?, Fields.find?_insert, if_pos]
  · simp only [step, withGrammar, hbuild, addLazy, addHandle, Session.grammar?, Fields.find?_insert, if_pos,
      Option.map_some]

/-- **References are transparent.** Take definitions `defs`, a grammar `g` and a wrapper `w` that can all be
built. In each of them let any references to cells be replaced, by references to definitions or by the
bodies of definitions, and let the definitions stand in another order. The results can be built, and at
every location and for every text the grammar gives an answer if and only if it did before: the same
outcome, at the same location. A parser of a session does the same, no matter what else happened in the
session: the first time that it is run, and every time after that. If it is a lazy one without copies, it is
built once, when it is run for the first time. -/
theorem references_are_transparent {defs defs' : List (String × Grammar PatternSource)} {rules : Rules}
    {g g' : Grammar PatternSource} {h : Grammar Regex.Program}
    {w w' : Option (Wrapper (Grammar PatternSource))} {v : Option (Wrapper (Grammar Regex.Program))}
    (hrules : Rules.ofDefinitions defs = .ok rules) (hdefs : Rules.Exchanged defs defs')
    (hg : g.build = .ok h) (hw : w.mapM Grammar.buildWrapper = .ok v)
    (hunfolds : Grammar.Unfolds (Fields.find? · defs) (g.under w) (g'.under w')) :
    ∃ rules' h' v', (Rules.ofDefinitions defs' = .ok rules' ∧ g'.build = .ok h' ∧
        w'.mapM Grammar.buildWrapper = .ok v') ∧
      (∀ (l : Location) input r, h.Replies rules v l input r ↔ h'.Replies rules' v' l input r) ∧
      ∀ depth rules₀ before name make more,
        (make = .parser name g' ∨ make = .lazy name g') →
        (∀ st ∈ more, st.namesParser? ≠ some name) →
        let s := (run depth { rules := rules₀ } (before ++ make :: more)).1
        s.rules = rules' → ∀ e l, s.Shows e l v' →
          (∀ input r, (∃ d, (s.step d (.parse name e input)).2 = .parsed r) ↔
            h.Replies rules v l input r) ∧
          (make = .lazy name g' → (∀ st ∈ more, ∀ n, st ≠ .cloneLazy n name) →
            (∃ built, (s.step depth (.lazyState name)).2 = .lazyState built built.toNat) ∧
            ∀ d input, ((s.step d (.parse name e input)).1.step depth (.lazyState name)).2 =
              .lazyState true 1) := by
  obtain ⟨rules', N, hrules', hexchanged⟩ := hdefs.build hrules
  obtain ⟨n, hwithin⟩ := hunfolds
  obtain ⟨cells, hbuilt, -, rfl⟩ := Rules.ofDefinitions_eq_ok_iff.mp hrules
  obtain ⟨b', hb', hbuiltWithin⟩ := hwithin.build (fun x b => hbuilt.find?)
    (Grammar.build_under_eq_ok_iff.mpr ⟨h, v, hg, hw, rfl⟩)
  obtain ⟨h', v', hg', hw', rfl⟩ := Grammar.build_under_eq_ok_iff.mp hb'
  have hreplies : ∀ (l : Location) input r, h.Replies ⟨cells, cells⟩ v l input r ↔
      h'.Replies rules' v' l input r :=
    fun l input r => Grammar.replies_iff_of_unfolds hexchanged hbuiltWithin
  refine ⟨rules', h', v', ⟨hrules', hg', hw'⟩, hreplies, ?_⟩
  intro depth rules₀ before name make more hmake hnames s hs e l henv
  have hgrammar : s.grammar? name = some h' := by
    show (run depth { rules := rules₀ } (before ++ make :: more)).1.grammar? name = some h'
    rw [run_append]
    exact (grammar?_run depth hnames).trans (grammar?_named hmake hg')
  refine ⟨fun input r => ?_, ?_⟩
  · rw [exists_parsed_iff hgrammar henv, hs]
    exact (hreplies l input r).symm
  · rintro rfl hcopies
    obtain ⟨p, hcounted⟩ := counted_run depth rules₀ before hg' hnames hcopies
    exact ⟨⟨p.built, hcounted.answer⟩, fun d input => (hcounted.parse henv d input).answer⟩

/-- Brackets around a letter. Of two references to them, the first becomes a reference to the definition and
the second one the definition itself; the reference inside of it and the one in the wrapper are replaced,
too. The lazy parser of the result, when it is run for the second time, does what the grammar did. -/
theorem references_are_transparent_of_brackets :
    let nest (inner : Grammar PatternSource) : Grammar PatternSource :=
      .choice [.seq [.literal ['('], inner, .literal [')']], .literal ['a']]
    let defs := [("x", nest (.ref (.cell "x"))), ("blank", .whitespace)]
    let defs' := [("blank", .whitespace), ("x", nest (.ref (.definition "x")))]
    let g : Grammar PatternSource := .seq [.ref (.cell "x"), .ref (.cell "x")]
    let g' : Grammar PatternSource := .seq [.ref (.definition "x"), nest (.ref (.cell "x"))]
    let w : Wrapper (Grammar PatternSource) := .skip (.ref (.cell "blank"))
    let w' : Wrapper (Grammar PatternSource) := .skip .whitespace
    let input : Text := ['a', ' ', '(', 'a', ')']
    let reply : Reply Location Value :=
      ⟨.success (.list [.str ['a'], .list [.str ['('], .str ['a'], .str [')']]]) [], ⟨1, 6⟩⟩
    ∃ rules rules' h v, (Rules.ofDefinitions defs = .ok rules ∧ Rules.ofDefinitions defs' = .ok rules' ∧
        g.build = .ok h ∧ Grammar.buildWrapper w = .ok v) ∧
      let s := (run 9 { rules := rules' } [.newEnv "e" .start, .wrapEnv "e" "e" w', .lazy "p" g',
        .parse "p" "e" ['b']]).1
      (∀ r, ((∃ d, (s.step d (.parse "p" "e" input)).2 = .parsed r) ↔
          h.Replies rules (some v) .start input r) ∧
        (h.Replies rules (some v) .start input r ↔ r = reply)) ∧
      ((s.step 9 (.parse "p" "e" input)).1.step 9 (.lazyState "p")).2 = .lazyState true 1 := by
  intro nest defs defs' g g' w w' input reply
  have hblank : Grammar.StandsFor (Fields.find? · defs) 1 (.cell "blank") .whitespace :=
    @Grammar.StandsFor.unfolded _ _ 0 "blank" .whitespace (fun m => m) .ref rfl (.itself 0)
  have hbody : Grammar.StandsFor (Fields.find? · defs) 1 (.cell "x") (nest (.ref (.cell "x"))) :=
    @Grammar.StandsFor.unfolded _ _ 0 "x" (nest (.ref (.cell "x"))) (fun m => m) .ref rfl (.itself 0)
  have hdeferred : Grammar.StandsFor (Fields.find? · defs) 1 (.cell "x") (.ref (.definition "x")) :=
    .deferred 1 rfl
  have hdefs : Rules.Exchanged defs defs' := by
    refine ⟨[("x", nest (.ref (.definition "x"))), ("blank", .whitespace)], ?_, .swap _ _ _⟩
    refine .cons ⟨rfl, 1, ?_⟩ (.cons ⟨rfl, 1, ?_⟩ .nil)
    · exact ⟨nest (.ref (.cell "inner")), fun _ => .cell "x", fun _ => .ref (.definition "x"), rfl, rfl,
        fun _ => hdeferred⟩
    · exact ⟨.whitespace, fun m => m, .ref, rfl, rfl, .itself 1⟩
  have hunfolds : Grammar.Unfolds (Fields.find? · defs) (g.under (some w)) (g'.under (some w')) := by
    refine ⟨1, .terminals (.skip (.ref (.cell "around")))
        (.seq [.ref (.cell "first"), .ref (.cell "second")]),
      fun m => if m = .cell "around" then .cell "blank" else .cell "x",
      fun m => if m = .cell "around" then .whitespace
        else if m = .cell "first" then .ref (.definition "x") else nest (.ref (.cell "x")), rfl, rfl, ?_⟩
    intro m
    dsimp only
    split
    · exact hblank
    · split
      · exact hdeferred
      · exact hbody
  have hrules : Rules.ofDefinitions defs = .ok _ := rfl
  have hg : g.build = .ok _ := rfl
  have hw : (some w).mapM Grammar.buildWrapper = .ok (some (.skip (.ref (.cell "blank")))) := rfl
  obtain ⟨rules', h', v', ⟨hrules', hg', hw'⟩, -, hsession⟩ :=
    references_are_transparent hrules hdefs hg hw hunfolds
  cases hrules'
  cases hw'
  refine ⟨_, _, _, _, ⟨hrules, rfl, hg, rfl⟩, ?_⟩
  intro s
  have henv : s.Shows "e" .start (some (.skip .whitespace)) := by
    refine ⟨⟨0, some (.skip .whitespace)⟩, ?_, by decide +kernel, rfl⟩
    simp only [s, w', g', nest]
    cbv
  obtain ⟨hparse, hlazy⟩ := hsession 9 _ [.newEnv "e" .start, .wrapEnv "e" "e" w'] "p" (.lazy "p" g')
    [.parse "p" "e" ['b']] (.inr rfl) (by simp [Step.namesParser?]) (by cbv) "e" .start henv
  refine ⟨fun r => ⟨hparse input r, Grammar.Replies.iff_eq ⟨9, ?_⟩⟩, (hlazy rfl (by simp)).2 9 input⟩
  simp only [input, reply]
  cbv

end Session

end Descent
