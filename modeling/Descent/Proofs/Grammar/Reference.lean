import Descent.Proofs.Grammar.Unrolling

/-!
# References and what they lead to

A reference may be exchanged for what it leads to, here and there or everywhere, in a grammar and in the
rules themselves, without a change to what the grammar does. To say which occurrences are exchanged, every
occurrence of a reference gets a mark of its own: the two grammars come from one in which marks stand in
the place of references, and differ in what is put in for the marks (`Unfolds`).

How deeply references are nested does change, so that answers cannot be compared depth by depth. The
grammar with bodies put in needs no more depth than the one it was made from. The other way round, the
bodies that were put in cost depth again: where they are nested `n` deep, and `N` deep in the rules, `d`
references in a row become `d * (N + 1) + n` of them.

* `denote_subst_follows`, `follows_denote_subst`: to replace references in a grammar, seen from either side.
* `replies_ref_iff`, `replies_ref_of_none`: a single reference.
* `replies_fill_iff`: one cell, with what it holds put in for it.
* `StandsFor.resolve_follows`, `StandsFor.follows_resolve_of_kept`: a reference and what stands for it.
* `replies_iff_of_unfolds`: a grammar, its rules, and both of them with references exchanged.
-/

namespace Descent

namespace Grammar

variable {ρ : Type}

/-! ## Replacing references -/

section Substitution

variable {κ : Type} [Clock κ] {σ : Reference → Grammar Regex.Program}
  {resolve resolve' : Reference → Ambient κ → Parser κ Value}

/-- If what is put in place of each reference answers whenever the reference does, and alike, then so
does the grammar as a whole. -/
theorem denote_subst_follows
    (hσ : ∀ r a a', Ambient.Follows (Link.exact κ) a a' →
      (Link.exact κ).Values (resolve r a) ((σ r).denote resolve' a'))
    (g : Grammar Regex.Program) {a a' : Ambient κ} (ha : Ambient.Follows (Link.exact κ) a a') :
    (Link.exact κ).Values (g.denote resolve a) ((g.subst σ).denote resolve' a') := by
  rw [denote_subst]
  exact g.denote_follows hσ (everywhere_admits Link.exact_admits g) a a' ha

/-- If each reference answers whenever what is put in its place does, then so does the grammar that
still has its references. -/
theorem follows_denote_subst
    (hσ : ∀ r a a', Ambient.Follows (Link.exact κ) a a' →
      (Link.exact κ).Values ((σ r).denote resolve a) (resolve' r a'))
    (g : Grammar Regex.Program) {a a' : Ambient κ} (ha : Ambient.Follows (Link.exact κ) a a') :
    (Link.exact κ).Values ((g.subst σ).denote resolve a) (g.denote resolve' a') := by
  rw [denote_subst]
  exact g.denote_follows hσ (everywhere_admits Link.exact_admits g) a a' ha

end Substitution

end Grammar

/-- More depth gives more answers and changes none. -/
theorem Rules.resolve_mono {κ : Type} [Clock κ] (rules : Rules) {depth depth' : Nat}
    (hdepth : depth ≤ depth') :
    ∀ r a a', Ambient.Follows (Link.exact κ) a a' →
      (Link.exact κ).Values (rules.resolve depth r a) (rules.resolve depth' r a') :=
  resolve_follows (fun _ g _ => Grammar.everywhere_admits Link.exact_admits g) hdepth

/-- A wrapper whose references may be nested more deeply treats terminals alike. -/
theorem Rules.ambient_mono {κ : Type} [Clock κ] (rules : Rules) {depth depth' : Nat}
    (hdepth : depth ≤ depth') (w : Option (Wrapper (Grammar Regex.Program))) :
    Ambient.Follows (Link.exact κ) (rules.ambient depth w) (rules.ambient depth' w) := by
  cases w with
  | none => exact .none
  | some w =>
    refine ⟨rfl, fun t => Grammar.denoteWrapper_follows ?_ t.parser_follows⟩
    cases w with
    | skip ignored =>
      exact ignored.denote_follows (rules.resolve_mono hdepth)
        (Grammar.everywhere_admits Link.exact_admits ignored) none none .none
    | _ => trivial

namespace Grammar

/-! ## One reference -/

section Reference

variable {κ : Type} [Clock κ] {rules : Rules} {r : Reference}
  {w : Option (Wrapper (Grammar Regex.Program))} {k : κ} {s : Text} {reply : Reply κ Value}

/-- A reference does what the grammar does that it leads to. -/
theorem replies_ref_iff {g : Grammar Regex.Program} (hfind : rules.find? r = some g) :
    (ref r).Replies rules w k s reply ↔ g.Replies rules w k s reply := by
  have hresolve : ∀ depth (a : Ambient κ),
      rules.resolve (depth + 1) r a = g.denote (rules.resolve depth) a := by
    intro depth a
    rw [Rules.resolve, hfind]
  constructor
  · rintro ⟨depth, h⟩
    cases depth with
    | zero => cases h
    | succ depth =>
      have h' : g.denote (rules.resolve depth) (rules.ambient (depth + 1) w) k s = some reply := by
        rw [← hresolve]
        exact h
      exact ⟨depth + 1, (g.denote_follows (rules.resolve_mono (Nat.le_succ depth))
        (everywhere_admits Link.exact_admits g) _ _
        (rules.ambient_mono (Nat.le_refl _) w)).eq_of_exact h'⟩
  · rintro ⟨depth, h⟩
    refine ⟨depth + 1, ?_⟩
    show rules.resolve (depth + 1) r (rules.ambient (depth + 1) w) k s = some reply
    rw [hresolve]
    exact (g.denote_follows (rules.resolve_mono (Nat.le_refl depth))
      (everywhere_admits Link.exact_admits g) _ _
      (rules.ambient_mono (Nat.le_succ depth) w)).eq_of_exact h

/-- A reference that leads nowhere fails at once. -/
theorem replies_ref_of_none (hfind : rules.find? r = none) :
    (ref r).Replies rules w k s reply ↔ reply = ⟨.failure s none, k⟩ := by
  have hresolve : ∀ depth (a : Ambient κ), rules.resolve (depth + 1) r a = Parser.fail := by
    intro depth a
    rw [Rules.resolve, hfind]
  constructor
  · rintro ⟨depth, h⟩
    cases depth with
    | zero => cases h
    | succ depth =>
      have h' : Parser.fail k s = some reply := by
        rw [← hresolve depth (rules.ambient (depth + 1) w)]
        exact h
      cases h'
      rfl
  · rintro rfl
    refine ⟨1, ?_⟩
    show rules.resolve 1 r (rules.ambient 1 w) k s = _
    rw [hresolve]
    rfl

end Reference

/-! ## One cell -/

/-- The grammar with `body?` put in for the cell of the name `x`. An empty cell always fails. -/
def fill (x : String) (body? : Option (Grammar Regex.Program)) (g : Grammar Regex.Program) :
    Grammar Regex.Program :=
  g.subst fun r => if r = .cell x then body?.getD (choice []) else ref r

/-- A reference to a cell can be replaced with what the cell holds, and with a failure if it holds
nothing. -/
theorem replies_fill_iff {κ : Type} [Clock κ] (rules : Rules) (x : String) (g : Grammar Regex.Program)
    {k : κ} {s : Text} {r : Reply κ Value} :
    g.Replies rules none k s r ↔ (g.fill x (rules.cells.find? x)).Replies rules none k s r := by
  constructor
  · rintro ⟨depth, h⟩
    refine ⟨depth, (denote_subst_follows ?_ g .none).eq_of_exact h⟩
    intro q a a' ha
    by_cases hq : q = .cell x
    · subst hq
      rw [if_pos rfl]
      cases depth with
      | zero => exact fun k k' s r hk hr => nomatch hr
      | succ depth =>
        rw [Rules.resolve, Rules.find?]
        cases rules.cells.find? x with
        | none => exact .fail
        | some body =>
          exact body.denote_follows (rules.resolve_mono (Nat.le_succ depth))
            (everywhere_admits Link.exact_admits body) a a' ha
    · rw [if_neg hq]
      exact rules.resolve_mono (Nat.le_refl depth) q a a' ha
  · rintro ⟨depth, h⟩
    refine ⟨depth + 1, (follows_denote_subst ?_ g .none).eq_of_exact h⟩
    intro q a a' ha
    by_cases hq : q = .cell x
    · subst hq
      rw [if_pos rfl, Rules.resolve, Rules.find?]
      cases rules.cells.find? x with
      | none => exact .fail
      | some body =>
        exact body.denote_follows (rules.resolve_mono (Nat.le_refl depth))
          (everywhere_admits Link.exact_admits body) a a' ha
    · rw [if_neg hq]
      exact rules.resolve_mono (Nat.le_succ depth) q a a' ha

/-! ## Marked occurrences -/

/-- The grammar may stand in the place of the reference: it is the reference itself, the definition of a
name instead of its cell, or the body that is defined under the name. In the body references may have been
replaced again, and so on, with bodies put in `n` deep. -/
inductive StandsFor (body? : String → Option (Grammar ρ)) : Nat → Reference → Grammar ρ → Prop
  | itself (n : Nat) (r : Reference) : StandsFor body? n r (ref r)
  | deferred {x : String} {b : Grammar ρ} (n : Nat) : body? x = some b →
      StandsFor body? n (.cell x) (ref (.definition x))
  | unfolded {n : Nat} {x : String} {marked : Grammar ρ} {occurrence : Reference → Reference}
      {σ : Reference → Grammar ρ} :
      body? x = some (marked.subst fun m => ref (occurrence m)) →
      (∀ m, StandsFor body? n (occurrence m) (σ m)) →
      StandsFor body? (n + 1) (.cell x) (marked.subst σ)

/-- `g'` is `g` with some occurrences of references replaced, with bodies put in `n` deep. In `marked`
every occurrence has a mark; `occurrence` tells which reference it is, and `σ` what stands there now. -/
def UnfoldsWithin (body? : String → Option (Grammar ρ)) (n : Nat) (g g' : Grammar ρ) : Prop :=
  ∃ (marked : Grammar ρ) (occurrence : Reference → Reference) (σ : Reference → Grammar ρ),
    g = marked.subst (fun m => ref (occurrence m)) ∧ g' = marked.subst σ ∧
      ∀ m, StandsFor body? n (occurrence m) (σ m)

/-- `g'` is `g` with some occurrences of references replaced. -/
def Unfolds (body? : String → Option (Grammar ρ)) (g g' : Grammar ρ) : Prop :=
  ∃ n, UnfoldsWithin body? n g g'

theorem StandsFor.mono {body? : String → Option (Grammar ρ)} {n m : Nat} {r : Reference} {g : Grammar ρ}
    (h : StandsFor body? n r g) (hnm : n ≤ m) : StandsFor body? m r g := by
  induction h generalizing m with
  | itself n r => exact .itself m r
  | deferred n hx => exact .deferred m hx
  | unfolded hx _ ih =>
    obtain ⟨m, rfl⟩ : ∃ k, m = k + 1 := ⟨m - 1, by omega⟩
    exact .unfolded hx fun q => ih q (by omega)

theorem UnfoldsWithin.mono {body? : String → Option (Grammar ρ)} {n m : Nat} {g g' : Grammar ρ}
    (h : UnfoldsWithin body? n g g') (hnm : n ≤ m) : UnfoldsWithin body? m g g' := by
  obtain ⟨marked, occurrence, σ, hg, hg', hσ⟩ := h
  exact ⟨marked, occurrence, σ, hg, hg', fun q => (hσ q).mono hnm⟩

end Grammar

/-! ## Rules with references exchanged -/

/-- The cells of two sets of rules hold the same grammars, up to references that are replaced in the
second one, with bodies put in `n` deep. Definitions are what cells hold. -/
structure Rules.Unfolds (n : Nat) (rules rules' : Rules) : Prop where
  cells : ∀ x, Option.Rel (Grammar.UnfoldsWithin (rules.cells.find? ·) n) (rules.cells.find? x)
    (rules'.cells.find? x)
  definitions : rules.definitions = rules.cells
  definitions' : rules'.definitions = rules'.cells

variable {κ : Type} [Clock κ] {rules rules' : Rules} {N : Nat}

theorem Rules.Unfolds.find? (h : rules.Unfolds N rules') (r : Reference) :
    (rules.find? r = none ∧ rules'.find? r = none) ∨
    ∃ b b', rules.find? r = some b ∧ rules'.find? r = some b' ∧
      Grammar.UnfoldsWithin (rules.cells.find? ·) N b b' := by
  have hrel : Option.Rel (Grammar.UnfoldsWithin (rules.cells.find? ·) N) (rules.find? r)
      (rules'.find? r) := by
    cases r with
    | cell x => exact h.cells x
    | definition x =>
      show Option.Rel _ (rules.definitions.find? x) (rules'.definitions.find? x)
      rw [h.definitions, h.definitions']
      exact h.cells x
  generalize rules.find? r = o, rules'.find? r = o' at hrel
  cases hrel with
  | none => exact .inl ⟨rfl, rfl⟩
  | some hbody => exact .inr ⟨_, _, rfl, rfl, hbody⟩

namespace Grammar

section Denote

variable {body? : String → Option (Grammar Regex.Program)} {n : Nat} {g g' : Grammar Regex.Program}
  {resolve resolve' : Reference → Ambient κ → Parser κ Value} {a a' : Ambient κ}

/-- A grammar with unfolded references answers whenever the one without does. -/
theorem UnfoldsWithin.denote_follows (h : UnfoldsWithin body? n g g')
    (hstands : ∀ r q, StandsFor body? n r q → ∀ a a', Ambient.Follows (Link.exact κ) a a' →
      (Link.exact κ).Values (resolve r a) (q.denote resolve' a'))
    (ha : Ambient.Follows (Link.exact κ) a a') :
    (Link.exact κ).Values (g.denote resolve a) (g'.denote resolve' a') := by
  obtain ⟨marked, occurrence, σ, rfl, rfl, hσ⟩ := h
  rw [denote_subst]
  exact denote_subst_follows (fun m => hstands (occurrence m) (σ m) (hσ m)) marked ha

theorem UnfoldsWithin.follows_denote (h : UnfoldsWithin body? n g g')
    (hstands : ∀ r q, StandsFor body? n r q → ∀ a a', Ambient.Follows (Link.exact κ) a a' →
      (Link.exact κ).Values (q.denote resolve a) (resolve' r a'))
    (ha : Ambient.Follows (Link.exact κ) a a') :
    (Link.exact κ).Values (g'.denote resolve a) (g.denote resolve' a') := by
  obtain ⟨marked, occurrence, σ, rfl, rfl, hσ⟩ := h
  rw [denote_subst marked a']
  exact follows_denote_subst (fun m => hstands (occurrence m) (σ m) (hσ m)) marked ha

end Denote

/-- A reference to a cell and one to the definition of the same name lead to the same. -/
theorem resolve_definition (hrules : rules.definitions = rules.cells) (d : Nat) (x : String)
    (a : Ambient κ) : rules.resolve d (.definition x) a = rules.resolve d (.cell x) a := by
  cases d with
  | zero => rfl
  | succ d => rw [Rules.resolve, Rules.resolve, Rules.find?, Rules.find?, hrules]

/-- A reference is followed by what stands for it, which needs no more depth. The induction is on the
depth: a body is entered with less of it, and then what stands in the body is looked at. -/
theorem StandsFor.resolve_follows (hrules : rules.Unfolds N rules') {n d d' : Nat} (hd : d ≤ d')
    {r : Reference} {g : Grammar Regex.Program} (h : StandsFor (rules.cells.find? ·) n r g)
    {a a' : Ambient κ} (ha : Ambient.Follows (Link.exact κ) a a') :
    (Link.exact κ).Values (rules.resolve d r a) (g.denote (rules'.resolve d') a') := by
  induction d generalizing d' n r g a a' with
  | zero => exact fun k k' s r hk hr => nomatch hr
  | succ d ih =>
    obtain ⟨d', rfl⟩ : ∃ k, d' = k + 1 := ⟨d' - 1, by omega⟩
    have hkept : ∀ q, (Link.exact κ).Values (rules.resolve (d + 1) q a)
        (rules'.resolve (d' + 1) q a') := by
      intro q
      rw [Rules.resolve, Rules.resolve]
      rcases hrules.find? q with ⟨hnone, hnone'⟩ | ⟨b, b', hb, hb', hbody⟩
      · rw [hnone, hnone']
        exact .fail
      · rw [hb, hb']
        exact hbody.denote_follows (fun _ _ hq _ _ => ih (by omega) hq) ha
    cases h with
    | itself => exact hkept r
    | @deferred x b _ hx =>
      rw [← resolve_definition hrules.definitions]
      exact hkept (.definition x)
    | @unfolded n x marked occurrence σ hx hσ =>
      have hbody : rules.find? (.cell x) = some (marked.subst fun m => ref (occurrence m)) := hx
      have hunfolds : UnfoldsWithin (rules.cells.find? ·) n _ (marked.subst σ) :=
        ⟨marked, occurrence, σ, rfl, rfl, hσ⟩
      rw [Rules.resolve, hbody]
      exact hunfolds.denote_follows (fun _ _ hq _ _ => ih (by omega) hq) ha

/-- What stands for a reference is followed by the reference, with one more level of depth for every body
that was put in, if this is so without any for the references that were kept. -/
theorem StandsFor.follows_resolve_of_kept (hrules : rules.definitions = rules.cells) {n d kept e : Nat}
    (hkept : ∀ q e, kept ≤ e → ∀ a a', Ambient.Follows (Link.exact κ) a a' →
      (Link.exact κ).Values (rules'.resolve d q a) (rules.resolve e q a'))
    {r : Reference} {g : Grammar Regex.Program} (h : StandsFor (rules.cells.find? ·) n r g)
    (he : kept + n ≤ e) {a a' : Ambient κ} (ha : Ambient.Follows (Link.exact κ) a a') :
    (Link.exact κ).Values (g.denote (rules'.resolve d) a) (rules.resolve e r a') := by
  induction h generalizing e a a' with
  | itself n r => exact hkept r e (by omega) a a' ha
  | @deferred x b n hx =>
    rw [← resolve_definition hrules]
    exact hkept (.definition x) e (by omega) a a' ha
  | @unfolded n x marked occurrence σ hx hσ ih =>
    obtain ⟨e, rfl⟩ : ∃ k, e = k + 1 := ⟨e - 1, by omega⟩
    have hbody : rules.find? (.cell x) = some (marked.subst fun m => ref (occurrence m)) := hx
    rw [Rules.resolve, hbody]
    dsimp only
    rw [denote_subst marked a']
    exact follows_denote_subst (fun m b b' hb => ih m (by omega) hb) marked ha

/-- With bodies put in `N` deep in the rules, every reference on the way costs `N` more. -/
theorem resolve_follows_unfolded (hrules : rules.Unfolds N rules') (d : Nat) :
    ∀ q e, d * (N + 1) ≤ e → ∀ a a', Ambient.Follows (Link.exact κ) a a' →
      (Link.exact κ).Values (rules'.resolve d q a) (rules.resolve e q a') := by
  induction d with
  | zero => exact fun q e he a a' ha k k' s r hk hr => nomatch hr
  | succ d ih =>
    intro q e he a a' ha
    have hsucc : (d + 1) * (N + 1) = d * (N + 1) + N + 1 := by rw [Nat.succ_mul, Nat.add_assoc]
    obtain ⟨e, rfl⟩ : ∃ k, e = k + 1 := ⟨e - 1, by omega⟩
    have hdepth : d * (N + 1) + N ≤ e := by omega
    rw [Rules.resolve, Rules.resolve]
    rcases hrules.find? q with ⟨hnone, hnone'⟩ | ⟨b, b', hb, hb', hbody⟩
    · rw [hnone, hnone']
      exact .fail
    · rw [hb, hb']
      exact hbody.follows_denote
        (fun _ _ hq _ _ => hq.follows_resolve_of_kept hrules.definitions ih hdepth) ha

/-! ## Grammars with references exchanged -/

/-- Both directions, each at a depth of its own. Replies do not depend on the depth. -/
theorem replies_iff_of_unfolds (hrules : rules.Unfolds N rules') {n : Nat}
    {w w' : Option (Wrapper (Grammar Regex.Program))} {g g' : Grammar Regex.Program}
    (h : UnfoldsWithin (rules.cells.find? ·) n (g.under w) (g'.under w')) {k : κ} {s : Text}
    {r : Reply κ Value} : g.Replies rules w k s r ↔ g'.Replies rules' w' k s r := by
  constructor
  · rintro ⟨d, hr⟩
    rw [← parser_under] at hr
    refine ⟨d, ?_⟩
    rw [← parser_under]
    exact (h.denote_follows (fun _ _ hq _ _ => hq.resolve_follows hrules (Nat.le_refl d))
      .none).eq_of_exact hr
  · rintro ⟨d, hr⟩
    rw [← parser_under] at hr
    refine ⟨d * (N + 1) + n, ?_⟩
    rw [← parser_under]
    exact (h.follows_denote (fun _ _ hq _ _ => hq.follows_resolve_of_kept hrules.definitions
      (resolve_follows_unfolded hrules d) (Nat.le_refl _)) .none).eq_of_exact hr

end Grammar

end Descent
