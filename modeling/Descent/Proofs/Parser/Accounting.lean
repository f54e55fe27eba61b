import Descent.Proofs.Location.After
import Descent.Proofs.Parser.Cases

/-!
# Where the location is behind a parser

The location is moved by every match, also by one that is given up later. How far it is then from the
end of the consumed text depends on how a parser is put together. An `Accounting` says what is allowed:
where the location may be behind a success, compared to the end of the consumed text, and behind a
failure, compared to the start. Three of them are of interest.

* `Accounting.noLag`: the location is never before the place where it should be. All parsers keep this.
* `Accounting.exact`: behind a success the location is the right one. This allows no parser to go on
  behind a failure, unless it is one of a `quiet` part.
* `Accounting.quiet`: the location is right behind a success, and a failure has not moved it. This
  allows no parser to fail behind a success of a part.

So there is one lemma for each way to put parsers together, which asks for what it needs: that failures
may be forgiven (`Accounting.Forgives`), or that a success may be rejected (`Accounting.Rejects`).
-/

namespace Descent

/-- What is asked of the location behind a parser. -/
structure Accounting where
  /-- the consumed text ends at the first location, and the parser at the second -/
  found : Location → Location → Prop
  /-- a failure leads from the first location to the second -/
  failed : Location → Location → Prop
  found_refl : ∀ l, found l l
  found_trans : ∀ {a b c}, found a b → found b c → found a c
  found_after : ∀ {a b} (t : Text), found a b → found (a.after t) (b.after t)
  failed_refl : ∀ l, failed l l
  failed_trans : ∀ {a b c}, failed a b → failed b c → failed a c

namespace Accounting

/-- The location never lags behind. -/
def noLag : Accounting where
  found a b := a ≤ b
  failed a b := a ≤ b
  found_refl := Location.le_refl
  found_trans := Location.le_trans
  found_after t h := Location.after_mono h t
  failed_refl := Location.le_refl
  failed_trans := Location.le_trans

/-- The location is exact behind a success. -/
def exact : Accounting where
  found a b := a = b
  failed _ _ := True
  found_refl _ := rfl
  found_trans := Eq.trans
  found_after t h := congrArg (Location.after · t) h
  failed_refl _ := trivial
  failed_trans _ _ := trivial

/-- The location is exact behind a success, and a failure does not move it. -/
def quiet : Accounting where
  found a b := a = b
  failed a b := a = b
  found_refl _ := rfl
  found_trans := Eq.trans
  found_after t h := congrArg (Location.after · t) h
  failed_refl _ := rfl
  failed_trans := Eq.trans

/-- One may go on behind a failure as if nothing had happened. -/
def Forgives (A : Accounting) : Prop := ∀ ⦃l k⦄, A.failed l k → A.found l k

/-- One may fail behind a success. -/
def Rejects (A : Accounting) : Prop := ∀ ⦃l k⦄ (c : Text), A.found (l.after c) k → A.failed l k

theorem forgives_noLag : noLag.Forgives := fun _ _ h => h

theorem forgives_quiet : quiet.Forgives := fun _ _ h => h

theorem rejects_noLag : noLag.Rejects := fun l _ c h => Location.le_trans (l.le_after c) h

theorem rejects_exact : exact.Rejects := fun _ _ _ _ => trivial

/-- What holds behind `c` and then behind `d` holds behind both. -/
theorem found_append (A : Accounting) {l k k' : Location} {c d : Text}
    (hc : A.found (l.after c) k) (hd : A.found (k.after d) k') : A.found (l.after (c ++ d)) k' := by
  rw [Location.after_append]
  exact A.found_trans (A.found_after d hc) hd

/-- One reply to the text `s` at `l` is in order, and its value has the property `P`. -/
inductive Settled {α : Type} (A : Accounting) (P : α → Prop) (l : Location) (s : Text) :
    Reply Location α → Prop
  | success {v : α} {c rest : Text} {k : Location} : P v → s = c ++ rest →
      A.found (l.after c) k → Settled A P l s ⟨.success v rest, k⟩
  | failure {rest : Text} {m : Option Text} {k : Location} : A.failed l k →
      Settled A P l s ⟨.failure rest m, k⟩

end Accounting

namespace Parser

open Accounting

variable {α β γ : Type} {A : Accounting} {P : α → Prop} {Q : β → Prop} {R : γ → Prop}
  {p : Parser Location α} {q : Parser Location β} {l k : Location} {s rest : Text}

/-- All replies of `p` are in order, and its values have the property `P`. -/
def Keeps (A : Accounting) (P : α → Prop) (p : Parser Location α) : Prop :=
  ∀ ⦃l s r⦄, p l s = some r → A.Settled P l s r

namespace Keeps

theorem of_success (hp : p.Keeps A P) {v : α} (h : p l s = some ⟨.success v rest, k⟩) :
    P v ∧ ∃ c, s = c ++ rest ∧ A.found (l.after c) k := by
  cases hp h with
  | success hv hs hk => exact ⟨hv, _, hs, hk⟩

theorem of_failure (hp : p.Keeps A P) {m : Option Text}
    (h : p l s = some ⟨.failure rest m, k⟩) : A.failed l k := by
  cases hp h with
  | failure hk => exact hk

/-- A success that consumed nothing leaves the location where it is. -/
theorem of_idle (hp : p.Keeps A P) {v : α} (h : p l s = some ⟨.success v rest, k⟩)
    (hlen : rest.byteLength = s.byteLength) : P v ∧ A.found l k := by
  obtain ⟨hv, c, rfl, hk⟩ := hp.of_success h
  have hc : c = [] := by
    rw [Text.byteLength_append] at hlen
    exact Text.eq_nil_of_byteLength_eq_zero (by omega)
  subst hc
  rw [Location.after_nil] at hk
  exact ⟨hv, hk⟩

theorem mono {P' : α → Prop} (hp : p.Keeps A P) (h : ∀ v, P v → P' v) : p.Keeps A P' := by
  intro l s r hr
  cases hp hr with
  | success hv hs hk => exact .success (h _ hv) hs hk
  | failure hk => exact .failure hk

/-- A parser that leaves the clock alone where it fails is exact all the more. -/
theorem quiet_exact (hp : p.Keeps quiet P) : p.Keeps exact P := by
  intro l s r h
  cases hp h with
  | success hv hs hk => exact .success hv hs hk
  | failure _ => exact .failure trivial

/-! ## Parts that are used once -/

theorem succeed {v : α} (hv : P v) : (succeed v).Keeps A P := by
  intro l s r h
  cases h
  refine .success (c := []) hv rfl ?_
  rw [Location.after_nil]
  exact A.found_refl l

theorem fail : (fail : Parser Location α).Keeps A P := by
  intro l s r h
  cases h
  exact .failure (A.failed_refl l)

theorem map {f : α → β} (hp : p.Keeps A P) (hf : ∀ v, P v → Q (f v)) : (p.map f).Keeps A Q := by
  intro l s r h
  obtain ⟨r', hr', rfl⟩ := map_eq_some_iff.mp h
  cases hp hr' with
  | success hv hs hk => exact .success (hf _ hv) hs hk
  | failure hk => exact .failure hk

/-- A failure behind a consumed text is a failure of the whole, so it has to be one that `A` takes.
-/
theorem andThen (hA : A.Rejects) {f : α → Parser Location β} (hp : p.Keeps A P)
    (hf : ∀ v, P v → (f v).Keeps A Q) : (p.andThen f).Keeps A Q := by
  intro l s r h
  rcases andThen_eq_some_iff.mp h with ⟨rest, m, k, hfail, rfl⟩ | ⟨v, rest, k, r', hv, hr', rfl⟩
  · exact .failure (hp.of_failure hfail)
  · obtain ⟨hPv, c, rfl, hc⟩ := hp.of_success hv
    cases hf v hPv hr' with
    | success hu hrest hd => exact .success hu (by rw [hrest, List.append_assoc]) (A.found_append hc hd)
    | failure hd => exact .failure (A.failed_trans (hA c hc) hd)

theorem tryMap (hA : A.Rejects) {f : α → Option β} (hp : p.Keeps A P)
    (hf : ∀ v, P v → ∀ u ∈ f v, Q u) : (p.tryMap f).Keeps A Q := by
  refine hp.andThen hA fun v hv => ?_
  cases hu : f v with
  | none => exact fail
  | some u => exact succeed (hf v hv u hu)

theorem filter (hA : A.Rejects) (hp : p.Keeps A P) (c : α → Bool) : (p.filter c).Keeps A P := by
  intro l s r h
  rcases filter_eq_some_iff.mp h with
    ⟨rest, m, k, hr, rfl⟩ | ⟨v, rest, k, hr, -, rfl⟩ | ⟨v, rest, k, hr, -, rfl⟩
  · exact hp hr
  · obtain ⟨-, d, -, hk⟩ := hp.of_success hr
    exact .failure (hA d hk)
  · exact hp hr

/-- A failure becomes a success that consumed nothing, so it has to be forgiven. -/
theorem opt (hA : A.Forgives) (hp : p.Keeps A P) : p.opt.Keeps A (∀ v ∈ ·, P v) := by
  intro l s r h
  rcases opt_eq_some_iff.mp h with ⟨rest, m, k, hr, rfl⟩ | ⟨v, rest, k, hr, rfl⟩
  · refine .success (c := []) nofun rfl ?_
    rw [Location.after_nil]
    exact hA (hp.of_failure hr)
  · obtain ⟨hv, c, hs, hk⟩ := hp.of_success hr
    exact .success (by simpa using hv) hs hk

theorem expect (hp : p.Keeps A P) (description : Text) : (p.expect description).Keeps A P := by
  intro l s r h
  rcases expect_eq_some_iff.mp h with ⟨rest, m, k, hr, rfl⟩ | ⟨v, rest, k, hr, rfl⟩
  · exact .failure (hp.of_failure hr)
  · exact hp hr

/-- A span starts at the input, and its text is the consumed one. -/
theorem span_eq (hp : p.Keeps A P) {e : α × Span} (h : p.span l s = some ⟨.success e rest, k⟩) :
    P e.1 ∧ ∃ c, s = c ++ rest ∧ A.found (l.after c) k ∧ e.2 = ⟨l, k, c⟩ := by
  obtain ⟨hr, he⟩ := span_eq_success_iff.mp h
  obtain ⟨hv, c, hs, hk⟩ := hp.of_success hr
  have hconsumed : consumed s rest = c := by
    rw [hs]
    simp [consumed]
  refine ⟨hv, c, hs, hk, ?_⟩
  rw [he, hconsumed]
  rfl

/-- The text of a span reaches to its end as the consumed text does to the location. -/
theorem span (hp : p.Keeps A P) :
    p.span.Keeps A fun e => P e.1 ∧ A.found (e.2.start.after e.2.text) e.2.stop := by
  intro l s r h
  obtain ⟨⟨e, rest⟩ | ⟨rest, m⟩, k⟩ := r
  · obtain ⟨hv, c, hs, hk, he⟩ := hp.span_eq h
    refine .success ⟨hv, ?_⟩ hs hk
    rw [he]
    exact hk
  · obtain ⟨⟨⟨v, rest'⟩ | ⟨rest', m'⟩, k'⟩, hr, he⟩ := span_eq_some_iff.mp h
    · cases he
    · cases he
      exact .failure (hp.of_failure hr)

theorem window (hp : p.Keeps A P) (n : Nat) : (p.window n).Keeps A P := by
  intro l s r h
  rcases window_eq_some_iff.mp h with ⟨rest, m, k, hr, rfl⟩ | ⟨v, rest, k, hr, rfl⟩
  · exact .failure (hp.of_failure hr)
  · obtain ⟨hv, c, hs, hk⟩ := hp.of_success hr
    have hlen : (s.take n).length - rest.length = c.length := by
      rw [hs, List.length_append]
      omega
    have hdrop : s = c ++ s.drop c.length := by
      conv_lhs => rw [← List.take_append_drop n s, hs]
      conv_rhs => rw [← List.take_append_drop n s, hs]
      simp
    rw [hlen]
    exact .success hv hdrop hk

/-! ## Several parts -/

/-- Each part starts where the failed one before it ended, so failures have to be forgiven. -/
theorem choice (hA : A.Forgives) {ps : List (Parser Location α)} (hps : ∀ p ∈ ps, p.Keeps A P) :
    (choice ps).Keeps A P := by
  induction ps with
  | nil => exact fail
  | cons p ps ih =>
    intro l s r h
    have hp := hps p List.mem_cons_self
    rcases choice_cons_eq_some_iff.mp h with ⟨rest, m, k, hfail, hr⟩ | ⟨v, rest, k, hr, rfl⟩
    · have hk : A.failed l k := hp.of_failure hfail
      cases ih (fun q hq => hps q (List.mem_cons_of_mem p hq)) hr with
      | @success v c rest k' hv hs hk' =>
        exact .success hv hs (A.found_trans (A.found_after c (hA hk)) hk')
      | failure hk' => exact .failure (A.failed_trans hk hk')
    · exact hp hr

/-- Behind quiet alternatives that failed, the last one starts at the right place. -/
theorem choice_concat {ps : List (Parser Location α)} {p : Parser Location α}
    (hps : ∀ q ∈ ps, q.Keeps quiet P) (hp : p.Keeps exact P) :
    (Parser.choice (ps ++ [p])).Keeps exact P := by
  induction ps with
  | nil =>
    intro l s r h
    rcases choice_cons_eq_some_iff.mp h with ⟨rest, m, k, -, hr⟩ | ⟨v, rest, k, hr, rfl⟩
    · cases hr
      exact .failure trivial
    · exact hp hr
  | cons q qs ih =>
    intro l s r h
    have hq := hps q List.mem_cons_self
    rcases choice_cons_eq_some_iff.mp h with ⟨rest, m, k, hfail, hr⟩ | ⟨v, rest, k, hr, rfl⟩
    · have hk : l = k := hq.of_failure hfail
      rw [← hk] at hr
      exact ih (fun q' hq' => hps q' (List.mem_cons_of_mem q hq')) hr
    · exact hq.quiet_exact hr

theorem seq (hA : A.Rejects) {ps : List (Parser Location α)} (hps : ∀ p ∈ ps, p.Keeps A P) :
    (seq ps).Keeps A (∀ v ∈ ·, P v) := by
  induction ps with
  | nil => exact succeed nofun
  | cons p ps ih =>
    have hrest := ih fun q hq => hps q (List.mem_cons_of_mem p hq)
    refine (hps p List.mem_cons_self).andThen hA fun v hv => hrest.map fun vs hvs => ?_
    exact List.forall_mem_cons.mpr ⟨hv, hvs⟩

/-- What a record keeps is what holds of the empty one and is kept when a field is set. -/
theorem record (hA : A.Rejects) {I : Fields α → Prop} (hnil : I [])
    (hput : ∀ key v fields, P v → I fields → I (Fields.put key v fields))
    {parts : List (Option String × Parser Location α)} (hparts : ∀ e ∈ parts, e.2.Keeps A P) :
    (record parts).Keeps A I := by
  suffices hfrom : ∀ captured, I captured → (recordFrom captured parts).Keeps A I from
    hfrom [] hnil
  induction parts with
  | nil => exact fun captured hcaptured => succeed hcaptured
  | cons e parts ih =>
    intro captured hcaptured
    have hrest := ih fun e' he' => hparts e' (List.mem_cons_of_mem e he')
    have he := hparts e List.mem_cons_self
    obtain ⟨_ | key, p⟩ := e
    · exact he.andThen hA fun v _ => hrest captured hcaptured
    · exact he.andThen hA fun v hv => hrest _ (hput key v captured hv hcaptured)

theorem between (hA : A.Rejects) {inner : Parser Location γ} (hleft : p.Keeps A P)
    (hright : q.Keeps A Q) (hinner : inner.Keeps A R) : (between p q inner).Keeps A R :=
  hleft.andThen hA fun _ _ => hinner.andThen hA fun _ hv => hright.map fun _ _ => hv

end Keeps

/-! ## Repetitions -/

/-- What a single round accounts for, all rounds together do. -/
theorem Rounds.settled (hA : A.Forgives) (hp : p.Keeps A P) {values : List α}
    (h : Rounds p l s values rest k) :
    (∀ v ∈ values, P v) ∧ ∃ c, s = c ++ rest ∧ A.found (l.after c) k := by
  induction h with
  | @done l s _ _ k hfail =>
    refine ⟨nofun, [], rfl, ?_⟩
    rw [Location.after_nil]
    exact hA (hp.of_failure hfail)
  | @last l s v _ k hv hlen =>
    obtain ⟨hPv, hk⟩ := hp.of_idle hv hlen
    refine ⟨List.forall_mem_singleton.mpr hPv, [], rfl, ?_⟩
    rwa [Location.after_nil]
  | next hv _ _ ih =>
    obtain ⟨hPv, c, rfl, hc⟩ := hp.of_success hv
    obtain ⟨hvalues, d, rfl, hd⟩ := ih
    exact ⟨List.forall_mem_cons.mpr ⟨hPv, hvalues⟩, c ++ d, (List.append_assoc ..).symm,
      A.found_append hc hd⟩

/-- The same of rounds of two parts; a separator that is given back has to be forgiven as well. -/
theorem SeparatedRounds.settled (hA : A.Forgives) (hA' : A.Rejects) (hp : p.Keeps A P)
    (hq : q.Keeps A Q) {values : List α} (h : SeparatedRounds p q l s values rest k) :
    (∀ v ∈ values, P v) ∧ ∃ c, s = c ++ rest ∧ A.found (l.after c) k := by
  -- a separator without an item moves the location although nothing is consumed
  have hnil : ∀ {l k : Location}, A.failed l k → A.found (l.after []) k := by
    intro l k hk
    rw [Location.after_nil]
    exact hA hk
  induction h with
  | done hfail => exact ⟨nofun, [], rfl, hnil (hq.of_failure hfail)⟩
  | dangling hu hfail =>
    obtain ⟨-, c, -, hc⟩ := hq.of_success hu
    exact ⟨nofun, [], rfl, hnil (A.failed_trans (hA' c hc) (hp.of_failure hfail))⟩
  | last hu hv _ =>
    obtain ⟨-, c, -, hc⟩ := hq.of_success hu
    obtain ⟨hPv, d, -, hd⟩ := hp.of_success hv
    refine ⟨List.forall_mem_singleton.mpr hPv, [], rfl, hnil ?_⟩
    exact A.failed_trans (hA' c hc) (hA' d hd)
  | next hu hv _ _ ih =>
    obtain ⟨-, c, rfl, hc⟩ := hq.of_success hu
    obtain ⟨hPv, d, rfl, hd⟩ := hp.of_success hv
    obtain ⟨hvalues, e, rfl, he⟩ := ih
    refine ⟨List.forall_mem_cons.mpr ⟨hPv, hvalues⟩, c ++ d ++ e, by simp, ?_⟩
    exact A.found_append (A.found_append hc hd) he

theorem Search.settled_found (hA : A.Forgives) {q : Parser Location α} (hp : p.Keeps A P)
    (hq : q.Keeps A P) {found : Option (List α × Text)} (h : Search p q l s found k) :
    ∀ e ∈ found, (∀ v ∈ e.1, P v) ∧ ∃ c, s = c ++ e.2 ∧ A.found (l.after c) k := by
  induction h with
  | found hu =>
    rintro e ⟨⟩
    obtain ⟨hPv, hc⟩ := hq.of_success hu
    exact ⟨List.forall_mem_singleton.mpr hPv, hc⟩
  | stuck _ _ => exact nofun
  | idle _ _ _ => exact nofun
  | next hfail hv _ _ ih =>
    intro e he
    obtain ⟨e', he', rfl⟩ := Option.map_eq_some_iff.mp he
    obtain ⟨hPv, c, rfl, hc⟩ := hp.of_success hv
    obtain ⟨hvalues, d, hd, hk⟩ := ih e' he'
    have hc' := A.found_trans (A.found_after c (hA (hq.of_failure hfail))) hc
    refine ⟨List.forall_mem_cons.mpr ⟨hPv, hvalues⟩, c ++ d, ?_, A.found_append hc' hk⟩
    rw [hd, List.append_assoc]

/-- A search that leads nowhere leaves a clock that a failure may have. -/
theorem Search.settled_none (hA : A.Rejects) {q : Parser Location α} (hp : p.Keeps A P)
    (hq : q.Keeps A P) {found : Option (List α × Text)} (h : Search p q l s found k)
    (hnone : found = none) : A.failed l k := by
  induction h with
  | found _ => cases hnone
  | stuck hfail hfail' => exact A.failed_trans (hq.of_failure hfail) (hp.of_failure hfail')
  | idle hfail hv _ =>
    obtain ⟨-, c, -, hc⟩ := hp.of_success hv
    exact A.failed_trans (hq.of_failure hfail) (hA c hc)
  | next hfail hv _ _ ih =>
    obtain ⟨-, c, -, hc⟩ := hp.of_success hv
    have hitem := A.failed_trans (hq.of_failure hfail) (hA c hc)
    exact A.failed_trans hitem (ih (Option.map_eq_none_iff.mp hnone))

/-- Nothing is found only where the search failed to stop at once. -/
theorem Search.stop_failed {κ : Type} {p q : Parser κ α} {k k' : κ}
    {found : Option (List α × Text)} (h : Search p q k s found k') (hnone : found = none) :
    ∃ rest m k₁, q k s = some ⟨.failure rest m, k₁⟩ := by
  cases h with
  | found _ => cases hnone
  | stuck hfail _ => exact ⟨_, _, _, hfail⟩
  | idle hfail _ _ => exact ⟨_, _, _, hfail⟩
  | next hfail _ _ _ => exact ⟨_, _, _, hfail⟩

namespace Keeps

theorem many (hA : A.Forgives) (hp : p.Keeps A P) : Keeps A (∀ v ∈ ·, P v) (many p) := by
  intro l s r h
  obtain ⟨values, rest, k, hrounds, rfl⟩ := many_eq_some_iff.mp h
  obtain ⟨hvalues, c, hs, hk⟩ := hrounds.settled hA hp
  exact .success hvalues hs hk

/-- Behind the first round nothing can fail, so that this is as good as any number of rounds. -/
theorem many1 (hA : A.Forgives) (hp : p.Keeps A P) : (many1 p).Keeps A (∀ v ∈ ·, P v) := by
  intro l s r h
  rw [many1_eq_andThen] at h
  rcases andThen_eq_some_iff.mp h with ⟨rest, m, k, hfail, rfl⟩ | ⟨v, rest, k, r', hv, hr', rfl⟩
  · exact .failure (hp.of_failure hfail)
  · obtain ⟨r'', hr'', rfl⟩ := map_eq_some_iff.mp hr'
    obtain ⟨values, behind, k', hrounds, rfl⟩ := many_eq_some_iff.mp hr''
    obtain ⟨hPv, c, rfl, hc⟩ := hp.of_success hv
    obtain ⟨hvalues, d, rfl, hd⟩ := hrounds.settled hA hp
    exact .success (List.forall_mem_cons.mpr ⟨hPv, hvalues⟩) (List.append_assoc ..).symm
      (A.found_append hc hd)

theorem sepBy (hA : A.Forgives) (hA' : A.Rejects) (hp : p.Keeps A P) (hq : q.Keeps A Q) :
    (sepBy p q).Keeps A (∀ v ∈ ·, P v) := by
  intro l s r h
  rcases sepBy_eq_some_iff.mp h with
    ⟨rest, m, k, hfail, rfl⟩ | ⟨v, rest, k, values, behind, k', hv, hrounds, rfl⟩
  · refine .success (c := []) nofun rfl ?_
    rw [Location.after_nil]
    exact hA (hp.of_failure hfail)
  · obtain ⟨hPv, c, rfl, hc⟩ := hp.of_success hv
    obtain ⟨hvalues, d, rfl, hd⟩ := hrounds.settled hA hA' hp hq
    exact .success (List.forall_mem_cons.mpr ⟨hPv, hvalues⟩) (List.append_assoc ..).symm
      (A.found_append hc hd)

theorem manyTill (hA : A.Forgives) (hA' : A.Rejects) {q : Parser Location α} (hp : p.Keeps A P)
    (hq : q.Keeps A P) : (manyTill p q).Keeps A (∀ v ∈ ·, P v) := by
  intro l s r h
  rcases manyTill_eq_some_iff.mp h with
    ⟨values, rest, k, hsearch, rfl⟩ | ⟨k, r', hsearch, hr', rfl⟩
  · obtain ⟨hvalues, c, hs, hk⟩ := hsearch.settled_found hA hp hq _ rfl
    exact .success hvalues hs hk
  · have hk : A.failed l k := hsearch.settled_none hA' hp hq rfl
    cases hq hr' with
    | @success v c rest k' hv hs hk' =>
      refine .success (List.forall_mem_singleton.mpr hv) hs ?_
      exact A.found_trans (A.found_after c (hA hk)) hk'
    | failure hk' => exact .failure (A.failed_trans hk hk')

/-- Quiet items up to a quiet stop. Where they lead to no stop the location has been moved, but then
the stop fails a second time, provided that it does not depend on the location. -/
theorem manyTill_exact {q : Parser Location α} (hp : p.Keeps quiet P) (hq : q.Keeps quiet P)
    (hsteady : ∀ ⦃l s rest m k⦄, q l s = some ⟨.failure rest m, k⟩ → ∀ l' v behind k',
      q l' s ≠ some ⟨.success v behind, k'⟩) :
    (Parser.manyTill p q).Keeps exact (∀ v ∈ ·, P v) := by
  intro l s r h
  rcases manyTill_eq_some_iff.mp h with
    ⟨values, rest, k, hsearch, rfl⟩ | ⟨k, ⟨⟨v, rest⟩ | ⟨rest, m⟩, k'⟩, hsearch, hr', rfl⟩
  · obtain ⟨hvalues, c, hs, hk⟩ := hsearch.settled_found forgives_quiet hp hq _ rfl
    exact .success hvalues hs hk
  · obtain ⟨rest', m, k₁, hfail⟩ := hsearch.stop_failed rfl
    exact absurd hr' (hsteady hfail k v rest k')
  · exact .failure trivial

end Keeps

end Parser

end Descent
