import Descent.Proofs.Grammar.Journal
import Descent.Proofs.Session.Effect

/-!
# What environments share

Environments are related if they were derived from the same one that was created. Who is related to whom
can be told from the steps of a session alone (`lineage`), without a look at its state. Related
environments count one location between them, and nothing else is shared: how an environment wraps
terminals is its own affair, and so is every name.

The state refers to the location that an environment counts by a number. The proof comes down to one
invariant (`Tracks`): this number is the number of the environment that it was derived from.

* `Tracks.step`, `tracks_run`: the invariant.
* `Tracks.exists_moved`: a step that moves a location moves that of all related environments, and no other.
* `SameParsers.run_filter`: what parsers mean does not depend on environments.
* `environments_share_locations`: all of this for whole sessions.
-/

namespace Descent

open Grammar (buildWrapper)

/-! ## Descent of environments -/

/-- The environment that each one was derived from. Those that were created are numbered. -/
structure Lineage where
  created : Nat := 0
  origins : Fields Nat := []

namespace Lineage

/-- A name for an environment that is derived from the one of another name. -/
def derive (L : Lineage) (name source : String) : Lineage :=
  match L.origins.find? source with
  | some n => { L with origins := L.origins.insert name n }
  | none => L

def step (L : Lineage) : Step → Lineage
  | .newEnv name _ => ⟨L.created + 1, L.origins.insert name L.created⟩
  | .cloneEnv name source | .unwrapEnv name source => L.derive name source
  | .wrapEnv name source w =>
    match buildWrapper w with
    | .ok _ => L.derive name source
    | .error _ => L
  | _ => L

end Lineage

/-- The lineage after the steps of a session. -/
def lineage (steps : List Step) : Lineage :=
  steps.foldl Lineage.step {}

/-- Two names stand for environments that were derived from the same one. -/
def Related (steps : List Step) (a b : String) : Prop :=
  ∃ n, (lineage steps).origins.find? a = some n ∧ (lineage steps).origins.find? b = some n

namespace Session

variable {depth : Nat} {s : Session} {st : Step} {L : Lineage}

/-- The environment of a name stands at `l` and wraps terminals as `w` says. -/
def Shows (s : Session) (name : String) (l : Location)
    (w : Option (Wrapper (Grammar Regex.Program))) : Prop :=
  ∃ e, s.envs.find? name = some e ∧ s.location e = l ∧ e.wrapper = w

theorem Shows.answer {name : String} {l : Location} {w : Option (Wrapper (Grammar Regex.Program))}
    (h : s.Shows name l w) : (s.step depth (.showEnv name)).2 = .shown l w.isSome := by
  obtain ⟨e, he, rfl, rfl⟩ := h
  simp only [step, withEnv, he]

/-- A step that runs a parser in an environment answers what the grammar of the parser answers there. -/
theorem exists_parsed_iff {parser env : String} {g : Grammar Regex.Program} {l : Location}
    {w : Option (Wrapper (Grammar Regex.Program))} (hg : s.grammar? parser = some g)
    (henv : s.Shows env l w) {input : Text} {r : Reply Location Value} :
    (∃ d, (s.step d (.parse parser env input)).2 = .parsed r) ↔ g.Replies s.rules w l input r := by
  obtain ⟨e, he, rfl, rfl⟩ := henv
  refine exists_congr fun d => ?_
  simp only [step, withEnv, he, runParser_eq, hg]
  cases hr : g.parser s.rules d e.wrapper (s.location e) input with
  | none => simp only [reduceCtorEq]
  | some r' => simp only [Answer.parsed.injEq, Option.some.injEq]

/-! ## The invariant -/

/-- The counters of environments are the numbers of their origins. -/
structure Tracks (L : Lineage) (s : Session) : Prop where
  created : L.created = s.locations.length
  origins : ∀ a, L.origins.find? a = (s.envs.find? a).map (·.counter)
  counted : ∀ a e, s.envs.find? a = some e → e.counter < s.locations.length

namespace Tracks

/-- A name for an environment that counts what another one counts. -/
theorem derive (h : Tracks L s) (name : String) {source : String} {e : Env}
    (he : s.envs.find? source = some e) (w : Option (Wrapper (Grammar Regex.Program))) :
    Tracks (L.derive name source) { s with envs := s.envs.insert name ⟨e.counter, w⟩ } := by
  have horigin : L.origins.find? source = some e.counter := by rw [h.origins, he]; rfl
  have hderive : L.derive name source =
      { L with origins := L.origins.insert name e.counter } := by
    unfold Lineage.derive
    rw [horigin]
  rw [hderive]
  refine ⟨h.created, fun a => ?_, fun a e' ha => ?_⟩
  · rw [Fields.find?_insert, Fields.find?_insert, h.origins]
    split <;> rfl
  · rw [Fields.find?_insert] at ha
    split at ha
    · cases ha
      exact h.counted source e he
    · exact h.counted a e' ha

theorem derive_of_unknown (h : Tracks L s) (name : String) {source : String}
    (hsource : s.envs.find? source = none) : Tracks (L.derive name source) s := by
  have horigin : L.origins.find? source = none := by rw [h.origins, hsource]; rfl
  unfold Lineage.derive
  rw [horigin]
  exact h

/-- Steps that neither create nor name an environment have no part in the invariant. -/
theorem of_frame {s' : Session} (h : Tracks L s) (henvs : ∀ a, s'.envs.find? a = s.envs.find? a)
    (hlength : s'.locations.length = s.locations.length) : Tracks L s' := by
  refine ⟨h.created.trans hlength.symm, fun a => ?_, fun a e ha => ?_⟩
  · rw [h.origins, henvs]
  · rw [hlength]
    exact h.counted a e ((henvs a).symm.trans ha)

end Tracks

theorem Effect.length_locations {s' : Session} (h : Effect s st s') (hst : st.namesEnv? = none) :
    s'.locations.length = s.locations.length := by
  cases h with
  | env e fresh hname =>
    rw [hst] at hname
    cases hname
  | advance e text => exact List.length_set
  | parse e input l => exact List.length_set.trans (congrArg List.length (used_locations s _))
  | use huses => exact congrArg List.length (used_locations s _)
  | _ => rfl

/-- The lineage is read off the step, without a look at the session. -/
theorem Tracks.step (h : Tracks L s) (depth : Nat) (st : Step) :
    Tracks (L.step st) (s.step depth st).1 := by
  cases st with
  | newEnv name location =>
    refine ⟨?_, fun a => ?_, fun a e ha => ?_⟩
    · show L.created + 1 = (s.locations ++ [location]).length
      rw [h.created, List.length_append, List.length_singleton]
    · show (L.origins.insert name L.created).find? a =
        ((s.envs.insert name ⟨s.locations.length, none⟩).find? a).map (·.counter)
      rw [Fields.find?_insert, Fields.find?_insert, h.origins, h.created]
      split <;> rfl
    · show e.counter < (s.locations ++ [location]).length
      have ha' : (s.envs.insert name ⟨s.locations.length, none⟩).find? a = some e := ha
      rw [Fields.find?_insert] at ha'
      rw [List.length_append, List.length_singleton]
      split at ha'
      · cases ha'
        exact Nat.lt_succ_self _
      · have hcounted := h.counted a e ha'
        omega
  | cloneEnv name source =>
    refine withEnv_cases (P := fun x => Tracks (L.derive name source) x.1) ?_ ?_
    · exact h.derive_of_unknown name
    · exact fun e he => h.derive name he e.wrapper
  | unwrapEnv name source =>
    refine withEnv_cases (P := fun x => Tracks (L.derive name source) x.1) ?_ ?_
    · exact h.derive_of_unknown name
    · exact fun e he => h.derive name he none
  | wrapEnv name source w =>
    simp only [Lineage.step, Session.step]
    cases buildWrapper w with
    | error err =>
      exact withEnv_cases (P := fun x => Tracks L x.1) (fun _ => h) fun _ _ => h
    | ok w =>
      refine withEnv_cases (P := fun x => Tracks (L.derive name source) x.1) ?_ ?_
      · exact h.derive_of_unknown name
      · exact fun e he => h.derive name he (some w)
  | _ =>
    exact h.of_frame (fun a => (s.step_effect depth _).find?_envs (Option.some_ne_none a).symm)
      ((s.step_effect depth _).length_locations rfl)

/-- By induction on the steps, from the session without environments. -/
theorem tracks_run (depth : Nat) (rules : Rules) (steps : List Step) :
    Tracks (lineage steps) (run depth { rules } steps).1 := by
  induction steps using List.reverseRecOn with
  | nil => exact ⟨rfl, fun a => rfl, nofun⟩
  | append_singleton steps st ih =>
    have hlineage : lineage (steps ++ [st]) = (lineage steps).step st := by
      unfold lineage
      rw [List.foldl_append, List.foldl_cons, List.foldl_nil]
    rw [run_concat, hlineage]
    exact ih.step depth st

/-- Environments are related by their steps exactly if they share a counter. -/
theorem Tracks.related_iff {steps : List Step} (h : Tracks (lineage steps) s) {a b : String} {e : Env}
    (he : s.envs.find? a = some e) :
    Related steps a b ↔ ∃ e', s.envs.find? b = some e' ∧ e'.counter = e.counter := by
  unfold Related
  rw [h.origins, h.origins, he]
  constructor
  · rintro ⟨n, hn, hb⟩
    cases hn
    exact Option.map_eq_some_iff.mp hb
  · rintro ⟨e', he', hcounter⟩
    exact ⟨e.counter, rfl, Option.map_eq_some_iff.mpr ⟨e', he', hcounter⟩⟩

/-! ## Locations -/

/-- The location of the environment `e` is moved behind `T`, and nothing happens to environments besides. -/
structure Moved (s : Session) (e : Env) (T : Text) (s' : Session) : Prop where
  envs : s'.envs = s.envs
  locations : s'.locations = s.locations.set e.counter ((s.location e).after T)

theorem Moved.refl (s : Session) (e : Env) : s.Moved e [] s := by
  refine ⟨rfl, ?_⟩
  rw [Location.after_nil, location]
  refine List.ext_getElem? fun i => ?_
  rw [List.getElem?_set, List.getD_eq_getElem?_getD]
  by_cases hi : e.counter = i
  · subst hi
    by_cases hlt : e.counter < s.locations.length
    · simp [hlt]
    · simp [hlt]
  · rw [if_neg hi]

theorem Moved.location {s' : Session} {e : Env} {T : Text} (h : s.Moved e T s')
    (he : e.counter < s.locations.length) (e' : Env) :
    s'.location e' = if e'.counter = e.counter then (s.location e').after T else s.location e' := by
  unfold Session.location
  rw [h.locations, List.getD_eq_getElem?_getD, List.getD_eq_getElem?_getD, List.getElem?_set]
  by_cases hcounter : e'.counter = e.counter
  · rw [if_pos hcounter.symm, if_pos hcounter, if_pos he, Option.getD_some, Session.location,
      List.getD_eq_getElem?_getD, hcounter]
  · rw [if_neg (Ne.symm hcounter), if_neg hcounter]

/-- What a step that moves a location does where it knows the environment. A parser moves the location
behind the texts that it passes. -/
theorem exists_moved {name : String} {e : Env} (hst : st.movesEnv? = some name)
    (he : s.envs.find? name = some e) (depth : Nat) :
    ∃ T, s.Moved e T (s.step depth st).1 ∧ (∀ text, st = .advance name text → T = text) ∧
      ∀ r, (s.step depth st).2 = .parsed r → r.clock = (s.location e).after T := by
  cases st with
  | advance env text =>
    cases hst
    simp only [step, withEnv, he]
    exact ⟨text, ⟨rfl, rfl⟩, fun text' h => by cases h; rfl, fun r h => by cases h⟩
  | parse parser env input =>
    cases hst
    simp only [step, withEnv, he, runParser_eq]
    have hused : (s.used parser).Moved e [] (s.used parser) := .refl _ e
    have hnoText : ∀ T text, Step.parse parser name input = .advance name text → T = text :=
      fun T text h => by cases h
    cases s.grammar? parser with
    | none => exact ⟨[], .refl s e, hnoText [], fun r h => by cases h⟩
    | some g =>
      cases hr : g.parser s.rules depth e.wrapper (s.location e) input with
      | none =>
        simp only [hr]
        exact ⟨[], ⟨used_envs s parser, by simpa [Session.location] using hused.locations⟩, hnoText [],
          fun r h => by cases h⟩
      | some r =>
        simp only [hr]
        have hreplies : g.Replies s.rules e.wrapper (s.location e) input ⟨r.outcome, r.clock⟩ :=
          ⟨depth, hr⟩
        obtain ⟨entries, -, hclock⟩ := Grammar.replies_iff_journal.mp hreplies
        refine ⟨entries.flatten, ⟨used_envs s parser, ?_⟩, hnoText _, ?_⟩
        · show (s.used parser).locations.set e.counter r.clock = _
          rw [used_locations, hclock]
        · rintro r' h
          cases h
          exact hclock
  | _ => cases hst

theorem step_of_unknown {name : String} (hst : st.movesEnv? = some name)
    (hname : s.envs.find? name = none) (depth : Nat) :
    (s.step depth st).1 = s ∧ ∃ T, ∀ text, st = .advance name text → T = text := by
  cases st with
  | advance env text =>
    cases hst
    simp only [step, withEnv, hname]
    exact ⟨trivial, text, fun text' h => by cases h; rfl⟩
  | parse parser env input =>
    cases hst
    simp only [step, withEnv, hname]
    exact ⟨trivial, [], fun text h => by cases h⟩
  | _ => cases hst

/-- A move is seen by all environments that share the counter, and by no other. -/
theorem Tracks.moved {steps : List Step} {s' : Session} {name : String} {e : Env} {T : Text}
    (h : Tracks (lineage steps) s) (he : s.envs.find? name = some e) (hmoved : s.Moved e T s')
    {a : String} {l : Location} {w : Option (Wrapper (Grammar Regex.Program))} (ha : s.Shows a l w) :
    (Related steps name a → s'.Shows a (l.after T) w) ∧ (¬ Related steps name a → s'.Shows a l w) := by
  obtain ⟨e', he', rfl, rfl⟩ := ha
  have hlocation := hmoved.location (h.counted name e he) e'
  have hfind : s'.envs.find? a = some e' := by rw [hmoved.envs, he']
  rw [h.related_iff he]
  constructor
  · rintro ⟨e'', he'', hcounter⟩
    cases he'.symm.trans he''
    exact ⟨e', hfind, by rw [hlocation, if_pos hcounter], rfl⟩
  · intro hunrelated
    have hcounter : e'.counter ≠ e.counter := fun heq => hunrelated ⟨e', he', heq⟩
    exact ⟨e', hfind, by rw [hlocation, if_neg hcounter], rfl⟩

theorem Tracks.shows_of_related {steps : List Step} (h : Tracks (lineage steps) s) {a b : String}
    (hab : Related steps a b) : ∃ l v w, s.Shows a l v ∧ s.Shows b l w := by
  obtain ⟨n, ha, hb⟩ := hab
  rw [h.origins, Option.map_eq_some_iff] at ha hb
  obtain ⟨e, he, rfl⟩ := ha
  obtain ⟨e', he', hcounter⟩ := hb
  have hlocation : s.location e' = s.location e := by
    unfold location
    rw [hcounter]
  exact ⟨_, _, _, ⟨e, he, rfl, rfl⟩, ⟨e', he', hlocation, rfl⟩⟩

/-- A step that moves the location of an environment moves that of all related ones, and no other. -/
theorem Tracks.exists_moved {steps : List Step} (h : Tracks (lineage steps) s) {name : String}
    (hst : st.movesEnv? = some name) (depth : Nat) :
    ∃ T, (∀ text, st = .advance name text → T = text) ∧
      (∀ l w r, s.Shows name l w → (s.step depth st).2 = .parsed r → r.clock = l.after T) ∧
      ∀ a l w, s.Shows a l w → (Related steps name a → (s.step depth st).1.Shows a (l.after T) w) ∧
        (¬ Related steps name a → (s.step depth st).1.Shows a l w) := by
  cases he : s.envs.find? name with
  | some e =>
    obtain ⟨T, hmoved, htext, hclock⟩ := Session.exists_moved hst he depth
    refine ⟨T, htext, ?_, fun a l w ha => h.moved he hmoved ha⟩
    rintro l w r ⟨e', he', rfl, -⟩ hr
    cases he.symm.trans he'
    exact hclock r hr
  | none =>
    obtain ⟨hsame, T, htext⟩ := step_of_unknown hst he depth
    have hunrelated : ∀ a, ¬ Related steps name a := by
      rintro a ⟨n, hn, -⟩
      rw [h.origins, he] at hn
      cases hn
    refine ⟨T, htext, ?_, fun a l w ha => ⟨fun hab => absurd hab (hunrelated a), fun _ => ?_⟩⟩
    · rintro l w r ⟨e', he', -⟩
      cases he.symm.trans he'
    · rwa [hsame]

/-- A step that moves no location leaves all environments as they are whose name it does not give. -/
theorem Tracks.shows_iff (h : Tracks L s) (depth : Nat) (hmoves : st.movesEnv? = none) {a : String}
    (ha : st.namesEnv? ≠ some a) (l : Location) (w : Option (Wrapper (Grammar Regex.Program))) :
    (s.step depth st).1.Shows a l w ↔ s.Shows a l w := by
  have heffect := s.step_effect depth st
  obtain ⟨fresh, hfresh⟩ := heffect.locations hmoves
  have hlocation : ∀ e, s.envs.find? a = some e →
      (s.step depth st).1.location e = s.location e := by
    intro e he
    have hcounted := h.counted a e he
    unfold location
    rw [hfresh, List.getD_eq_getElem?_getD, List.getD_eq_getElem?_getD,
      List.getElem?_append_left hcounted]
  unfold Shows
  rw [heffect.find?_envs ha]
  constructor
  · rintro ⟨e, he, hl, hw⟩
    exact ⟨e, he, (hlocation e he).symm.trans hl, hw⟩
  · rintro ⟨e, he, hl, hw⟩
    exact ⟨e, he, (hlocation e he).trans hl, hw⟩

theorem exists_shows_iff (a : String) (w : Option (Wrapper (Grammar Regex.Program))) :
    (∃ l, s.Shows a l w) ↔ ∃ e, s.envs.find? a = some e ∧ e.wrapper = w := by
  constructor
  · rintro ⟨l, e, he, -, hw⟩
    exact ⟨e, he, hw⟩
  · rintro ⟨e, he, hw⟩
    exact ⟨s.location e, e, he, rfl, hw⟩

/-! ## Parsers -/

/-- Names of parsers mean the same in two sessions. Whether a parser has been built does not matter. -/
structure SameParsers (s t : Session) : Prop where
  rules : s.rules = t.rules
  handles : s.handles = t.handles
  lazies : ∀ n, (s.lazies.find? n).map (·.grammar) = (t.lazies.find? n).map (·.grammar)

namespace SameParsers

variable {t : Session}

theorem grammar?_eq (h : SameParsers s t) (p : String) : s.grammar? p = t.grammar? p := by
  unfold grammar?
  rw [h.handles, h.lazies]

theorem of_effect {s' : Session} (heffect : Effect s st s') (hst : st.prepares = false) :
    SameParsers s' s := by
  have hused : ∀ parser, SameParsers (s.used parser) s := by
    intro parser
    obtain ⟨lazies, tallies, hused, hgrammar⟩ := s.used_eq parser
    rw [hused]
    exact ⟨rfl, rfl, hgrammar⟩
  cases heffect with
  | parse e input l => exact ⟨(hused _).rules, (hused _).handles, (hused _).lazies⟩
  | use huses => exact hused _
  | handle h hname => simp [Step.prepares, hname] at hst
  | lazy g hbuild => cases hst
  | copy p hsource => cases hst
  | cell hfills hdefine => simp [Step.prepares, hfills] at hst
  | _ => exact ⟨rfl, rfl, fun n => rfl⟩

theorem addHandle (h : SameParsers s t) (name : String) (handle : Handle) :
    SameParsers (s.addHandle name handle).1 (t.addHandle name handle).1 := by
  refine ⟨h.rules, ?_, h.lazies⟩
  show s.handles.insert name handle = t.handles.insert name handle
  rw [h.handles]

/-- The two sessions count builds apart from one another. -/
theorem addLazy (h : SameParsers s t) (name : String) {p q : LazyParser} (tallies tallies' : List Nat)
    (hpq : p.grammar = q.grammar) :
    SameParsers ({ s with tallies }.addLazy name p).1 ({ t with tallies := tallies' }.addLazy name q).1 := by
  refine ⟨h.rules, ?_, fun n => ?_⟩
  · show s.handles.insert name .lazy = t.handles.insert name .lazy
    rw [h.handles]
  · show ((s.lazies.insert name p).find? n).map (·.grammar) =
      ((t.lazies.insert name q).find? n).map (·.grammar)
    rw [Fields.find?_insert, Fields.find?_insert]
    split
    · exact congrArg some hpq
    · exact h.lazies n

theorem step (h : SameParsers s t) (depth : Nat) (hst : st.prepares = true) :
    SameParsers (s.step depth st).1 (t.step depth st).1 := by
  cases st with
  | parser name g =>
    simp only [Session.step, withGrammar]
    cases g.build with
    | error e => exact h
    | ok g => exact h.addHandle name _
  | forward name => exact h.addHandle name _
  | define name g =>
    simp only [Session.step, withGrammar, h.rules]
    cases g.build with
    | error e => exact h
    | ok g =>
      cases hdefine : t.rules.define name g with
      | error e =>
        simp only [hdefine]
        exact h
      | ok rules =>
        simp only [hdefine]
        exact ⟨rfl, h.handles, h.lazies⟩
  | lazy name g =>
    simp only [Session.step, withGrammar]
    cases g.build with
    | error e => exact h
    | ok g => exact h.addLazy name _ _ rfl
  | cloneLazy name source =>
    have hsource := h.lazies source
    simp only [Session.step]
    cases hs : s.lazies.find? source with
    | none =>
      cases ht : t.lazies.find? source with
      | none => exact h
      | some q => simp [hs, ht] at hsource
    | some p =>
      cases ht : t.lazies.find? source with
      | none => simp [hs, ht] at hsource
      | some q =>
        rw [hs, ht, Option.map_some, Option.map_some, Option.some.injEq] at hsource
        exact h.addLazy name s.tallies t.tallies hsource
  | _ => cases hst

/-- Only the steps that prepare parsers matter to what parsers mean. -/
theorem run_filter (h : SameParsers s t) (depth : Nat) (steps : List Step) :
    SameParsers (s.run depth steps).1 (t.run depth (steps.filter Step.prepares)).1 := by
  induction steps generalizing s t with
  | nil => exact h
  | cons st steps ih =>
    by_cases hst : st.prepares = true
    · rw [List.filter_cons_of_pos hst]
      exact ih (h.step depth hst)
    · rw [List.filter_cons_of_neg hst]
      have hsame := of_effect (s.step_effect depth st) (Bool.eq_false_iff.mpr hst)
      refine ih ⟨hsame.rules.trans h.rules, hsame.handles.trans h.handles, fun n => ?_⟩
      exact (hsame.lazies n).trans (h.lazies n)

end SameParsers

/-- A run of its own looks at nothing but the parser and the rules. -/
theorem answer_of_alone {t : Session} {p : String} (hst : st.alone? = some p)
    (hrules : t.rules = s.rules) (hgrammar : t.grammar? p = s.grammar? p) (depth : Nat) :
    (t.step depth st).2 = (s.step depth st).2 := by
  have hanswer : ∀ (answer : Reply Location Value → Answer) (input : Text),
      (runParser depth t p none .start input fun s r => (s, answer r)).2 =
        (runParser depth s p none .start input fun s r => (s, answer r)).2 := by
    intro answer input
    rw [runParser_eq, runParser_eq, hrules, hgrammar]
    cases s.grammar? p with
    | none => rfl
    | some g =>
      cases hr : g.parser s.rules depth none Location.start input <;> simp only [hr]
  cases st with
  | run parser input =>
    cases hst
    exact hanswer (fun r => .ran r.outcome) input
  | parseAll parser input =>
    cases hst
    exact hanswer (fun r => .finished (r.finish input)) input
  | _ => cases hst

/-! ## Sharing -/

/-- **What environments share.** After any steps, related environments show the same location. A step that
moves the location of an environment moves it for the related ones by the same text, and for no others; no
other step moves a location. No step changes how an environment wraps terminals. To give a name anew
changes nothing for other names, neither for those of environments nor for those of parsers. To run a
parser in an environment of its own changes no environment, and the answer depends only on the parser, the
text and what cells hold: it is the same without all steps that have to do with environments. -/
theorem environments_share_locations (depth : Nat) (rules : Rules) (steps : List Step) (st : Step) :
    let s := (run depth { rules } steps).1
    let s' := (s.step depth st).1
    (∀ a b, Related steps a b → ∃ l v w, (s.Shows a l v ∧ s.Shows b l w) ∧
      (s.step depth (.showEnv a)).2 = .shown l v.isSome ∧
      (s.step depth (.showEnv b)).2 = .shown l w.isSome) ∧
    (∀ e, st.movesEnv? = some e → ∃ T, (∀ text, st = .advance e text → T = text) ∧
      (∀ l w r, s.Shows e l w → (s.step depth st).2 = .parsed r → r.clock = l.after T) ∧
      ∀ a l w, s.Shows a l w → (Related steps e a → s'.Shows a (l.after T) w) ∧
        (¬ Related steps e a → s'.Shows a l w)) ∧
    (st.movesEnv? = none → ∀ a, st.namesEnv? ≠ some a → ∀ l w, s'.Shows a l w ↔ s.Shows a l w) ∧
    (∀ a, st.namesEnv? ≠ some a → ∀ w, (∃ l, s'.Shows a l w) ↔ ∃ l, s.Shows a l w) ∧
    ((∀ p, st.namesParser? ≠ some p → s'.grammar? p = s.grammar? p ∧
        (st.uses? = none →
          (s'.step depth (.lazyState p)).2 = (s.step depth (.lazyState p)).2)) ∧
      (st.fillsCell? = none → s'.rules = s.rules)) ∧
    ∀ p, st.alone? = some p → (∀ a l w, s'.Shows a l w ↔ s.Shows a l w) ∧
      (∀ t : Session, t.rules = s.rules → t.grammar? p = s.grammar? p →
        (t.step depth st).2 = (s.step depth st).2) ∧
      ((run depth { rules } (steps.filter Step.prepares)).1.step depth st).2 =
        (s.step depth st).2 := by
  intro s s'
  have htracks : Tracks (lineage steps) s := tracks_run depth rules steps
  have heffect : Effect s st s' := s.step_effect depth st
  refine ⟨?_, ?_, ?_, ?_, ⟨?_, heffect.rules⟩, ?_⟩
  · intro a b hab
    obtain ⟨l, v, w, ha, hb⟩ := htracks.shows_of_related hab
    exact ⟨l, v, w, ⟨ha, hb⟩, ha.answer, hb.answer⟩
  · exact fun e hst => htracks.exists_moved hst depth
  · exact fun hmoves a ha l w => htracks.shows_iff depth hmoves ha l w
  · intro a ha w
    rw [exists_shows_iff, exists_shows_iff, heffect.find?_envs ha]
  · exact fun p hp => ⟨heffect.grammar? hp, fun huses => heffect.lazyState huses hp depth⟩
  · intro p hst
    have hmoves : st.movesEnv? = none := by
      cases st <;> cases hst <;> rfl
    have hnames : st.namesEnv? = none := by
      cases st <;> cases hst <;> rfl
    have hsame : SameParsers s (run depth { rules } (steps.filter Step.prepares)).1 :=
      SameParsers.run_filter ⟨rfl, rfl, fun n => rfl⟩ depth steps
    refine ⟨fun a l w => htracks.shows_iff depth hmoves (by simp [hnames]) l w, ?_, ?_⟩
    · exact fun t hrules hgrammar => answer_of_alone hst hrules hgrammar depth
    · exact answer_of_alone hst hsame.rules.symm (hsame.grammar?_eq p).symm depth

/-- A line is read in an environment that was derived from another one: the other one moves along, and
keeps its own way with terminals. A third one stays where it is. -/
theorem environments_share_locations_of_siblings :
    let steps : List Step := [.newEnv "a" .start, .wrapEnv "b" "a" (.skip .whitespace),
      .newEnv "c" .start, .parser "line" (.literal ['x', '\n'])]
    let s := (run 0 {} steps).1
    let s' := (s.step 0 (.parse "line" "b" [' ', 'x', '\n', ' ', 'y'])).1
    (Related steps "b" "a" ∧ ¬ Related steps "b" "c") ∧
      s'.Shows "a" ⟨2, 2⟩ none ∧ s'.Shows "c" .start none := by
  intro steps s s'
  have ha : s.Shows "a" .start none := ⟨⟨0, none⟩, rfl, rfl, rfl⟩
  have hb : s.Shows "b" .start (some (.skip .whitespace)) := ⟨⟨0, _⟩, rfl, rfl, rfl⟩
  have hc : s.Shows "c" .start none := ⟨⟨1, none⟩, rfl, rfl, rfl⟩
  have hrelated : Related steps "b" "a" := ⟨0, rfl, rfl⟩
  have hunrelated : ¬ Related steps "b" "c" := by
    rintro ⟨n, hn, hn'⟩
    cases hn
    cases hn'
  obtain ⟨-, hmoves, -⟩ :=
    environments_share_locations 0 {} steps (.parse "line" "b" [' ', 'x', '\n', ' ', 'y'])
  obtain ⟨T, -, hclock, hmoved⟩ := hmoves "b" rfl
  have hend : (⟨2, 2⟩ : Location) = Location.start.after T :=
    hclock .start _ ⟨.success (.str ['x', '\n']) ['y'], ⟨2, 2⟩⟩ hb rfl
  refine ⟨⟨hrelated, hunrelated⟩, ?_, (hmoved "c" _ _ hc).2 hunrelated⟩
  rw [hend]
  exact (hmoved "a" _ _ ha).1 hrelated

end Session

end Descent
