import Descent.Session

/-!
# What a step does to a session

A step names an environment, moves a location, uses a parser, names a parser or fills a cell, and touches
nothing else. This is said once (`step_effect`); that everything else stays as it was follows from it. Of
a parser only its grammar counts: to use a parser marks it as built, and this shows nowhere in what
parsers do.

* `runParser_eq`: how the parser of a name is run, in terms of its grammar.
* `step_effect`: all that a step can do.
* `Effect.find?_envs`, `Effect.grammar?`, `Effect.lazies`: names that a step does not give stand for what
  they stood for.
* `run_concat`: a session with one more step.
-/

namespace Descent

theorem Fields.find?_insert_of_ne {α : Type} {fields : Fields α} {key k : String} {value : α}
    (h : k ≠ key) : (fields.insert key value).find? k = fields.find? k := by
  rw [find?_insert, if_neg h]

namespace Step

/-- The name that a step gives to an environment. -/
def namesEnv? : Step → Option String
  | newEnv name _ | cloneEnv name _ | wrapEnv name _ _ | unwrapEnv name _ => some name
  | _ => none

/-- The environment whose location a step moves. -/
def movesEnv? : Step → Option String
  | advance env _ | parse _ env _ => some env
  | _ => none

/-- The name that a step gives to a parser. -/
def namesParser? : Step → Option String
  | parser name _ | forward name | lazy name _ | cloneLazy name _ => some name
  | _ => none

/-- The name whose cell a step is to fill. -/
def fillsCell? : Step → Option String
  | define name _ => some name
  | _ => none

/-- The parser that a step runs. -/
def uses? : Step → Option String
  | parse p _ _ | run p _ | parseAll p _ => some p
  | _ => none

/-- The parser that a step runs in an environment of its own. -/
def alone? : Step → Option String
  | run p _ | parseAll p _ => some p
  | _ => none

/-- The step has to do with what parsers mean. -/
def prepares (st : Step) : Bool :=
  st.namesParser?.isSome || st.fillsCell?.isSome

end Step

namespace Session

variable {depth : Nat} {s : Session} {st : Step}

/-! ## Parsers and their grammars -/

/-- The grammar of the parser of a name. -/
def grammar? (s : Session) (name : String) : Option (Grammar Regex.Program) :=
  match s.handles.find? name with
  | none => none
  | some (.grammar g) => some g
  | some (.cell n) => some (.ref (.cell n))
  | some .lazy => (s.lazies.find? name).map (·.grammar)

/-- The state after the parser of a name was used. -/
def used (s : Session) (name : String) : Session :=
  match s.handles.find? name, s.lazies.find? name with
  | some .lazy, some p => s.build name p
  | _, _ => s

theorem use?_eq (s : Session) (name : String) :
    s.use? name = (s.grammar? name).map fun g => (g, s.used name) := by
  unfold use? grammar? used
  cases s.handles.find? name with
  | none => rfl
  | some h =>
    cases h with
    | grammar g => rfl
    | cell n => rfl
    | lazy => cases s.lazies.find? name <;> rfl

theorem runParser_eq (s : Session) (name : String) (w : Option (Wrapper (Grammar Regex.Program)))
    (l : Location) (input : Text) (f : Session → Reply Location Value → Session × Answer) :
    runParser depth s name w l input f =
      match s.grammar? name with
      | none => (s, .unknown name)
      | some g =>
        match g.parser s.rules depth w l input with
        | none => (s.used name, .unanswered)
        | some r => f (s.used name) r := by
  rw [runParser, use?_eq]
  cases s.grammar? name <;> rfl

/-- To use a parser does nothing, unless it is a lazy one that has not been built. -/
theorem used_cases (s : Session) (name : String) :
    s.used name = s ∨ ∃ p, s.lazies.find? name = some p ∧ p.built = false ∧
      s.used name = { s with
        lazies := s.lazies.insert name { p with built := true }
        tallies := s.tallies.set p.tally (s.tallies.getD p.tally 0 + 1) } := by
  unfold used
  split
  · rename_i p hhandle hfind
    cases hbuilt : p.built with
    | true => exact .inl (if_pos hbuilt)
    | false => exact .inr ⟨p, hfind, hbuilt, if_neg (Bool.eq_false_iff.mp hbuilt)⟩
  · exact .inl rfl

theorem used_eq (s : Session) (name : String) :
    ∃ lazies tallies, s.used name = { s with lazies, tallies } ∧
      ∀ n, (lazies.find? n).map (·.grammar) = (s.lazies.find? n).map (·.grammar) := by
  rcases s.used_cases name with hused | ⟨p, hfind, -, hused⟩
  · exact ⟨s.lazies, s.tallies, hused, fun n => rfl⟩
  · refine ⟨_, _, hused, fun n => ?_⟩
    rw [Fields.find?_insert]
    by_cases hn : n = name
    · rw [if_pos hn, hn, hfind]
      rfl
    · rw [if_neg hn]

@[simp] theorem used_rules (s : Session) (name : String) : (s.used name).rules = s.rules := by
  obtain ⟨lazies, tallies, h, -⟩ := s.used_eq name
  rw [h]

@[simp] theorem used_locations (s : Session) (name : String) :
    (s.used name).locations = s.locations := by
  obtain ⟨lazies, tallies, h, -⟩ := s.used_eq name
  rw [h]

@[simp] theorem used_envs (s : Session) (name : String) : (s.used name).envs = s.envs := by
  obtain ⟨lazies, tallies, h, -⟩ := s.used_eq name
  rw [h]

/-! ## Effects -/

/-- What a step can do to a session. A step that is refused does nothing. -/
inductive Effect (s : Session) : Step → Session → Prop
  | idle (st : Step) : Effect s st s
  | env {st : Step} {name : String} (e : Env) (fresh : List Location) :
      st.namesEnv? = some name →
      Effect s st { s with envs := s.envs.insert name e, locations := s.locations ++ fresh }
  | advance {env : String} (e : Env) (text : Text) :
      Effect s (.advance env text) (s.setLocation e ((s.location e).after text))
  | parse {parser env : String} (e : Env) (input : Text) (l : Location) :
      Effect s (.parse parser env input) ((s.used parser).setLocation e l)
  | use {st : Step} {parser : String} : st.uses? = some parser → Effect s st (s.used parser)
  | handle {st : Step} {name : String} (h : Handle) :
      st.namesParser? = some name →
      Effect s st { s with handles := s.handles.insert name h }
  | lazy {name : String} {source : Grammar PatternSource} (g : Grammar Regex.Program) :
      source.build = .ok g →
      Effect s (.lazy name source) { s with
        handles := s.handles.insert name .lazy
        lazies := s.lazies.insert name ⟨g, false, s.tallies.length⟩
        tallies := s.tallies ++ [0] }
  | copy {name source : String} (p : LazyParser) :
      s.lazies.find? source = some p →
      Effect s (.cloneLazy name source) { s with
        handles := s.handles.insert name .lazy
        lazies := s.lazies.insert name p }
  | cell {st : Step} {name : String} {g : Grammar Regex.Program} {rules : Rules} :
      st.fillsCell? = some name → s.rules.define name g = .ok rules →
      Effect s st { s with rules }

theorem withEnv_cases {P : Session × Answer → Prop} {name : String} {f : Env → Session × Answer}
    (hnone : s.envs.find? name = none → P (s, .unknown name))
    (hsome : ∀ e, s.envs.find? name = some e → P (f e)) : P (s.withEnv name f) := by
  unfold withEnv
  cases h : s.envs.find? name with
  | none => exact hnone h
  | some e => exact hsome e h

theorem withGrammar_cases {P : Session × Answer → Prop} {g : Grammar PatternSource}
    {f : Grammar Regex.Program → Session × Answer}
    (herror : ∀ e, g.build = .error e → P (s, .invalid e))
    (hok : ∀ h, g.build = .ok h → P (f h)) : P (s.withGrammar g f) := by
  unfold withGrammar
  cases h : g.build with
  | error e => exact herror e h
  | ok h' => exact hok h' h

theorem effect_env {name : String} (e : Env) (hst : st.namesEnv? = some name) :
    Effect s st (s.addEnv name e).1 := by
  have h := Effect.env (s := s) e [] hst
  rwa [List.append_nil] at h

theorem effect_run {name : String} {w : Option (Wrapper (Grammar Regex.Program))} {l : Location}
    {input : Text} {f : Session → Reply Location Value → Session × Answer}
    (hst : st.uses? = some name) (hf : ∀ r, Effect s st (f (s.used name) r).1) :
    Effect s st (runParser depth s name w l input f).1 := by
  rw [runParser_eq]
  cases s.grammar? name with
  | none => exact .idle st
  | some g =>
    cases hr : g.parser s.rules depth w l input with
    | none =>
      simp only [hr]
      exact .use hst
    | some r =>
      simp only [hr]
      exact hf r

/-- Every step does one of the things that `Effect` lists. All invariants of sessions start from
here. -/
theorem step_effect (depth : Nat) (s : Session) (st : Step) : Effect s st (s.step depth st).1 := by
  cases st with
  | newEnv name location => exact .env _ [location] rfl
  | cloneEnv name source =>
    exact withEnv_cases (P := fun x => Effect s _ x.1) (fun _ => .idle _)
      fun e _ => effect_env e rfl
  | wrapEnv name source w =>
    refine withEnv_cases (P := fun x => Effect s _ x.1) (fun _ => .idle _) fun e _ => ?_
    cases Grammar.buildWrapper w with
    | error err => exact .idle _
    | ok w => exact effect_env _ rfl
  | unwrapEnv name source =>
    exact withEnv_cases (P := fun x => Effect s _ x.1) (fun _ => .idle _)
      fun e _ => effect_env _ rfl
  | advance env text =>
    exact withEnv_cases (P := fun x => Effect s _ x.1) (fun _ => .idle _)
      fun e _ => .advance e text
  | showEnv env =>
    exact withEnv_cases (P := fun x => Effect s _ x.1) (fun _ => .idle _) fun e _ => .idle _
  | parser name g =>
    exact withGrammar_cases (P := fun x => Effect s _ x.1) (fun _ _ => .idle _)
      fun h _ => .handle (.grammar h) rfl
  | parse parser env input =>
    refine withEnv_cases (P := fun x => Effect s _ x.1) (fun _ => .idle _) fun e _ => ?_
    exact effect_run rfl fun r => .parse e input r.clock
  | run parser input => exact effect_run rfl fun r => .use rfl
  | parseAll parser input => exact effect_run rfl fun r => .use rfl
  | forward name => exact .handle (.cell name) rfl
  | define name g =>
    refine withGrammar_cases (P := fun x => Effect s _ x.1) (fun _ _ => .idle _) fun h _ => ?_
    cases hdefine : s.rules.define name h with
    | error e => exact .idle _
    | ok rules => exact .cell rfl hdefine
  | forwardState name => exact .idle _
  | lazy name g =>
    exact withGrammar_cases (P := fun x => Effect s _ x.1) (fun _ _ => .idle _)
      fun h hbuild => .lazy h hbuild
  | cloneLazy name source =>
    simp only [step]
    cases hsource : s.lazies.find? source with
    | none => exact .idle _
    | some p => exact .copy p hsource
  | lazyState name =>
    simp only [step]
    cases s.lazies.find? name <;> exact .idle _

/-! ## What a step leaves alone -/

theorem Effect.find?_envs {s' : Session} (h : Effect s st s') {a : String}
    (ha : st.namesEnv? ≠ some a) : s'.envs.find? a = s.envs.find? a := by
  cases h with
  | env e fresh hname =>
    have hne : a ≠ _ := fun heq => ha (heq ▸ hname)
    exact Fields.find?_insert_of_ne hne
  | parse e input l => exact congrArg (Fields.find? a) (used_envs s _)
  | use huses => exact congrArg (Fields.find? a) (used_envs s _)
  | _ => rfl

theorem Effect.locations {s' : Session} (h : Effect s st s') (hst : st.movesEnv? = none) :
    ∃ fresh, s'.locations = s.locations ++ fresh := by
  cases h with
  | env e fresh hname => exact ⟨fresh, rfl⟩
  | advance e text => cases hst
  | parse e input l => cases hst
  | use huses => exact ⟨[], by rw [used_locations, List.append_nil]⟩
  | _ => exact ⟨[], (List.append_nil _).symm⟩

theorem Effect.rules {s' : Session} (h : Effect s st s') (hst : st.fillsCell? = none) :
    s'.rules = s.rules := by
  cases h with
  | parse e input l => exact used_rules s _
  | use huses => exact used_rules s _
  | cell hfills hdefine =>
    rw [hst] at hfills
    cases hfills
  | _ => rfl

theorem Effect.grammar? {s' : Session} (h : Effect s st s') {a : String}
    (ha : st.namesParser? ≠ some a) : s'.grammar? a = s.grammar? a := by
  have hused : ∀ parser, (s.used parser).grammar? a = s.grammar? a := by
    intro parser
    obtain ⟨lazies, tallies, hused, hgrammar⟩ := s.used_eq parser
    unfold Session.grammar?
    rw [hused, hgrammar]
  cases h with
  | parse e input l => exact hused _
  | use huses => exact hused _
  | handle h hname =>
    have hne : a ≠ _ := fun heq => ha (heq ▸ hname)
    unfold Session.grammar?
    rw [Fields.find?_insert_of_ne hne]
  | lazy | copy =>
    have hne : a ≠ _ := fun heq => ha (heq ▸ rfl)
    unfold Session.grammar?
    rw [Fields.find?_insert_of_ne hne, Fields.find?_insert_of_ne hne]
  | _ => rfl

/-- A tally that is not there yet stands for zero anyway. -/
theorem getD_append_zero (tallies : List Nat) (i : Nat) :
    (tallies ++ [0]).getD i 0 = tallies.getD i 0 := by
  rw [List.getD_eq_getElem?_getD, List.getD_eq_getElem?_getD]
  by_cases hi : i < tallies.length
  · rw [List.getElem?_append_left hi]
  · have hlength : tallies.length ≤ i := Nat.le_of_not_lt hi
    rw [List.getElem?_append_right hlength, List.getElem?_eq_none hlength, List.getElem?_singleton]
    split <;> rfl

theorem Effect.lazies {s' : Session} (h : Effect s st s') (huses : st.uses? = none) {a : String}
    (ha : st.namesParser? ≠ some a) :
    s'.lazies.find? a = s.lazies.find? a ∧ ∀ i, s'.tallies.getD i 0 = s.tallies.getD i 0 := by
  cases h with
  | parse e input l => cases huses
  | use husesParser =>
    rw [huses] at husesParser
    cases husesParser
  | lazy =>
    have hne : a ≠ _ := fun heq => ha (heq ▸ rfl)
    exact ⟨Fields.find?_insert_of_ne hne, fun i => getD_append_zero s.tallies i⟩
  | copy =>
    have hne : a ≠ _ := fun heq => ha (heq ▸ rfl)
    exact ⟨Fields.find?_insert_of_ne hne, fun i => rfl⟩
  | _ => exact ⟨rfl, fun i => rfl⟩

/-- What is shown of a lazy parser only changes when a parser is used. -/
theorem Effect.lazyState {s' : Session} (h : Effect s st s') (huses : st.uses? = none) {a : String}
    (ha : st.namesParser? ≠ some a) (depth : Nat) :
    (s'.step depth (.lazyState a)).2 = (s.step depth (.lazyState a)).2 := by
  obtain ⟨hfind, htally⟩ := h.lazies huses ha
  simp only [step, hfind]
  cases s.lazies.find? a with
  | none => rfl
  | some p => simp only [htally]

/-! ## Sessions step by step -/

theorem run_append (depth : Nat) (s : Session) (steps more : List Step) :
    (s.run depth (steps ++ more)).1 = ((s.run depth steps).1.run depth more).1 := by
  induction steps generalizing s with
  | nil => rfl
  | cons st steps ih => exact ih (s.step depth st).1

theorem run_concat (depth : Nat) (s : Session) (steps : List Step) (st : Step) :
    (s.run depth (steps ++ [st])).1 = ((s.run depth steps).1.step depth st).1 :=
  run_append depth s steps [st]

theorem grammar?_run (depth : Nat) {s : Session} {a : String} {steps : List Step}
    (h : ∀ st ∈ steps, st.namesParser? ≠ some a) :
    (s.run depth steps).1.grammar? a = s.grammar? a := by
  induction steps generalizing s with
  | nil => rfl
  | cons st steps ih =>
    have hstep := (s.step_effect depth st).grammar? (h st List.mem_cons_self)
    have hrest := ih (s := (s.step depth st).1) fun st' hst' => h st' (List.mem_cons_of_mem _ hst')
    exact hrest.trans hstep

end Session

end Descent
