import Descent.Grammar.Semantics
import Descent.Report

/-!
# Sessions

A session keeps environments and parsers under names and runs parsers in environments. It shows what
parsers share: environments that come from the same one count one location between them, the cell of
a name is filled once and for all who refer to it, and a lazy parser is built when it is used for
the first time.

* `Session.step`: one step of a session, with its answer.
* `Session.run`: a whole session.
-/

namespace Descent

/-! ## State -/

/-- An environment: the location that it counts, and how it wraps terminals. -/
structure Env where
  /-- the counter of its location, which related environments share -/
  counter : Nat
  /-- how terminals are wrapped -/
  wrapper : Option (Wrapper (Grammar Regex.Program))

/-- A parser that is built from its grammar when it is used. -/
structure LazyParser where
  /-- the grammar -/
  grammar : Grammar Regex.Program
  /-- whether the parser has been built -/
  built : Bool
  /-- where the number of builds is kept, which copies share -/
  tally : Nat

/-- What the name of a parser stands for. -/
inductive Handle where
  /-- a grammar -/
  | grammar (g : Grammar Regex.Program)
  /-- the cell of a name -/
  | cell (name : String)
  /-- the lazy parser of the same name -/
  | lazy

/-- The state of a session. -/
structure Session where
  /-- what references lead to -/
  rules : Rules := {}
  /-- the locations that environments count -/
  locations : List Location := []
  /-- the environments -/
  envs : Fields Env := []
  /-- what the names of parsers stand for -/
  handles : Fields Handle := []
  /-- the lazy parsers, which keep their names when a parser takes the same name -/
  lazies : Fields LazyParser := []
  /-- how often lazy parsers have been built -/
  tallies : List Nat := []

/-! ## Steps and answers -/

/-- A step of a session. -/
inductive Step where
  /-- makes an environment at a location -/
  | newEnv (name : String) (location : Location)
  /-- copies an environment -/
  | cloneEnv (name source : String)
  /-- copies an environment, with terminals wrapped -/
  | wrapEnv (name source : String) (w : Wrapper (Grammar PatternSource))
  /-- copies an environment, with terminals not wrapped -/
  | unwrapEnv (name source : String)
  /-- moves the location of an environment behind a text -/
  | advance (env : String) (text : Text)
  /-- shows an environment -/
  | showEnv (env : String)
  /-- names a grammar -/
  | parser (name : String) (g : Grammar PatternSource)
  /-- runs a parser in an environment -/
  | parse (parser env : String) (input : Text)
  /-- runs a parser in an environment of its own -/
  | run (parser : String) (input : Text)
  /-- parses a text as a whole -/
  | parseAll (parser : String) (input : Text)
  /-- names the cell of a name -/
  | forward (name : String)
  /-- fills the cell of a name -/
  | define (name : String) (g : Grammar PatternSource)
  /-- tells whether the cell of a name is filled -/
  | forwardState (name : String)
  /-- names a lazy parser -/
  | lazy (name : String) (g : Grammar PatternSource)
  /-- copies a lazy parser -/
  | cloneLazy (name source : String)
  /-- tells how often a lazy parser has been built -/
  | lazyState (name : String)

/-- The answer to a step. -/
inductive Answer where
  /-- the step is done -/
  | done
  /-- a new environment -/
  | env (location : Location) (wrapped : Bool)
  /-- a location after it was moved -/
  | moved (location : Location)
  /-- an environment on show -/
  | shown (location : Location) (wrapped : Bool)
  /-- the reply of a parser in an environment -/
  | parsed (reply : Reply Location Value)
  /-- the outcome of a parser in an environment of its own -/
  | ran (outcome : Outcome Value)
  /-- the result for a whole text -/
  | finished (result : Except ParseError Value)
  /-- whether the cell of a name is filled -/
  | forwardState (name : String) (defined : Bool)
  /-- whether a lazy parser is built, and how often it and its copies were -/
  | lazyState (built : Bool) (builds : Nat)
  /-- a grammar is wrong -/
  | invalid (e : GrammarError)
  /-- there is nothing of this name -/
  | unknown (name : String)
  /-- the parser gave no answer -/
  | unanswered

namespace Answer

/-- The written form of an environment. -/
def inspectEnv (location : Location) (wrapped : Bool) : Text :=
  "Env \x7b location: ".toList ++ location.inspect ++ ", terminals: ".toList ++
    (toString wrapped).toList ++ " \x7d".toList

/-- The written form of the cell of a name. -/
def inspectForward (name : String) (defined : Bool) : Text :=
  "Forward \x7b name: ".toList ++ Text.quoted name.toList ++ ", defined: ".toList ++
    (toString defined).toList ++ " \x7d".toList

end Answer

namespace Session

/-! ## Environments -/

/-- The location that an environment counts. -/
def location (s : Session) (e : Env) : Location :=
  s.locations.getD e.counter .start

/-- Sets the location that an environment counts, and with it that of all related ones. -/
def setLocation (s : Session) (e : Env) (l : Location) : Session :=
  { s with locations := s.locations.set e.counter l }

/-- Names an environment. -/
def addEnv (s : Session) (name : String) (e : Env) : Session × Answer :=
  ({ s with envs := s.envs.insert name e }, .env (s.location e) e.wrapper.isSome)

/-- Does something with the environment of a name. -/
def withEnv (s : Session) (name : String) (f : Env → Session × Answer) : Session × Answer :=
  match s.envs.find? name with
  | some e => f e
  | none => (s, .unknown name)

/-! ## Parsers -/

/-- Names a parser. -/
def addHandle (s : Session) (name : String) (h : Handle) : Session × Answer :=
  ({ s with handles := s.handles.insert name h }, .done)

/-- Does something with a grammar once it is built. A grammar that is wrong changes nothing. -/
def withGrammar (s : Session) (g : Grammar PatternSource)
    (f : Grammar Regex.Program → Session × Answer) : Session × Answer :=
  match g.build with
  | .ok g => f g
  | .error e => (s, .invalid e)

/-- Names a lazy parser, which is a parser of that name too. -/
def addLazy (s : Session) (name : String) (p : LazyParser) : Session × Answer :=
  { s with lazies := s.lazies.insert name p }.addHandle name .lazy

/-- The state after the lazy parser of a name was used: it is built by then. -/
def build (s : Session) (name : String) (p : LazyParser) : Session :=
  if p.built then s
  else
    { s with
      lazies := s.lazies.insert name { p with built := true }
      tallies := s.tallies.set p.tally (s.tallies.getD p.tally 0 + 1) }

/-- The grammar of the parser of a name, and the state after the parser was used. -/
def use? (s : Session) (name : String) : Option (Grammar Regex.Program × Session) :=
  match s.handles.find? name with
  | none => none
  | some (.grammar g) => some (g, s)
  | some (.cell n) => some (.ref (.cell n), s)
  | some .lazy => (s.lazies.find? name).map fun p => (p.grammar, s.build name p)

/-- Runs the parser of a name at a location, with terminals wrapped as `w` says. -/
def runParser (depth : Nat) (s : Session) (name : String)
    (w : Option (Wrapper (Grammar Regex.Program))) (l : Location) (input : Text)
    (f : Session → Reply Location Value → Session × Answer) : Session × Answer :=
  match s.use? name with
  | none => (s, .unknown name)
  | some (g, used) =>
    match g.parser s.rules depth w l input with
    | none => (used, .unanswered)
    | some reply => f used reply

/-! ## Steps -/

/-- One step of a session. References may be nested `depth` deep. -/
def step (depth : Nat) (s : Session) : Step → Session × Answer
  | .newEnv name location =>
    { s with locations := s.locations ++ [location] }.addEnv name ⟨s.locations.length, none⟩
  | .cloneEnv name source => s.withEnv source (s.addEnv name)
  | .wrapEnv name source w =>
    s.withEnv source fun e =>
      match Grammar.buildWrapper w with
      | .ok w => s.addEnv name { e with wrapper := some w }
      | .error err => (s, .invalid err)
  | .unwrapEnv name source => s.withEnv source fun e => s.addEnv name { e with wrapper := none }
  | .advance env text =>
    s.withEnv env fun e =>
      let l := (s.location e).after text
      (s.setLocation e l, .moved l)
  | .showEnv env => s.withEnv env fun e => (s, .shown (s.location e) e.wrapper.isSome)
  | .parser name g => s.withGrammar g fun g => s.addHandle name (.grammar g)
  | .parse parser env input =>
    s.withEnv env fun e =>
      runParser depth s parser e.wrapper (s.location e) input fun s reply =>
        (s.setLocation e reply.clock, .parsed reply)
  | .run parser input =>
    runParser depth s parser none .start input fun s reply => (s, .ran reply.outcome)
  | .parseAll parser input =>
    runParser depth s parser none .start input fun s reply => (s, .finished (reply.finish input))
  | .forward name => s.addHandle name (.cell name)
  | .define name g =>
    s.withGrammar g fun g =>
      match s.rules.define name g with
      | .ok rules => ({ s with rules }, .done)
      | .error e => (s, .invalid e)
  | .forwardState name => (s, .forwardState name (s.rules.isDefined name))
  | .lazy name g =>
    s.withGrammar g fun g =>
      { s with tallies := s.tallies ++ [0] }.addLazy name ⟨g, false, s.tallies.length⟩
  | .cloneLazy name source =>
    match s.lazies.find? source with
    | some p => s.addLazy name p
    | none => (s, .unknown source)
  | .lazyState name =>
    match s.lazies.find? name with
    | some p => (s, .lazyState p.built (s.tallies.getD p.tally 0))
    | none => (s, .unknown name)

/-- All steps of a session one after the other, with their answers. -/
def run (depth : Nat) (s : Session) : List Step → Session × List Answer
  | [] => (s, [])
  | step :: steps =>
    let (s, answer) := s.step depth step
    let (s, answers) := s.run depth steps
    (s, answer :: answers)

end Session

end Descent
