import Descent.Grammar.Basic

/-!
# Building grammars

A grammar is written down with the sources of its patterns. Building it compiles the sources, part
by part in the order in which they are written, and the first source that is no regular expression
makes the grammar invalid. Definitions are built in their order and stored under their names, and a
name can be defined only once.

An error tells which source is no regular expression, but not what is wrong with it. That would be
for the engine to say, and its words are left out: the message stops where they would begin.

* `Grammar.build`: compiles the patterns of a grammar.
* `Rules.define`: stores a grammar under a name that is still free.
-/

namespace Descent

/-! ## Errors -/

/-- What can be wrong with a grammar. -/
inductive GrammarError where
  /-- A source is no regular expression. -/
  | invalidPattern (source : Text)
  /-- A name is defined a second time. -/
  | alreadyDefined (name : String)
  deriving DecidableEq

/-- The text of an error, of an invalid pattern up to the colon behind its source. -/
def GrammarError.message : GrammarError → Text
  | invalidPattern source => "invalid pattern \x60".toList ++ source ++ "\x60: ".toList
  | alreadyDefined name =>
    "forward reference \x60".toList ++ name.toList ++ "\x60 is already defined".toList

/-! ## Patterns -/

/-- The source of a pattern. -/
inductive PatternSource where
  /-- a source that is put between the start of the text and its own end -/
  | anchored (source : Text)
  /-- a source that is taken as it is -/
  | plain (source : Text)

/-- The regular expression of a source. -/
def PatternSource.compile : PatternSource → Except GrammarError Regex.Program
  | anchored source =>
    match Regex.compile? (Regex.anchored source) with
    | some r => .ok r
    | none => .error (.invalidPattern source)
  | plain source =>
    match Regex.compile? source with
    | some r => .ok r
    | none => .error (.invalidPattern source)

/-- Compiles the pattern of a terminal. -/
def Terminal.build : Terminal PatternSource → Except GrammarError (Terminal Regex.Program)
  | literal text => .ok (.literal text)
  | pattern p => p.compile.map .pattern
  | run test min max => .ok (.run test min max)

/-! ## Grammars -/

namespace Grammar

mutual
/-- Compiles the patterns of a grammar, in the order in which they are written. -/
def build : Grammar PatternSource → Except GrammarError (Grammar Regex.Program)
  | terminal t => t.build.map .terminal
  | bare t => t.build.map .bare
  | probe q => .ok (.probe q)
  | ref r => .ok (.ref r)
  | seq ps => (buildAll ps).map .seq
  | record fields => (buildFields fields).map .record
  | between left right inner => do
    let left ← left.build
    let right ← right.build
    let inner ← inner.build
    return .between left right inner
  | choice ps => (buildAll ps).map .choice
  | opt p => p.build.map .opt
  | many p => p.build.map .many
  | many1 p => p.build.map .many1
  | sepBy item separator => do
    let item ← item.build
    let separator ← separator.build
    return .sepBy item separator
  | manyTill item stop => do
    let item ← item.build
    let stop ← stop.build
    return .manyTill item stop
  | terminals w p => do
    let w ← buildWrapper w
    let p ← p.build
    return .terminals w p
  | map f p => p.build.map (.map f)
  | tryMap f p => p.build.map (.tryMap f)
  | filter f p => p.build.map (.filter f)
  | replace value p => p.build.map (.replace value)
  | nth n p => p.build.map (.nth n)
  | select indices p => p.build.map (.select indices)
  | slice part p => p.build.map (.slice part)
  | put key value p => p.build.map (.put key value)
  | expect description p => p.build.map (.expect description)
  | span p => p.build.map .span
  | window n p => p.build.map (.window n)

/-- Compiles the patterns of several grammars. -/
def buildAll : List (Grammar PatternSource) → Except GrammarError (List (Grammar Regex.Program))
  | [] => .ok []
  | p :: ps => do
    let p ← p.build
    let ps ← buildAll ps
    return p :: ps

/-- Compiles the patterns of the fields of a record. -/
def buildFields : List (Field (Grammar PatternSource)) →
    Except GrammarError (List (Field (Grammar Regex.Program)))
  | [] => .ok []
  | f :: fields => do
    let f ← buildField f
    let fields ← buildFields fields
    return f :: fields

/-- Compiles the patterns of a field. -/
def buildField : Field (Grammar PatternSource) → Except GrammarError (Field (Grammar Regex.Program))
  | ⟨key, part⟩ => part.build.map (⟨key, ·⟩)

/-- Compiles the patterns of a wrapper. -/
def buildWrapper :
    Wrapper (Grammar PatternSource) → Except GrammarError (Wrapper (Grammar Regex.Program))
  | .skip g => g.build.map .skip
  | .identity => .ok .identity
  | .upper => .ok .upper
  | .twice => .ok .twice
  | .expect => .ok .expect
  | .quote => .ok .quote
  | .nonempty => .ok .nonempty
  | .orStar => .ok .orStar
  | .opt => .ok .opt
  | .many => .ok .many
end

end Grammar

/-! ## Rules -/

/-- The grammars that references lead to. -/
structure Rules where
  /-- the cells that hold a grammar -/
  cells : Fields (Grammar Regex.Program) := []
  /-- the grammars that were defined from the start -/
  definitions : Fields (Grammar Regex.Program) := []

namespace Rules

/-- The grammar that a reference leads to, if there is one. -/
def find? (rules : Rules) : Reference → Option (Grammar Regex.Program)
  | .cell name => rules.cells.find? name
  | .definition name => rules.definitions.find? name

/-- Whether the cell of a name holds a grammar. -/
def isDefined (rules : Rules) (name : String) : Bool :=
  (rules.cells.find? name).isSome

/-- Puts a grammar into the cell of a name. A cell that holds a grammar is never changed. -/
def define (rules : Rules) (name : String) (g : Grammar Regex.Program) :
    Except GrammarError Rules :=
  if rules.isDefined name then .error (.alreadyDefined name)
  else .ok { rules with cells := rules.cells.insert name g }

/-- Builds a grammar and puts it into the cell of a name. -/
def buildAndDefine (rules : Rules) (name : String) (g : Grammar PatternSource) :
    Except GrammarError Rules := do
  rules.define name (← g.build)

/-- The rules with the given definitions, which are built one after the other. -/
def ofDefinitions (defs : List (String × Grammar PatternSource)) : Except GrammarError Rules := do
  let rules ← defs.foldlM (fun rules d => buildAndDefine rules d.1 d.2) {}
  return { rules with definitions := rules.cells }

end Rules

end Descent
