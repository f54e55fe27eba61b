import Descent.Grammar.Build
import Descent.Parser.Choice
import Descent.Parser.Diagnostic
import Descent.Parser.Repetition
import Descent.Parser.Sequence

/-!
# The parser of a grammar

Every grammar has a parser, given what references lead to and how terminals are wrapped where the
grammar stands. The parser is put together along the grammar. A reference is followed when it is
reached, and counts against a limit on how deeply references may be nested; a parser that needs
more gives no answer. No other part of a grammar is limited.

* `Grammar.denote`: the parser of a grammar, given the parsers of references.
* `Rules.resolve`: the parser of a reference.
* `Grammar.parser`: the parser of a grammar under rules.
-/

namespace Descent

/-- How terminals are matched: by themselves, or with a wrapper. -/
abbrev Ambient (κ : Type) := Option (Parser κ Text → Parser κ Text)

variable {κ : Type} [Clock κ]

/-- The parser of a terminal in its surroundings. -/
def Ambient.apply (a : Ambient κ) (t : Terminal Regex.Program) : Parser κ Text :=
  match a with
  | none => t.parser
  | some wrap => wrap t.parser

/-- The parser of a probe, given whether terminals are wrapped. -/
def Probe.parser (isWrapped : Bool) : Probe → Parser κ Value
  | location => fun k s =>
    let l := Clock.location k
    some ⟨.success (.list [.int l.line, .int l.col]) s, k⟩
  | wrapped => .succeed (.bool isWrapped)
  | advance text => fun k s => some ⟨.success .null s, Clock.advance k text⟩
  | columnAtLeast n => fun k s =>
    if n ≤ (Clock.location k).col then some ⟨.success (.str "col".toList) s, k⟩
    else some ⟨.failure s none, k⟩
  | reject message => fun k s => some ⟨.failure s (some message), k⟩
  | rejectPast message => fun k s => some ⟨.failure (s.drop 1) (some message), k⟩

namespace Grammar

/-! ## Parsers with values of their own -/

/-- The list that a parser finds. Another value is a failure. -/
def asList (p : Parser κ Value) : Parser κ (List Value) :=
  p.tryMap Value.list?

/-- The record that a parser finds. Another value is a failure. -/
def asRecord (p : Parser κ Value) : Parser κ (Fields Value) :=
  p.tryMap Value.record?

/-! ## Denotation -/

mutual
/-- The parser of a grammar. The parsers of references are given by `resolve`. -/
def denote (resolve : Reference → Ambient κ → Parser κ Value) :
    Grammar Regex.Program → Ambient κ → Parser κ Value
  | terminal t, a => .map .str (a.apply t)
  | bare t, _ => .map .str t.parser
  | probe q, a => q.parser a.isSome
  | ref r, a => resolve r a
  | seq ps, a => .map .list (.seq (denoteAll resolve ps a))
  | record fields, a => .map .record (.record (denoteFields resolve fields a))
  | between left right inner, a =>
    .between (left.denote resolve a) (right.denote resolve a) (inner.denote resolve a)
  | choice ps, a => .choice (denoteAll resolve ps a)
  | opt p, a => .map .ofOption (.opt (p.denote resolve a))
  | many p, a => .map .list (.many (p.denote resolve a))
  | many1 p, a => .map .list (.many1 (p.denote resolve a))
  | sepBy item separator, a =>
    .map .list (.sepBy (item.denote resolve a) (separator.denote resolve a))
  | manyTill item stop, a =>
    .map .list (.manyTill (item.denote resolve a) (stop.denote resolve a))
  | terminals w p, _ => p.denote resolve (some (denoteWrapper resolve w))
  | map f p, a => .map f.apply (p.denote resolve a)
  | tryMap f p, a => .tryMap f.apply (p.denote resolve a)
  | filter f p, a => .filter f.holds (p.denote resolve a)
  | replace value p, a => .map (fun _ => value) (p.denote resolve a)
  | nth n p, a => .nth n (asList (p.denote resolve a))
  | select indices p, a => .map .list (.select indices (asList (p.denote resolve a)))
  | slice part p, a => .map .list (.slice part (asList (p.denote resolve a)))
  | put key value p, a => .map .record (.put key value (asRecord (p.denote resolve a)))
  | expect description p, a => .expect description (p.denote resolve a)
  | span p, a => .map .ofSpanned (.span (p.denote resolve a))
  | window n p, a => .window n (p.denote resolve a)

/-- The parsers of several grammars. -/
def denoteAll (resolve : Reference → Ambient κ → Parser κ Value) :
    List (Grammar Regex.Program) → Ambient κ → List (Parser κ Value)
  | [], _ => []
  | p :: ps, a => p.denote resolve a :: denoteAll resolve ps a

/-- The parsers of the fields of a record. -/
def denoteFields (resolve : Reference → Ambient κ → Parser κ Value) :
    List (Field (Grammar Regex.Program)) → Ambient κ → List (Option String × Parser κ Value)
  | [], _ => []
  | f :: fields, a => denoteField resolve f a :: denoteFields resolve fields a

/-- The parser of a field. -/
def denoteField (resolve : Reference → Ambient κ → Parser κ Value) :
    Field (Grammar Regex.Program) → Ambient κ → Option String × Parser κ Value
  | ⟨key, part⟩, a => (key, part.denote resolve a)

/-- How a wrapper matches a terminal. Inside the wrapper nothing is wrapped. -/
def denoteWrapper (resolve : Reference → Ambient κ → Parser κ Value) :
    Wrapper (Grammar Regex.Program) → Parser κ Text → Parser κ Text
  | .skip ignored, t => .between (ignored.denote resolve none) (ignored.denote resolve none) t
  | .identity, t => t
  | .upper, t => .map (List.map Char.toUpper) t
  | .twice, t => .map List.flatten (.seq [t, t])
  | .expect, t => .expect "token".toList t
  | .quote, t => .between (Terminal.literal ['\'']).parser (Terminal.literal ['\'']).parser t
  | .nonempty, t => .filter (!·.isEmpty) t
  | .orStar, t => .choice [t, (Terminal.literal ['*']).parser]
  | .opt, t => .map (·.getD []) (.opt t)
  | .many, t => .map List.flatten (.many t)
end

theorem denoteAll_eq_map (resolve : Reference → Ambient κ → Parser κ Value)
    (ps : List (Grammar Regex.Program)) (a : Ambient κ) :
    denoteAll resolve ps a = ps.map (·.denote resolve a) := by
  induction ps with
  | nil => rfl
  | cons p ps ih => rw [denoteAll, ih, List.map_cons]

theorem denoteFields_eq_map (resolve : Reference → Ambient κ → Parser κ Value)
    (fields : List (Field (Grammar Regex.Program))) (a : Ambient κ) :
    denoteFields resolve fields a = fields.map fun f => (f.key, f.part.denote resolve a) := by
  induction fields with
  | nil => rfl
  | cons f fields ih =>
    rw [denoteFields, ih, List.map_cons]
    cases f
    rfl

end Grammar

/-! ## References -/

/-- The parser of a reference, which may be nested at most as deeply as the first argument says. A
reference that leads nowhere fails. -/
def Rules.resolve (rules : Rules) : Nat → Reference → Ambient κ → Parser κ Value
  | 0, _, _ => fun _ _ => none
  | depth + 1, r, a =>
    match rules.find? r with
    | some g => g.denote (rules.resolve depth) a
    | none => .fail

/-- How deeply references may be nested where nothing else is said. -/
def Rules.defaultDepth : Nat := 1000000

/-- How a wrapper, if there is one, matches terminals. -/
def Rules.ambient (rules : Rules) (depth : Nat) (w : Option (Wrapper (Grammar Regex.Program))) :
    Ambient κ :=
  w.map (Grammar.denoteWrapper (rules.resolve depth))

/-- The parser of a grammar under rules, with terminals wrapped as `w` says. -/
def Grammar.parser (rules : Rules) (depth : Nat) (w : Option (Wrapper (Grammar Regex.Program)))
    (g : Grammar Regex.Program) : Parser κ Value :=
  g.denote (rules.resolve depth) (rules.ambient depth w)

end Descent
