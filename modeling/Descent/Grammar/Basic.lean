import Descent.Parser.Projection
import Descent.Terminal
import Descent.Value.Operation

/-!
# Grammars

A grammar says how a parser is put together. It is data: it can be built, stored under a name, and
run in different surroundings. Grammars refer to one another by name, which makes recursion
possible.

Every terminal of a grammar is under the influence of the innermost `terminals` around it: the
wrapper given there says how a terminal is matched, for example with white space skipped on both
sides. The grammar inside a wrapper is itself not under any influence.

* `Grammar.induct`: structural induction, in which the parts of a list all satisfy the hypothesis.
-/

namespace Descent

/-- A parser that looks at its surroundings instead of the text, or does not behave. -/
inductive Probe where
  /-- finds the location, as a list of line and column -/
  | location
  /-- finds whether terminals are wrapped -/
  | wrapped
  /-- moves the location behind `text` without consuming anything -/
  | advance (text : Text)
  /-- succeeds from column `n` on -/
  | columnAtLeast (n : Nat)
  /-- fails with a message -/
  | reject (message : Text)
  /-- fails with a message, and with a rest that lacks the first character -/
  | rejectPast (message : Text)

/-- A way to match a terminal `t`, where `γ` is the type of grammars. -/
inductive Wrapper (γ : Type) where
  /-- `t` between two matches of `ignored` -/
  | skip (ignored : γ)
  /-- `t` -/
  | identity
  /-- `t`, in capitals -/
  | upper
  /-- `t` two times, with the two texts joined -/
  | twice
  /-- `t`, which is called a token where it fails -/
  | expect
  /-- `t` between single quotes -/
  | quote
  /-- `t`, provided that it matches some text -/
  | nonempty
  /-- `t`, or else a star -/
  | orStar
  /-- `t`, or the empty text -/
  | opt
  /-- `t` any number of times, with the texts joined -/
  | many

/-- A part of a record: with a key, its value is a field. -/
structure Field (γ : Type) where
  /-- the key, if there is one -/
  key : Option String
  /-- the part -/
  part : γ

/-- A reference to a grammar. -/
inductive Reference where
  /-- the grammar that the cell of this name holds, if it holds one by then -/
  | cell (name : String)
  /-- the grammar that was defined under this name from the start -/
  | definition (name : String)
  deriving DecidableEq

/-- A grammar, with patterns in `ρ`. -/
inductive Grammar (ρ : Type) where
  /-- a terminal -/
  | terminal (t : Terminal ρ)
  /-- a terminal that no wrapper influences -/
  | bare (t : Terminal ρ)
  /-- a parser that looks at its surroundings -/
  | probe (q : Probe)
  /-- a reference -/
  | ref (r : Reference)
  /-- all parts one after the other -/
  | seq (ps : List (Grammar ρ))
  /-- all parts one after the other, with fields for the values of some -/
  | record (fields : List (Field (Grammar ρ)))
  /-- `inner` between `left` and `right` -/
  | between (left right inner : Grammar ρ)
  /-- the first part that succeeds -/
  | choice (ps : List (Grammar ρ))
  /-- `p`, or nothing -/
  | opt (p : Grammar ρ)
  /-- rounds of `p`, perhaps none -/
  | many (p : Grammar ρ)
  /-- rounds of `p`, at least one -/
  | many1 (p : Grammar ρ)
  /-- items with separators between them -/
  | sepBy (item separator : Grammar ρ)
  /-- items up to a match of `stop` -/
  | manyTill (item stop : Grammar ρ)
  /-- `p`, with its terminals wrapped -/
  | terminals (w : Wrapper (Grammar ρ)) (p : Grammar ρ)
  /-- `p`, with another value -/
  | map (f : Transform) (p : Grammar ρ)
  /-- `p`, with another value or a failure -/
  | tryMap (f : Extraction) (p : Grammar ρ)
  /-- `p`, provided that its value meets a condition -/
  | filter (f : Condition) (p : Grammar ρ)
  /-- `p`, with a fixed value -/
  | replace (value : Value) (p : Grammar ρ)
  /-- an entry of the list that `p` finds -/
  | nth (n : Nat) (p : Grammar ρ)
  /-- entries of the list that `p` finds -/
  | select (indices : List Nat) (p : Grammar ρ)
  /-- a part of the list that `p` finds -/
  | slice (part : Slice) (p : Grammar ρ)
  /-- the record that `p` finds, with a field set -/
  | put (key : String) (value : Value) (p : Grammar ρ)
  /-- `p`, with a message where it fails -/
  | expect (description : Text) (p : Grammar ρ)
  /-- `p`, with its span -/
  | span (p : Grammar ρ)
  /-- `p`, on the first `n` characters -/
  | window (n : Nat) (p : Grammar ρ)

namespace Grammar

variable {ρ : Type}

/-! ## Grammars made of others -/

/-- A given text. -/
def literal (text : Text) : Grammar ρ :=
  terminal (.literal text)

/-- Any one character. -/
def any : Grammar ρ :=
  terminal (.run (fun _ => true) 1 (some 1))

/-- One digit. -/
def digit : Grammar ρ :=
  terminal (.run Char.isDigit 1 (some 1))

/-- White space, perhaps none. -/
def whitespace : Grammar ρ :=
  terminal (.run Text.isWhiteSpace 0 none)

/-- An integer: one or more digits, whose value is in range. -/
def integer : Grammar ρ :=
  tryMap .readInt (terminal (.run Char.isDigit 1 none))

/-- Items with commas between them. -/
def commaList (item : Grammar ρ) : Grammar ρ :=
  sepBy item (literal [','])

/-- `inner` between two matches of `quote`. -/
def quoted (quote inner : Grammar ρ) : Grammar ρ :=
  between quote quote inner

/-- `p` between two matches of `ignored`, which are not kept. -/
def skipAround (ignored p : Grammar ρ) : Grammar ρ :=
  between ignored ignored p

/-- A choice built from the left, two alternatives at a time. -/
def orChain (p : Grammar ρ) (ps : List (Grammar ρ)) : Grammar ρ :=
  ps.foldl (fun chain q => choice [chain, q]) p

end Grammar

/-! ## Induction -/

/-- A wrapper whose grammar, if it has one, satisfies `P`. -/
def Wrapper.Forall {γ : Type} (P : γ → Prop) : Wrapper γ → Prop
  | skip g => P g
  | _ => True

/-- Structural induction on grammars. The parts that come as a list, in fields or inside a wrapper
all satisfy the hypothesis. -/
@[elab_as_elim, induction_eliminator]
theorem Grammar.induct {ρ : Type} {motive : Grammar ρ → Prop}
    (terminal : ∀ t, motive (.terminal t))
    (bare : ∀ t, motive (.bare t))
    (probe : ∀ q, motive (.probe q))
    (ref : ∀ r, motive (.ref r))
    (seq : ∀ ps, (∀ p ∈ ps, motive p) → motive (.seq ps))
    (record : ∀ fields : List (Field (Grammar ρ)),
      (∀ f ∈ fields, motive f.part) → motive (.record fields))
    (between : ∀ left right inner, motive left → motive right → motive inner →
      motive (.between left right inner))
    (choice : ∀ ps, (∀ p ∈ ps, motive p) → motive (.choice ps))
    (opt : ∀ p, motive p → motive (.opt p))
    (many : ∀ p, motive p → motive (.many p))
    (many1 : ∀ p, motive p → motive (.many1 p))
    (sepBy : ∀ item separator, motive item → motive separator → motive (.sepBy item separator))
    (manyTill : ∀ item stop, motive item → motive stop → motive (.manyTill item stop))
    (terminals : ∀ w p, w.Forall motive → motive p → motive (.terminals w p))
    (map : ∀ f p, motive p → motive (.map f p))
    (tryMap : ∀ f p, motive p → motive (.tryMap f p))
    (filter : ∀ f p, motive p → motive (.filter f p))
    (replace : ∀ value p, motive p → motive (.replace value p))
    (nth : ∀ n p, motive p → motive (.nth n p))
    (select : ∀ indices p, motive p → motive (.select indices p))
    (slice : ∀ part p, motive p → motive (.slice part p))
    (put : ∀ key value p, motive p → motive (.put key value p))
    (expect : ∀ description p, motive p → motive (.expect description p))
    (span : ∀ p, motive p → motive (.span p))
    (window : ∀ n p, motive p → motive (.window n p))
    (g : Grammar ρ) : motive g :=
  @Grammar.rec ρ motive (fun ps => ∀ p ∈ ps, motive p) (fun fields => ∀ f ∈ fields, motive f.part)
    (fun w => w.Forall motive) (fun f => motive f.part)
    terminal bare probe ref seq record between choice opt many many1 sepBy manyTill terminals map
    tryMap filter replace nth select slice put expect span window
    (fun _ h => nomatch h)
    (fun _ _ hp hps _ hq => (List.mem_cons.mp hq).elim (fun h => h ▸ hp) (hps _))
    (fun _ h => nomatch h)
    (fun _ _ hf hfs _ hq => (List.mem_cons.mp hq).elim (fun h => h ▸ hf) (hfs _))
    (fun _ h => h) trivial trivial trivial trivial trivial trivial trivial trivial trivial
    (fun _ _ h => h) g

end Descent
