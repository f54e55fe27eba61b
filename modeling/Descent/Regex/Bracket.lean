import Descent.Regex.Escape

/-!
# Bracketed sets

The sets between `[` and `]`. A bracketed set lists characters, ranges, named sets such as
`[:alpha:]`, escapes and further bracketed sets; `&&`, `--` and `~~` between two such lists stand
for intersection, difference and symmetric difference, and group to the left. A `^` behind the
opening bracket negates the set.

Whether case matters is decided by the flags in force where the set stands, so reading yields an
expression (`ClassExpr`), and `ClassExpr.toSet` gives its set.

* `ClassExpr.depth`: how deeply an expression is nested.
* `bracket?`: reads a bracketed set, without its opening bracket.
-/

namespace Descent.Regex

/-! ## Expressions -/

/-- The sets with a name, all within ASCII. -/
inductive NamedSet where
  | alnum | alpha | ascii | blank | cntrl | digit | graph | lower | print | punct | space | upper
  | word | xdigit

namespace NamedSet

/-- The set with the given name. -/
def ofName? (name : Text) : Option NamedSet :=
  match String.ofList name with
  | "alnum" => some alnum
  | "alpha" => some alpha
  | "ascii" => some ascii
  | "blank" => some blank
  | "cntrl" => some cntrl
  | "digit" => some digit
  | "graph" => some graph
  | "lower" => some lower
  | "print" => some print
  | "punct" => some punct
  | "space" => some space
  | "upper" => some upper
  | "word" => some word
  | "xdigit" => some xdigit
  | _ => none

/-- The members of a named set. -/
def toSet : NamedSet → CharSet
  | alnum => .ofChars [('0', '9'), ('A', 'Z'), ('a', 'z')]
  | alpha => .ofChars [('A', 'Z'), ('a', 'z')]
  | ascii => .range '\x00' '\x7f'
  | blank => .ofChars [('\t', '\t'), (' ', ' ')]
  | cntrl => .ofChars [('\x00', '\x1f'), ('\x7f', '\x7f')]
  | digit => .range '0' '9'
  | graph => .range '!' '~'
  | lower => .range 'a' 'z'
  | print => .range ' ' '~'
  | punct => .ofChars [('!', '/'), (':', '@'), ('[', '\x60'), ('\x7b', '~')]
  | space => .ofChars [('\t', '\r'), (' ', ' ')]
  | upper => .range 'A' 'Z'
  | word => .ofChars [('0', '9'), ('A', 'Z'), ('_', '_'), ('a', 'z')]
  | xdigit => .ofChars [('0', '9'), ('A', 'F'), ('a', 'f')]

end NamedSet

/-- The operations between two lists of a bracketed set. -/
inductive SetOperator where
  | inter | diff | symmDiff

/-- The set that an operation makes of two sets. -/
def SetOperator.apply : SetOperator → CharSet → CharSet → CharSet
  | inter => CharSet.inter
  | diff => CharSet.diff
  | symmDiff => CharSet.symmDiff

/-- What stands between brackets. A list of several members is a union whose first part is the first
member. -/
inductive ClassExpr where
  /-- nothing -/
  | none
  /-- a character or a range -/
  | range (first last : Char)
  /-- a set written as an escape, to which case makes no difference -/
  | escaped (s : CharSet)
  /-- a named set, perhaps negated -/
  | named (negated : Bool) (n : NamedSet)
  /-- the first member of a list, and the others -/
  | union (a b : ClassExpr)
  /-- two lists with an operation between them -/
  | operation (op : SetOperator) (a b : ClassExpr)
  /-- a bracketed set, perhaps negated -/
  | bracket (negated : Bool) (a : ClassExpr)

namespace ClassExpr

/-- The list of the given members. -/
def ofMembers : List ClassExpr → ClassExpr
  | [] => none
  | [e] => e
  | e :: f :: es => union e (ofMembers (f :: es))

/-- How deep brackets, operators and lists of several members are nested. -/
def depth : ClassExpr → Nat
  | none => 0
  | range _ _ => 0
  | escaped _ => 0
  | named _ _ => 0
  | union a (union b c) => max (a.depth + 1) (union b c).depth
  | union a b => max a.depth b.depth + 1
  | operation _ a b => max a.depth b.depth + 1
  | bracket _ a => a.depth + 1

/-- The set that an expression stands for. Where case is ignored, each bracketed set, each named
set and each operand is closed under change of case, before it is negated. -/
def toSet (ignoreCase : Bool) : ClassExpr → CharSet
  | none => .none
  | range first last => .range first last
  | escaped s => s
  | named negated n => (n.toSet.withCase ignoreCase).negatedIf negated
  | union a b => (a.toSet ignoreCase).union (b.toSet ignoreCase)
  | operation op a b =>
    op.apply ((a.toSet ignoreCase).withCase ignoreCase) ((b.toSet ignoreCase).withCase ignoreCase)
  | bracket negated a => ((a.toSet ignoreCase).withCase ignoreCase).negatedIf negated

end ClassExpr

/-! ## Parts of a bracketed set -/

/-- One of the characters or escapes that a range may join. -/
def rangeEnd? : Text → Option (Escape × Text)
  | [] => none
  | '\\' :: s => escape? s
  | c :: s => some (.literal c, s)

/-- A character or an escape as a member of a bracketed set. Assertions are none. -/
def member? : Escape → Option ClassExpr
  | .literal c => some (.range c c)
  | .set s => some (.escaped s)
  | .assertion _ => none

/-- Reads a character, an escape, or a range. A hyphen joins a range unless the set ends behind
it or it starts an operator. -/
def range? (s : Text) : Option (ClassExpr × Text) :=
  match rangeEnd? s with
  | none => none
  | some (first, '-' :: c :: rest) =>
    if c = ']' ∨ c = '-' then (member? first).map (·, '-' :: c :: rest)
    else match first, rangeEnd? (c :: rest) with
      | .literal a, some (.literal b, rest) => if a ≤ b then some (.range a b, rest) else none
      | _, _ => none
  | some (first, rest) => (member? first).map (·, rest)

/-- Reads the name of a named set, without its opening bracket. -/
def named? : Text → Option (ClassExpr × Text)
  | ':' :: s =>
    let (negated, s) := match s with
      | '^' :: s => (true, s)
      | s => (false, s)
    match s.dropWhile (· ≠ ':') with
    | ':' :: ']' :: rest =>
      (NamedSet.ofName? (s.takeWhile (· ≠ ':'))).map (.named negated ·, rest)
    | _ => none
  | _ => none

/-- A bracketed set that is being read: the list read last, and the list and operator before
it. -/
structure ClassLevel where
  /-- whether the set is negated -/
  negated : Bool
  /-- what stands before the current list -/
  pending : Option (SetOperator × ClassExpr) := none
  /-- the members of the current list, the last one first -/
  members : List ClassExpr := []

namespace ClassLevel

/-- Adds a member to the current list. -/
def push (l : ClassLevel) (e : ClassExpr) : ClassLevel :=
  { l with members := e :: l.members }

/-- The current list. -/
def list (l : ClassLevel) : ClassExpr :=
  .ofMembers l.members.reverse

/-- Everything read so far. -/
def contents (l : ClassLevel) : ClassExpr :=
  match l.pending with
  | none => l.list
  | some (op, a) => .operation op a l.list

/-- Starts another list behind an operator. -/
def operator (l : ClassLevel) (op : SetOperator) : ClassLevel :=
  { l with pending := some (op, l.contents), members := [] }

/-- The finished set. -/
def close (l : ClassLevel) : ClassExpr :=
  .bracket l.negated l.contents

end ClassLevel

/-- Reads the start of a bracketed set behind its opening bracket: a `^`, then hyphens that stand
for themselves, and without these a closing bracket that stands for itself. -/
def opening (s : Text) : ClassLevel × Text :=
  let (negated, s) := match s with
    | '^' :: s => (true, s)
    | s => (false, s)
  match s with
  | '-' :: _ =>
    ({ negated, members := (s.takeWhile (· = '-')).map fun c => .range c c },
      s.dropWhile (· = '-'))
  | ']' :: s => ({ negated, members := [.range ']' ']'] }, s)
  | s => ({ negated }, s)

/-! ## Reading -/

/-- A piece of a bracketed set. -/
inductive ClassToken where
  /-- a member -/
  | item (e : ClassExpr)
  /-- an operator -/
  | operator (op : SetOperator)
  /-- the start of an inner set -/
  | opening (l : ClassLevel)
  /-- a closing bracket -/
  | closing

/-- Reads one piece of a bracketed set. -/
def classToken? (s : Text) : Option (ClassToken × Text) :=
  match s with
  | '[' :: s =>
    match named? s with
    | some (e, rest) => some (.item e, rest)
    | none => some (.opening (opening s).1, (opening s).2)
  | ']' :: s => some (.closing, s)
  | '&' :: '&' :: s => some (.operator .inter, s)
  | '-' :: '-' :: s => some (.operator .diff, s)
  | '~' :: '~' :: s => some (.operator .symmDiff, s)
  | s => (range? s).map fun r => (.item r.1, r.2)

/-- Reads the rest of the set `l`, which stands inside the sets `outer`. The first argument bounds
the number of pieces. -/
def classRest? : Nat → ClassLevel → List ClassLevel → Text → Option (ClassExpr × Text)
  | 0, _, _, _ => none
  | n + 1, l, outer, s =>
    match classToken? s with
    | none => none
    | some (.item e, s) => classRest? n (l.push e) outer s
    | some (.operator op, s) => classRest? n (l.operator op) outer s
    | some (.opening inner, s) => classRest? n inner (l :: outer) s
    | some (.closing, s) =>
      match outer with
      | [] => some (l.close, s)
      | o :: outer => classRest? n (o.push l.close) outer s

/-- Reads a bracketed set behind its opening bracket. Each piece takes at least one character, so
the length of the text bounds the number of pieces. -/
def bracket? (s : Text) : Option (ClassExpr × Text) :=
  classRest? s.length (opening s).1 [] (opening s).2

end Descent.Regex
