import Descent.Regex.Basic
import Descent.Regex.Token

/-!
# Reading

Reading builds a regular expression from tokens. The reader keeps the groups that are open, and for
each of them the flags in force, the finished branches and the parts of the current branch.

* `Reader.step`: reads a token.
* `read?`: the expression with the given tokens.
-/

namespace Descent.Regex

/-- Something that has been read. -/
structure Piece where
  /-- its expression -/
  regex : Regex
  /-- how deep groups, repetitions, bracketed sets, sequences and choices are nested in it -/
  depth : Nat := 0
  /-- whether it can be repeated -/
  repeatable : Bool := true

namespace Piece

/-- The largest depth among pieces. -/
def maxDepth (ps : List Piece) : Nat :=
  ps.foldl (fun n p => max n p.depth) 0

/-- Pieces one after the other. A run of several pieces counts as one level of nesting. -/
def sequence : List Piece → Piece
  | [] => { regex := .empty }
  | [p] => p
  | ps => { regex := concat (ps.map regex), depth := maxDepth ps + 1 }

/-- A choice between pieces. A choice counts as one level of nesting. -/
def choice : List Piece → Piece
  | [] => { regex := .empty }
  | [p] => p
  | ps => { regex := Regex.choice (ps.map regex), depth := maxDepth ps + 1 }

end Piece

/-- What starts a group. -/
inductive Opening where
  /-- a group that captures, with its number -/
  | capture (index : Nat)
  /-- a group that does not capture -/
  | plain

/-- A group of the given kind. -/
def Opening.group (o : Opening) (p : Piece) : Piece :=
  match o with
  | capture index => { regex := .group index p.regex, depth := p.depth + 1 }
  | plain => { regex := p.regex, depth := p.depth + 1 }

/-- A group that is being read. -/
structure Level where
  /-- what started the group -/
  opening : Opening := .plain
  /-- the flags in force -/
  flags : Flags := {}
  /-- the finished branches, the last one first -/
  branches : List Piece := []
  /-- the parts of the current branch, the last one first -/
  parts : List Piece := []

namespace Level

/-- Adds a part to the current branch. -/
def push (l : Level) (p : Piece) : Level :=
  { l with parts := p :: l.parts }

/-- The current branch. -/
def branch (l : Level) : Piece :=
  .sequence l.parts.reverse

/-- What stands in the group. -/
def contents (l : Level) : Piece :=
  .choice (l.branch :: l.branches).reverse

/-- The whole group. -/
def close (l : Level) : Piece :=
  l.opening.group l.contents

end Level

/-- What has been read so far: the innermost group, the groups around it, and the groups that
capture. -/
structure Reader where
  /-- the innermost group -/
  level : Level := {}
  /-- the groups around it, from the inside to the outside -/
  outer : List Level := []
  /-- the number of groups that capture -/
  captures : Nat := 0
  /-- the names of groups -/
  names : List Text := []

namespace Reader

/-- Adds a part to the current branch. -/
def push (r : Reader) (p : Piece) : Reader :=
  { r with level := r.level.push p }

/-- Starts a group with the given flags. -/
def «open» (r : Reader) (opening : Opening) (flags : Flags) : Reader :=
  { r with level := { opening, flags }, outer := r.level :: r.outer }

/-- Starts a group that captures. -/
def openCapture (r : Reader) : Reader :=
  { r.open (.capture (r.captures + 1)) r.level.flags with captures := r.captures + 1 }

/-- Reads a token. A group cannot be closed that was not opened, only a piece that is no change of
flags can be repeated, and no two groups have the same name. -/
def step (r : Reader) (t : Token) : Option Reader :=
  let flags := r.level.flags
  match t with
  | .literal c => some (r.push { regex := ofSet ((CharSet.single c).withCase flags.ignoreCase) })
  | .dot =>
    some (r.push { regex := .set (if flags.dotAll then .any else (CharSet.single '\n').compl) })
  | .caret =>
    some (r.push { regex := .assertion (if flags.multiLine then .lineStart else .textStart) })
  | .dollar =>
    some (r.push { regex := .assertion (if flags.multiLine then .lineEnd else .textEnd) })
  | .set e => some (r.push { regex := ofSet (e.toSet flags.ignoreCase), depth := e.depth })
  | .assertion a => some (r.push { regex := .assertion a })
  | .bar =>
    some { r with
      level := { r.level with branches := r.level.branch :: r.level.branches, parts := [] } }
  | .capture none => some r.openCapture
  | .capture (some name) =>
    if name ∈ r.names then none else some { r.openCapture with names := name :: r.names }
  | .scope change => some (r.open .plain (change.apply flags))
  | .flags change =>
    some { r with
      level := { r.level with flags := change.apply flags }.push
        { regex := .empty, repeatable := false } }
  | .close =>
    match r.outer with
    | [] => none
    | l :: outer => some { r with level := l.push r.level.close, outer }
  | .repetition rep =>
    match r.level.parts with
    | [] => none
    | p :: parts =>
      if p.repeatable then
        some { r with
          level := { r.level with
            parts := { regex := repeated rep p.regex, depth := p.depth + 1 } :: parts } }
      else none

/-- What was read, if all groups are closed. -/
def finish? (r : Reader) : Option Piece :=
  match r.outer with
  | [] => some r.level.contents
  | _ :: _ => none

end Reader

/-- The expression with the given tokens. -/
def read? (tokens : List Token) : Option Piece :=
  (tokens.foldlM Reader.step {}).bind Reader.finish?

end Descent.Regex
