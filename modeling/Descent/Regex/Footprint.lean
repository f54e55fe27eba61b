import Descent.Regex.Basic
import Descent.Regex.Utf8
import Std.Data.HashMap

/-!
# Footprints

The size of a regular expression is the memory of its two automata over bytes in UTF-8, one that
reads a text forward and one that reads it backward. Expressions with an automaton of more than ten
mebibytes are refused.

A state takes 32 bytes, and besides 4 bytes for each way that a choice leaves open, and 8 bytes for
each range of bytes where it reads one of several ranges. States are numbered in the order in which
they are made. The automaton of a set of characters shares states: a table of fixed size keeps those
that were made last, so how many states are shared depends on their numbers.

* `Footprint`: the states of an automaton that is being made.
* `measure`: the states that an expression adds.
* `fits`: whether both automata of an expression are small enough.
-/

namespace Descent.Regex

/-- Which way an automaton reads. -/
inductive Direction where
  | forward
  | backward
  deriving DecidableEq

/-- The size of an automaton. -/
structure Footprint where
  /-- the number of states -/
  states : Nat := 0
  /-- the number of bytes that states take beyond 32 -/
  extra : Nat := 0

/-- The largest size of an automaton in bytes. -/
def maxFootprint : Nat := 10 * 1024 * 1024

namespace Footprint

/-- The size in bytes. -/
def bytes (f : Footprint) : Nat := 32 * f.states + f.extra

/-- Adds `n` states that take `extra` bytes beyond 32 each. There is no automaton if it gets too
large. -/
def addStates (n extra : Nat) (f : Footprint) : Option Footprint :=
  let f : Footprint := ⟨f.states + n, f.extra + n * extra⟩
  if f.bytes ≤ maxFootprint then some f else none

/-- Adds a state that takes `extra` bytes beyond 32. -/
def add (extra : Nat) (f : Footprint) : Option Footprint :=
  f.addStates 1 extra

end Footprint

/-- How an automaton grows. -/
abbrev Growth := Footprint → Option Footprint

namespace Growth

/-- One growth after the other. -/
def andThen (m n : Growth) : Growth := fun f => (m f).bind n

/-- The same growth `n` times. -/
def times (m : Growth) : Nat → Growth
  | 0, f => some f
  | n + 1, f =>
    match m f with
    | none => none
    | some f => times m n f

end Growth

/-! ## Shared states -/

/-- A table with `capacity` slots for numbered states. A state is kept in the slot that its key
hashes to, where it takes the place of the one before. -/
structure StateTable where
  /-- the number of slots -/
  capacity : Nat
  /-- the keys and numbers of the states, by slot -/
  slots : Std.HashMap Nat (List Nat × Nat) := ∅

namespace StateTable

/-- The slot of a key. Its numbers are mixed into a hash one after the other, each by an exclusive
or and a multiplication. -/
def slot (t : StateTable) (key : List Nat) : Nat :=
  (key.foldl (fun h n => (h ^^^ n.toUInt64) * 1099511628211) (14695981039346656037 : UInt64)).toNat
    % t.capacity

/-- The number of the state with the given key. -/
def find? (t : StateTable) (key : List Nat) : Option Nat :=
  match t.slots[t.slot key]? with
  | some (k, n) => if k = key then some n else none
  | none => none

/-- Keeps a state. -/
def insert (t : StateTable) (key : List Nat) (n : Nat) : StateTable :=
  { t with slots := t.slots.insert (t.slot key) (key, n) }

end StateTable

/-- An automaton that is being made, with the states that can be shared. -/
structure SharedFootprint where
  /-- the automaton -/
  footprint : Footprint
  /-- the states that can be shared -/
  table : StateTable

/-- The number of the state with the given key. If there is none yet, it is added, with `extra`
bytes beyond 32. -/
def SharedFootprint.state (b : SharedFootprint) (key : List Nat) (extra : Nat) :
    Option (Nat × SharedFootprint) :=
  match b.table.find? key with
  | some n => some (n, b)
  | none =>
    (b.footprint.add extra).map fun f =>
      (b.footprint.states, ⟨f, b.table.insert key b.footprint.states⟩)

/-! ## Sets -/

/-- The states that read one of the sequences, which are at most `height` ranges long and in
ascending order, and go on with the state `target`. Sequences that start with the same range share
their first states; states that go on alike are shared through the table. Yields the number of the
first state. -/
def addSequences (target : Nat) :
    Nat → List (List ByteRange) → SharedFootprint → Option (Nat × SharedFootprint)
  | 0, _, b => some (target, b)
  | height + 1, sequences, b =>
    if sequences.all List.isEmpty then some (target, b)
    else do
      let groups := sequences.splitBy fun s t => s.head? == t.head?
      let (key, b) ← groups.foldlM (fun (key, b) group => do
          let (next, b) ← addSequences target height (group.map List.tail) b
          let (first, last) := (group.head?.bind List.head?).getD (0, 0)
          some (key ++ [first, last, next], b))
        (([] : List Nat), b)
      b.state key (8 * groups.length)

/-- The states that read one sequence from its end to its start, each range by a state of its own,
and go on with the state `next`. -/
def addReversed (next : Nat) : List ByteRange → SharedFootprint → Option SharedFootprint
  | [], b => some b
  | (first, last) :: sequence, b =>
    (b.state [next, first, last] 0).bind fun s => addReversed s.1 sequence s.2

/-- The states of a set. -/
def growSet (d : Direction) (s : CharSet) : Growth :=
  if s.ranges.all (·.2 < 0x80) then
    Growth.andThen (·.add 0) (·.add (8 * s.ranges.length))
  else
    let sequences := s.ranges.flatMap fun r => utf8Sequences r.1 r.2
    match d with
    | .forward => fun f =>
      (f.add 0).bind fun g =>
        (addSequences f.states 5 sequences ⟨g, { capacity := 10000 }⟩).map (·.2.footprint)
    | .backward => fun f =>
      ((f.add (4 * sequences.length)).bind (·.add 0)).bind fun g =>
        (sequences.foldlM (fun b sequence => addReversed (f.states + 1) sequence b)
          ⟨g, { capacity := 1000 }⟩).map (·.footprint)

/-! ## Literals -/

/-- The bytes of a text in the order in which they are read. -/
def literalBytes (d : Direction) (s : Text) : List UInt8 :=
  let bytes := s.flatMap String.utf8EncodeChar
  match d with
  | .forward => bytes
  | .backward => bytes.reverse

/-- The runs of literals between those that end here. -/
def runs : List (List UInt8) → List (List (List UInt8))
  | [] => [[]]
  | [] :: literals => [] :: runs literals
  | bytes :: literals =>
    match runs literals with
    | [] => [[bytes]]
    | run :: rest => (bytes :: run) :: rest

/-- The runs of literals between those that end here. Of several that end here before another one
goes on, one is enough. -/
def chunks (literals : List (List UInt8)) : List (List (List UInt8)) :=
  let ending := literals.takeWhile List.isEmpty
  runs (ending.take 1 ++ literals.drop ending.length)

/-- The states of a choice between literals of at most `height` bytes, which is a tree: literals
that start alike share their first states, as far as no literal between them ends there. -/
def growTree : Nat → List (List UInt8) → Growth
  | 0, _ => some
  | height + 1, literals => fun f => do
    let chunks := chunks literals
    let f ← chunks.foldlM (fun f chunk => do
        let bytes := (chunk.filterMap List.head?).eraseDups
        let f ← bytes.foldlM (fun f byte =>
            let rests := (chunk.filter (·.head? == some byte)).map List.tail
            if rests.all List.isEmpty then some f else growTree height rests f)
          f
        match bytes.length with
        | 0 => some f
        | 1 => f.add 0
        | n => f.add (8 * n))
      f
    f.add (4 * (chunks.countP (!·.isEmpty) + (chunks.length - 1)))

/-! ## Expressions -/

/-- The texts of literals, if all expressions are literals. -/
def literals? (rs : List Regex) : Option (List Text) :=
  rs.mapM fun
    | literal s => some s
    | _ => none

/-- The states of a choice, given those of its branches. The choice itself has two states, which are
made after the first two branches. -/
def growBranches : List Growth → Growth
  | [] => some
  | [m] => m
  | m :: n :: ms =>
    ms.foldl Growth.andThen
      (((m.andThen n).andThen (·.add (4 * (ms.length + 2)))).andThen (·.add 0))

/-- The states of an expression, given those of its branches. A choice between literals is a
tree. -/
def growWhole (d : Direction) (r : Regex) (branches : List Growth) : Growth :=
  match branches, literals? r.branches with
  | _ :: _ :: _, some texts =>
    let literals := texts.map (literalBytes d)
    Growth.andThen (·.add 0)
      (growTree (literals.foldl (fun n bytes => max n bytes.length) 0 + 1) literals)
  | _, _ => growBranches branches

/-- The states of a repetition, given those of a round. Optional rounds have a common end, and a
repetition without bound that may match the empty text has an entrance apart from its loop. -/
def growRepetition (rep : Repetition) (isConsuming : Bool) (round : Growth) : Growth :=
  match rep.max with
  | none =>
    if rep.min = 0 then
      if isConsuming then Growth.andThen (·.add 8) round
      else ((round.andThen (·.add 8)).andThen (·.add 8)).andThen (·.add 0)
    else (round.times rep.min).andThen (·.add 8)
  | some n =>
    if rep.min = 0 ∧ n = 1 then (Growth.andThen (·.add 8) round).andThen (·.add 0)
    else if rep.min = n then round.times n
    else
      ((if rep.min = 0 then (·.add 0) else round.times rep.min : Growth).andThen (·.add 0)).andThen
        ((Growth.andThen (·.add 8) round).times (n - rep.min))

/-- The states of each branch of an expression. -/
def growths (d : Direction) : Regex → List Growth
  | empty => [(·.add 0)]
  | literal s => [(·.addStates s.byteLength 0)]
  | set s => [growSet d s]
  | assertion _ => [(·.add 0)]
  | group _ r =>
    let inner := growWhole d r (growths d r)
    match d with
    | .forward => [(Growth.andThen (·.add 0) inner).andThen (·.add 0)]
    | .backward => [inner]
  | repetition rep r =>
    [growRepetition rep r.isConsuming (growWhole d r (growths d r))]
  | seq a b =>
    let first := growWhole d a (growths d a)
    let rest := growWhole d b (growths d b)
    match d with
    | .forward => [first.andThen rest]
    | .backward => [rest.andThen first]
  | alt a b => growWhole d a (growths d a) :: growths d b

/-- The states of an expression. -/
def measure (d : Direction) (r : Regex) : Growth :=
  growWhole d r (growths d r)

/-- The states before those of an expression. Unless every match is at an end of the text, they read
what stands before a match. -/
def growEntrance (anchored : Bool) : Growth :=
  if anchored then (·.add 0) else (Growth.andThen (·.add 8) (·.add 0)).andThen (·.add 8)

/-- The size of an automaton of an expression. Reading forward, the match as a whole counts as a
group. -/
def footprint? (r : Regex) : Direction → Option Footprint
  | .forward =>
    ((((growEntrance r.startsAtTextStart).andThen (·.add 0)).andThen
      (measure .forward r)).andThen (·.addStates 2 0)) {}
  | .backward =>
    (((growEntrance r.endsAtTextEnd).andThen (measure .backward r)).andThen (·.add 0)) {}

/-- Whether both automata of an expression are small enough. -/
def fits (r : Regex) : Bool :=
  (r.footprint? .forward).isSome && (r.footprint? .backward).isSome

end Descent.Regex
