import Descent.Regex.Basic

/-!
# Beginnings of matches

What the matches of an expression begin with, in order of preference. A beginning is a whole match,
or it is cut: then it is bytes behind which matches may go on. Beginnings are kept few and short,
and where there would be too many of them nothing is said about how matches begin.

An expression may have only a few matches that count, because no other one is preferred to them. It
is then looked for by these texts, and it does not matter how large it is. Only texts that are good
to look for are taken as they are; others would rather be cut.

* `beginnings`: what the matches of an expression begin with.
* `needles`: what is looked for.
* `wholeMatches?`: the matches of an expression that is looked for by its matches.
-/

namespace Descent.Regex

/-- What a match begins with. -/
inductive Beginning where
  /-- a whole match -/
  | whole (s : Text)
  /-- bytes behind which a match may go on -/
  | cut (bytes : List UInt8)

namespace Beginning

/-- The bytes of a beginning. -/
def bytes : Beginning → List UInt8
  | whole s => s.flatMap String.utf8EncodeChar
  | cut bytes => bytes

/-- The text of a whole match. -/
def text? : Beginning → Option Text
  | whole s => some s
  | cut _ => none

/-- Whether a beginning is a whole match. -/
def isWhole (b : Beginning) : Bool :=
  b.text?.isSome

/-- The same bytes, behind which a match may go on. -/
def toCut (b : Beginning) : Beginning :=
  cut b.bytes

/-- The first `n` bytes of a beginning. -/
def take (n : Nat) (b : Beginning) : Beginning :=
  if b.bytes.length ≤ n then b else cut (b.bytes.take n)

/-- A beginning with a text before it. -/
def prepend (s : Text) : Beginning → Beginning
  | whole t => whole (s ++ t)
  | cut bytes => cut ((whole s).bytes ++ bytes)

/-- The beginnings of what starts as `b` does and goes on with one of `bs`. -/
def followedBy (bs : List Beginning) (b : Beginning) : List Beginning :=
  match b with
  | whole s => bs.map (prepend s)
  | cut _ => [b]

/-- Makes one beginning of neighbours with the same bytes. It is a whole match if all of them
are. -/
def mergeEqual (bs : List Beginning) : List Beginning :=
  bs.foldr (fun b merged =>
    match merged with
    | c :: rest =>
      if b.bytes = c.bytes then (if b.isWhole then c else b) :: rest else b :: c :: rest
    | [] => [b]) []

/-- Leaves out each beginning that starts with an earlier one, which is preferred to it. -/
def dropCovered (bs : List Beginning) : List Beginning :=
  bs.foldl (fun kept b =>
    if kept.any fun c => c.bytes.isPrefixOf b.bytes then kept else kept ++ [b]) []

/-- The bytes that all beginnings start with. -/
def sharedBytes : List Beginning → List UInt8
  | [] => []
  | b :: bs => bs.foldl (fun shared c => commonStart shared c.bytes) b.bytes

end Beginning

/-- What matches begin with. -/
inductive Beginnings where
  /-- one of these, in order of preference -/
  | these (bs : List Beginning)
  /-- nothing that is known -/
  | any

namespace Beginnings

open Beginning

/-! ## Combining beginnings -/

/-- The largest number of beginnings. -/
def maxSize : Nat := 250

/-- The largest number of bytes of a beginning. -/
def maxBytes : Nat := 100

/-- The largest number of bytes of a beginning among too many. -/
def maxBytesOfMany : Nat := 4

/-- The largest number of characters of a set that are told apart. -/
def maxChars : Nat := 10

/-- The largest number of rounds that are looked at. -/
def maxRounds : Nat := 10

/-- The beginning of the empty match. -/
def nothing : Beginnings := these [whole []]

/-- The same bytes, behind which matches may go on. -/
def toCut : Beginnings → Beginnings
  | these bs => these (bs.map Beginning.toCut)
  | any => any

/-- The beginnings of what starts with `a` and goes on with `b`. If no beginning of `a` is whole,
`b` adds nothing to them. -/
def andThen (a b : Beginnings) : Beginnings :=
  match a with
  | any => any
  | these bs =>
    if bs.all (!·.isWhole) then a
    else
      match b with
      | these cs =>
        if bs.length * cs.length ≤ maxSize then
          these ((mergeEqual (bs.flatMap (followedBy cs))).map (Beginning.take maxBytes))
        else unknownBehind bs
      | any => unknownBehind bs
where
  /-- The beginnings of what starts as `bs` say and goes on with something unknown. -/
  unknownBehind (bs : List Beginning) : Beginnings :=
    if bs.any (·.bytes.isEmpty) then any else these (bs.map Beginning.toCut)

/-- The beginnings of what starts with `a` or with `b`, and rather with `a`. -/
def or (a b : Beginnings) : Beginnings :=
  match a, b with
  | these bs, these cs =>
    if bs.length + cs.length ≤ maxSize then these (mergeEqual (bs ++ cs))
    else
      let bs := mergeEqual (bs.map (Beginning.take maxBytesOfMany))
      let cs := mergeEqual (cs.map (Beginning.take maxBytesOfMany))
      if bs.length + cs.length ≤ maxSize then these (mergeEqual (bs ++ cs)) else any
  | _, _ => any

/-- The beginnings of a set. -/
def ofSet (s : CharSet) : Beginnings :=
  if s.ranges.foldl (fun n r => n + (r.2 + 1 - r.1)) 0 ≤ maxChars then
    these (s.ranges.flatMap fun r =>
      (List.range' r.1 (r.2 + 1 - r.1)).map fun n => whole [Char.ofNat n])
  else any

/-- The beginnings of a repetition, given those of a round. -/
def ofRepetition (rep : Repetition) (round : Beginnings) : Beginnings :=
  if rep.min = 0 then
    let round := if rep.max = some 1 then round else round.toCut
    if rep.greedy then round.or nothing else nothing.or round
  else
    let rounds := Nat.repeat (·.andThen round) (min rep.min maxRounds) nothing
    if rep.max = some rep.min ∧ rep.min ≤ maxRounds then rounds else rounds.toCut

end Beginnings

/-! ## Beginnings of expressions -/

/-- The beginnings of the parts of a sequence, of the branches of a choice, or of an expression that
is neither. -/
inductive Outline where
  | seq (parts : List Beginnings)
  | alt (branches : List Beginnings)
  | one (b : Beginnings)

namespace Outline

/-- The beginnings of the whole expression. -/
def beginnings : Outline → Beginnings
  | seq parts => parts.foldl Beginnings.andThen .nothing
  | alt branches => branches.foldl Beginnings.or (.these [])
  | one b => b

/-- The parts of an expression as a sequence. -/
def parts : Outline → List Beginnings
  | seq parts => parts
  | o => [o.beginnings]

/-- The branches of an expression as a choice. -/
def branches : Outline → List Beginnings
  | alt branches => branches
  | o => [o.beginnings]

end Outline

/-- The beginnings of an expression and of its parts or branches. An assertion is taken to hold
everywhere. -/
def outline : Regex → Outline
  | empty => .one .nothing
  | literal s => .one (.these [(Beginning.whole s).take Beginnings.maxBytes])
  | set s => .one (.ofSet s)
  | assertion _ => .one .nothing
  | group _ r => .one r.outline.beginnings
  | repetition rep r => .one (.ofRepetition rep r.outline.beginnings)
  | seq a b => .seq (a.outline.beginnings :: b.outline.parts)
  | alt a b => .alt (a.outline.beginnings :: b.outline.branches)

/-- What the matches of an expression begin with. -/
def beginnings (r : Regex) : Beginnings :=
  r.outline.beginnings

/-! ## Searches -/

/-- Whether a byte that starts a character is frequent in texts. -/
def isFrequent (b : UInt8) : Bool :=
  0xc0 ≤ b ||
    "\n\r (),-./0129:_abcdefghilmnoprstuvxy|".toList.any fun c => c.toNat = b.toNat

/-- Cuts beginnings step by step as long as they are many. A step `(width, limit)` cuts more than
`limit` beginnings to at most `width` bytes. -/
def shorten : List (Nat × Nat) → List Beginning → List Beginning
  | [], bs => bs
  | (width, limit) :: steps, bs =>
    if bs.length ≤ limit then bs
    else shorten steps (Beginning.dropCovered (bs.map (Beginning.take width)))

/-- The steps by which beginnings are cut. -/
def shortenings : List (Nat × Nat) := [(5, 10), (4, 10), (3, 64), (2, 64), (1, 10)]

/-- What is looked for to find a match that has one of the given beginnings. Where all of them share
a short start, and it starts with a rare byte, this byte is looked for. Where they share a long one,
or are too many to be fast, what they share is looked for. Else many beginnings are cut, unless that
leaves too many or too short ones. -/
def needles (bs : List Beginning) : List Beginning :=
  let kept := Beginning.dropCovered bs
  let shared := Beginning.sharedBytes kept
  let isFast := kept.length ≤ 16 && kept.all Beginning.isWhole
  if 1 < bs.length ∧ shared.length ≤ 3 ∧ shared.head?.any (!isFrequent ·) then
    kept.map (Beginning.take 1)
  else if 4 < shared.length ∨ (1 < shared.length ∧ !isFast) then
    kept.map (Beginning.take shared.length)
  else
    let short := shorten shortenings kept
    if short.length ≤ 64 ∧ short.all (2 < ·.bytes.length) then short else kept

/-- Whether an expression has no groups and no assertions. -/
def isPlain : Regex → Bool
  | empty => true
  | literal _ => true
  | set _ => true
  | assertion _ => false
  | group _ _ => false
  | repetition _ r => r.isPlain
  | seq a b => a.isPlain && b.isPlain
  | alt a b => a.isPlain && b.isPlain

/-- The matches of an expression that is looked for by its matches, in order of preference. None of
them is empty, as the empty text cannot be looked for. -/
def wholeMatches? (r : Regex) : Option (List Text) :=
  match r.beginnings with
  | .any => none
  | .these bs =>
    if r.isPlain ∧ bs ≠ [] ∧ bs.all (!·.bytes.isEmpty) then (needles bs).mapM Beginning.text?
    else none

end Descent.Regex
