import Descent.Loop
import Descent.Parser.Basic

/-!
# Repetitions

Parsers that use a part any number of times. All of them take as much as they can get, except
`manyTill`, which looks for an end first.

A round that leaves as many bytes as it was given would go on for ever, so it is the last one.
Nothing is known of the part: it may also leave more than it was given, round after round. Such a
loop has no end, and the repetition gives no answer.

Each of the repetitions has a loop of its own, with its own guard. What the loops have in common is
not built into them.
-/

namespace Descent.Parser

variable {κ α β : Type}

/-- Where the loop of a repetition stands. -/
structure Progress (κ α : Type) where
  /-- the values so far -/
  found : List α
  /-- the clock -/
  clock : κ
  /-- the text that is left -/
  text : Text

/-! ## A part alone -/

/-- A round of `many`. The value of a round that consumes nothing is kept. -/
def manyRound (p : Parser κ α) :
    Progress κ α → Option (Turn (Progress κ α) (Reply κ (List α)))
  | ⟨found, k, s⟩ =>
    match p k s with
    | none => none
    | some ⟨.failure _ _, k⟩ => some (.stop ⟨.success found s, k⟩)
    | some ⟨.success value rest, k⟩ =>
      if rest.byteLength = s.byteLength then some (.stop ⟨.success (found ++ [value]) s, k⟩)
      else some (.again ⟨found ++ [value], k, rest⟩)

/-- As many rounds of `p` as there are, perhaps none. -/
def many (p : Parser κ α) : Parser κ (List α) :=
  fun k s => loop (manyRound p) ⟨[], k, s⟩

/-- A round of `many1` behind the first one. -/
def many1Round (p : Parser κ α) :
    Progress κ α → Option (Turn (Progress κ α) (Reply κ (List α)))
  | ⟨found, k, s⟩ =>
    match p k s with
    | none => none
    | some ⟨.failure _ _, k⟩ => some (.stop ⟨.success found s, k⟩)
    | some ⟨.success value rest, k⟩ =>
      if rest.byteLength = s.byteLength then some (.stop ⟨.success (found ++ [value]) s, k⟩)
      else some (.again ⟨found ++ [value], k, rest⟩)

/-- As many rounds of `p` as there are, at least one. Behind a first round that consumes nothing there
may be further ones. -/
def many1 (p : Parser κ α) : Parser κ (List α) :=
  fun k s =>
    match p k s with
    | none => none
    | some ⟨.success value rest, k⟩ => loop (many1Round p) ⟨[value], k, rest⟩
    | some ⟨failed, k⟩ => some ⟨failed.failAt s, k⟩

/-! ## A part and another one -/

/-- A round of `sepBy` behind the first item: a separator and an item. A separator without an item
behind it is given back. -/
def sepByRound (item : Parser κ α) (separator : Parser κ β) :
    Progress κ α → Option (Turn (Progress κ α) (Reply κ (List α)))
  | ⟨found, k, s⟩ =>
    match separator k s with
    | none => none
    | some ⟨.failure _ _, k⟩ => some (.stop ⟨.success found s, k⟩)
    | some ⟨.success _ behind, k⟩ =>
      match item k behind with
      | none => none
      | some ⟨.failure _ _, k⟩ => some (.stop ⟨.success found s, k⟩)
      | some ⟨.success value rest, k⟩ =>
        if rest.byteLength = s.byteLength then some (.stop ⟨.success (found ++ [value]) s, k⟩)
        else some (.again ⟨found ++ [value], k, rest⟩)

/-- Items with separators between them, perhaps none. -/
def sepBy (item : Parser κ α) (separator : Parser κ β) : Parser κ (List α) :=
  fun k s =>
    match item k s with
    | none => none
    | some ⟨.failure _ _, k⟩ => some ⟨.success [] s, k⟩
    | some ⟨.success value rest, k⟩ => loop (sepByRound item separator) ⟨[value], k, rest⟩

/-- A round of `manyTill`. The search ends with what `stop` finds as the last entry and the text behind
it, or with nothing where there is no further item. The clock goes on in both cases. -/
def manyTillRound (item stop : Parser κ α) :
    Progress κ α → Option (Turn (Progress κ α) (Option (List α × Text) × κ))
  | ⟨found, k, s⟩ =>
    match stop k s with
    | none => none
    | some ⟨.success value rest, k⟩ => some (.stop (some (found ++ [value], rest), k))
    | some ⟨.failure _ _, k⟩ =>
      match item k s with
      | none => none
      | some ⟨.failure _ _, k⟩ => some (.stop (none, k))
      | some ⟨.success value rest, k⟩ =>
        if rest.byteLength = s.byteLength then some (.stop (none, k))
        else some (.again ⟨found ++ [value], k, rest⟩)

/-- Items up to the first place where `stop` succeeds. There may be no such place within reach of the
items. -/
def itemsTill (item stop : Parser κ α) (k : κ) (s : Text) : Option (Option (List α × Text) × κ) :=
  loop (manyTillRound item stop) ⟨[], k, s⟩

/-- Items up to the first place where `stop` succeeds. If the items lead to no such place, the
answer is that of `stop` on the whole text. -/
def manyTill (item stop : Parser κ α) : Parser κ (List α) :=
  fun k s =>
    match itemsTill item stop k s with
    | none => none
    | some (some (values, rest), k) => some ⟨.success values rest, k⟩
    | some (none, k) => map ([·]) stop k s

end Descent.Parser
