import Descent.Parser.Basic
import Descent.Value

/-!
# Projections

Parsers that pick from the list that another parser found, or set a field of the record that it
found.
-/

namespace Descent

/-- A part of a list that is cut off or kept. -/
inductive Slice where
  /-- all but the first `n` entries -/
  | skip (n : Nat)
  /-- all but the last `n` entries -/
  | skipLast (n : Nat)
  /-- the first `n` entries -/
  | take (n : Nat)
  /-- the last `n` entries -/
  | takeLast (n : Nat)

/-- The part of a list. -/
def Slice.apply {α : Type} : Slice → List α → List α
  | skip n, values => values.drop n
  | skipLast n, values => values.take (values.length - n)
  | take n, values => values.take n
  | takeLast n, values => values.drop (values.length - n)

namespace Parser

variable {κ α : Type}

/-- The entry at index `n`. Too short a list is a failure. -/
def nth (n : Nat) (p : Parser κ (List α)) : Parser κ α :=
  p.tryMap fun values => values[n]?

/-- The entries at the given indices, in this order. Too short a list is a failure. -/
def select (indices : List Nat) (p : Parser κ (List α)) : Parser κ (List α) :=
  p.tryMap fun values => indices.mapM fun n => values[n]?

/-- A part of the list. -/
def slice (part : Slice) (p : Parser κ (List α)) : Parser κ (List α) :=
  p.map part.apply

/-- Sets a field of the record. -/
def put (key : String) (value : α) (p : Parser κ (Fields α)) : Parser κ (Fields α) :=
  p.map (Fields.put key value)

end Parser

end Descent
