import Descent.Span

/-!
# Values

What parsers of a grammar produce: a single type of values, since the parts of a grammar are put
together freely. Besides plain data there are records, whose fields are ordered by key, and values
that carry the span they were read from. A value with a span is not a list, whatever the value
inside it is.

Fields without an order serve as tables of names. A name keeps the place where it came up first.

* `Fields.find?_insert`, `Fields.find?_put`: a field that was set last is the one that is found.
-/

namespace Descent

/-! ## Fields -/

/-- The fields of a record, or the entries of a table. -/
abbrev Fields (α : Type) := List (String × α)

namespace Fields

variable {α : Type}

/-- Sets an entry of a table. A key that is there already keeps its place. -/
def insert (key : String) (value : α) : Fields α → Fields α
  | [] => [(key, value)]
  | (k, v) :: fields =>
    if k = key then (k, value) :: fields else (k, v) :: insert key value fields

/-- Sets a field of a record. The fields with smaller keys stay in front of it. -/
def put (key : String) (value : α) : Fields α → Fields α
  | [] => [(key, value)]
  | (k, v) :: fields =>
    if k < key then (k, v) :: put key value fields
    else if k = key then (key, value) :: fields
    else (key, value) :: (k, v) :: fields

/-- The value of a field. -/
def find? (key : String) : Fields α → Option α
  | [] => none
  | (k, v) :: fields => if k = key then some v else find? key fields

theorem find?_insert (key k : String) (value : α) (fields : Fields α) :
    find? k (insert key value fields) = if k = key then some value else find? k fields := by
  induction fields with
  | nil => simp [insert, find?, eq_comm]
  | cons f fields ih =>
    obtain ⟨k', v⟩ := f
    by_cases hk : k' = key
    · subst hk
      by_cases h : k = k'
      · simp [insert, find?, h]
      · simp [insert, find?, h, Ne.symm h]
    · by_cases h : k' = k
      · subst h
        simp [insert, find?, hk]
      · simp [insert, find?, hk, h, ih]

/-- This also holds of fields that are not in order. -/
theorem find?_put (key k : String) (value : α) (fields : Fields α) :
    find? k (put key value fields) = if k = key then some value else find? k fields := by
  induction fields with
  | nil => simp [put, find?, eq_comm]
  | cons f fields ih =>
    obtain ⟨k', v⟩ := f
    rw [put]
    split
    · next hlt =>
      have hne : k' ≠ key := by
        rintro rfl
        exact String.lt_irrefl k' hlt
      by_cases h : k' = k
      · subst h
        simp [find?, hne]
      · simp [find?, h, ih]
    · split
      · next heq =>
        subst heq
        by_cases h : k' = k
        · simp [find?, h]
        · simp [find?, h, Ne.symm h]
      · simp [find?, eq_comm]

theorem mem_put {key : String} {v : α} {fields : Fields α} {e : String × α}
    (h : e ∈ fields.put key v) : e = (key, v) ∨ e ∈ fields := by
  induction fields with
  | nil => exact .inl (List.mem_singleton.mp h)
  | cons f fields ih =>
    obtain ⟨k, u⟩ := f
    rw [put] at h
    split at h
    · rcases List.mem_cons.mp h with rfl | he
      · exact .inr List.mem_cons_self
      · exact (ih he).imp_right (List.mem_cons_of_mem _)
    · split at h
      · exact (List.mem_cons.mp h).imp_right (List.mem_cons_of_mem _)
      · exact List.mem_cons.mp h

end Fields

/-! ## Values -/

/-- A value. -/
inductive Value where
  /-- no value -/
  | null
  /-- a truth value -/
  | bool (b : Bool)
  /-- an integer -/
  | int (n : Int)
  /-- a text -/
  | str (t : Text)
  /-- a list -/
  | list (vs : List Value)
  /-- a record -/
  | record (fields : List (String × Value))
  /-- a value with the span that it was read from -/
  | spanned (v : Value) (span : Span)
  deriving Inhabited

namespace Value

/-- The entries of a list. -/
def list? : Value → Option (List Value)
  | list vs => some vs
  | _ => none

/-- The fields of a record. -/
def record? : Value → Option (Fields Value)
  | record fields => some fields
  | _ => none

/-- The value of an integer. -/
def int? : Value → Option Int
  | int n => some n
  | _ => none

/-- A value that may be missing. -/
def ofOption : Option Value → Value
  | none => null
  | some v => v

/-- A value together with its span. -/
def ofSpanned (v : Value × Span) : Value :=
  spanned v.1 v.2

/-! ## The range of integers -/

/-- The largest integer. -/
def maxInt : Int := 9223372036854775807

/-- The smallest integer. -/
def minInt : Int := -9223372036854775808

/-- An integer, if it is in range. -/
def inRange? (n : Int) : Option Int :=
  if minInt ≤ n ∧ n ≤ maxInt then some n else none

/-! ## Text -/

mutual
/-- The texts inside a value one after the other. Lists are searched for texts, other values
have none. -/
def concat : Value → Text
  | str t => t
  | list vs => concatAll vs
  | null => []
  | bool _ => []
  | int _ => []
  | record _ => []
  | spanned _ _ => []

/-- The texts inside several values one after the other. -/
def concatAll : List Value → Text
  | [] => []
  | v :: vs => concat v ++ concatAll vs
end

end Value

end Descent
