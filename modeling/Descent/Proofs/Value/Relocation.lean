import Descent.Parser.Projection
import Descent.Value.Operation

/-!
# The locations inside a value

Locations get into values through spans only, and no operation on values looks at them. So it does
not matter whether the locations of a value are changed before or after an operation is applied
(`Transform.apply_relocate`, `Extraction.apply_relocate`, `Condition.holds_relocate`). Two values
that differ in their locations only are treated alike by everything that a grammar can do with them.
-/

namespace Descent

namespace Value

mutual
/-- The value with all locations in its spans changed by `f`. -/
def relocate (f : Location → Location) : Value → Value
  | null => null
  | bool b => bool b
  | int n => int n
  | str t => str t
  | list vs => list (relocateAll f vs)
  | record fields => record (relocateFields f fields)
  | spanned v span => spanned (relocate f v) ⟨f span.start, f span.stop, span.text⟩

/-- Several values, relocated. -/
def relocateAll (f : Location → Location) : List Value → List Value
  | [] => []
  | v :: vs => relocate f v :: relocateAll f vs

/-- The fields of a record, relocated. -/
def relocateFields (f : Location → Location) : List (String × Value) → List (String × Value)
  | [] => []
  | field :: fields => relocateField f field :: relocateFields f fields

/-- A field, relocated. -/
def relocateField (f : Location → Location) : String × Value → String × Value
  | (key, v) => (key, relocate f v)
end

variable (f : Location → Location)

theorem relocateAll_eq_map (vs : List Value) : relocateAll f vs = vs.map (relocate f) := by
  induction vs with
  | nil => rfl
  | cons v vs ih => rw [relocateAll, ih, List.map_cons]

theorem relocateFields_eq_map (fields : Fields Value) :
    relocateFields f fields = fields.map (relocateField f) := by
  induction fields with
  | nil => rfl
  | cons e fields ih => rw [relocateFields, ih, List.map_cons]

@[simp] theorem relocate_null : null.relocate f = null := rfl

@[simp] theorem relocate_bool (b : Bool) : (bool b).relocate f = bool b := rfl

@[simp] theorem relocate_int (n : Int) : (int n).relocate f = int n := rfl

@[simp] theorem relocate_str (t : Text) : (str t).relocate f = str t := rfl

@[simp] theorem relocate_list (vs : List Value) :
    (list vs).relocate f = list (vs.map (relocate f)) := by
  rw [relocate, relocateAll_eq_map]

@[simp] theorem relocate_record (fields : Fields Value) :
    (record fields).relocate f = record (fields.map (relocateField f)) := by
  rw [relocate, relocateFields_eq_map]

@[simp] theorem relocate_spanned (v : Value) (span : Span) :
    (spanned v span).relocate f =
      spanned (v.relocate f) ⟨f span.start, f span.stop, span.text⟩ := rfl

mutual
theorem relocate_id : ∀ v : Value, v.relocate id = v
  | null | bool _ | int _ | str _ => rfl
  | list vs => by rw [relocate, relocateAll_id vs]
  | record fields => by rw [relocate, relocateFields_id fields]
  | spanned v span => by rw [relocate, relocate_id v]; rfl

theorem relocateAll_id : ∀ vs : List Value, relocateAll id vs = vs
  | [] => rfl
  | v :: vs => by rw [relocateAll, relocate_id v, relocateAll_id vs]

theorem relocateFields_id : ∀ fields : List (String × Value), relocateFields id fields = fields
  | [] => rfl
  | (key, v) :: fields => by
    rw [relocateFields, relocateField, relocate_id v, relocateFields_id fields]
end

theorem eq_of_relocate_id {v v' : Value} (h : v.relocate id = v'.relocate id) : v = v' := by
  rwa [relocate_id, relocate_id] at h

mutual
@[simp] theorem concat_relocate : ∀ v : Value, (v.relocate f).concat = v.concat
  | null | bool _ | int _ | str _ | record _ | spanned _ _ => rfl
  | list vs => concatAll_relocate vs

theorem concatAll_relocate : ∀ vs : List Value, concatAll (relocateAll f vs) = concatAll vs
  | [] => rfl
  | v :: vs => by rw [relocateAll, concatAll, concatAll, concat_relocate v, concatAll_relocate vs]
end

/-! ## Parts -/

theorem list?_relocate (v : Value) :
    (v.relocate f).list? = v.list?.map (List.map (relocate f)) := by
  cases v <;> simp [list?]

theorem record?_relocate (v : Value) :
    (v.relocate f).record? = v.record?.map (List.map (relocateField f)) := by
  cases v <;> simp [record?]

@[simp] theorem int?_relocate (v : Value) : (v.relocate f).int? = v.int? := by
  cases v <;> simp [int?]

theorem ofOption_relocate (v : Option Value) :
    (ofOption v).relocate f = ofOption (v.map (relocate f)) := by
  cases v <;> rfl

theorem find?_relocateField (key : String) (fields : Fields Value) :
    Fields.find? key (fields.map (relocateField f)) =
      (Fields.find? key fields).map (relocate f) := by
  induction fields with
  | nil => rfl
  | cons e fields ih =>
    obtain ⟨k, v⟩ := e
    simp only [List.map_cons, relocateField, Fields.find?, ih]
    split <;> rfl

theorem put_relocateField (key : String) (v : Value) (fields : Fields Value) :
    (Fields.put key v fields).map (relocateField f) =
      Fields.put key (v.relocate f) (fields.map (relocateField f)) := by
  induction fields with
  | nil => rfl
  | cons e fields ih =>
    obtain ⟨k, u⟩ := e
    simp only [List.map_cons, relocateField, Fields.put]
    split
    · rw [List.map_cons, ih, relocateField]
    · split <;> rfl

end Value

/-! ## Operations -/

open Value

variable (f : Location → Location)

theorem Transform.apply_relocate (t : Transform) (v : Value) :
    (t.apply v).relocate f = t.apply (v.relocate f) := by
  cases t with
  | concat => simp [apply]
  | box => simp [apply]
  | wrapRecord => simp [apply, relocateField]
  | _ => cases v <;> simp [apply]

theorem Extraction.apply_relocate (x : Extraction) (v : Value) :
    (x.apply v).map (relocate f) = x.apply (v.relocate f) := by
  cases x with
  | readInt => cases v <;> simp [apply, Function.comp_def]
  | vowel =>
    cases v with
    | str t => simp only [apply, relocate_str]; split <;> rfl
    | _ => simp [apply]
  | first => cases v <;> simp [apply]
  | single =>
    cases v with
    | list vs => rcases vs with _ | ⟨v, _ | ⟨u, vs⟩⟩ <;> simp [apply]
    | _ => simp [apply]
  | sum => cases v <;> simp [apply, Function.comp_def]
  | pair =>
    cases v with
    | record fields =>
      simp only [apply, relocate_record, find?_relocateField]
      cases Fields.find? "key" fields <;> cases Fields.find? "value" fields <;> simp
    | _ => simp [apply]
  | never => rfl

theorem Condition.holds_relocate (c : Condition) (v : Value) :
    c.holds (v.relocate f) = c.holds v := by
  cases v <;> cases c <;> simp [holds]

/-! ## Entries of a list -/

variable {α β : Type} (g : α → β)

theorem mapM_getElem?_map (indices : List Nat) (values : List α) :
    (indices.mapM fun n => values[n]?).map (List.map g) =
      indices.mapM fun n => (values.map g)[n]? := by
  induction indices with
  | nil => rfl
  | cons n indices ih =>
    rw [List.mapM_cons, List.mapM_cons, ← ih, List.getElem?_map]
    cases values[n]? with
    | none => rfl
    | some v => cases indices.mapM fun n => values[n]? <;> rfl

theorem Slice.apply_map (part : Slice) (values : List α) :
    part.apply (values.map g) = (part.apply values).map g := by
  cases part <;> simp [apply, List.map_take, List.map_drop]

end Descent
