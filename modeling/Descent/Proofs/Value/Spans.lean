import Descent.Parser.Projection
import Descent.Value.Operation

/-!
# The spans inside a value

Operations on values keep, drop and arrange what a parser found, but they make no spans. So whatever is
true of all spans of a value is true of all spans of what an operation makes of it
(`Transform.spans_apply`, `Extraction.spans_apply`).
-/

namespace Descent

namespace Value

mutual
/-- All spans inside a value. -/
def spans : Value → List Span
  | null | bool _ | int _ | str _ => []
  | list vs => spansAll vs
  | record fields => spansFields fields
  | spanned v span => span :: spans v

/-- All spans inside several values. -/
def spansAll : List Value → List Span
  | [] => []
  | v :: vs => spans v ++ spansAll vs

/-- All spans inside the fields of a record. -/
def spansFields : List (String × Value) → List Span
  | [] => []
  | field :: fields => spansField field ++ spansFields fields

/-- All spans inside a field. -/
def spansField : String × Value → List Span
  | (_, v) => spans v
end

/-- Every span inside a value has the property `P`. -/
def AllSpans (P : Span → Prop) (v : Value) : Prop := ∀ span ∈ v.spans, P span

variable {P : Span → Prop}

@[simp] theorem allSpans_null : null.AllSpans P := nofun

@[simp] theorem allSpans_bool (b : Bool) : (bool b).AllSpans P := nofun

@[simp] theorem allSpans_int (n : Int) : (int n).AllSpans P := nofun

@[simp] theorem allSpans_str (t : Text) : (str t).AllSpans P := nofun

theorem mem_spans_list {span : Span} {vs : List Value} :
    span ∈ (list vs).spans ↔ ∃ v ∈ vs, span ∈ v.spans := by
  have hall : spansAll vs = vs.flatMap spans := by
    induction vs with
    | nil => rfl
    | cons v vs ih => rw [spansAll, ih, List.flatMap_cons]
  rw [spans, hall, List.mem_flatMap]

theorem mem_spans_record {span : Span} {fields : Fields Value} :
    span ∈ (record fields).spans ↔ ∃ e ∈ fields, span ∈ e.2.spans := by
  have hall : spansFields fields = fields.flatMap fun e => e.2.spans := by
    induction fields with
    | nil => rfl
    | cons e fields ih => rw [spansFields, ih, List.flatMap_cons, spansField]
  rw [spans, hall, List.mem_flatMap]

@[simp] theorem allSpans_list {vs : List Value} :
    (list vs).AllSpans P ↔ ∀ v ∈ vs, v.AllSpans P := by
  simp only [AllSpans, mem_spans_list]
  exact ⟨fun h v hv span hs => h span ⟨v, hv, hs⟩, fun h span ⟨v, hv, hs⟩ => h v hv span hs⟩

@[simp] theorem allSpans_record {fields : Fields Value} :
    (record fields).AllSpans P ↔ ∀ e ∈ fields, e.2.AllSpans P := by
  simp only [AllSpans, mem_spans_record]
  exact ⟨fun h e he span hs => h span ⟨e, he, hs⟩, fun h span ⟨e, he, hs⟩ => h e he span hs⟩

@[simp] theorem allSpans_spanned {v : Value} {span : Span} :
    (spanned v span).AllSpans P ↔ P span ∧ v.AllSpans P :=
  List.forall_mem_cons

/-! ## Parts -/

theorem allSpans_ofOption {v : Option Value} (h : ∀ u ∈ v, u.AllSpans P) :
    (ofOption v).AllSpans P := by
  cases v with
  | none => exact allSpans_null
  | some u => exact h u rfl

theorem allSpans_of_mem_list? {v : Value} (h : v.AllSpans P) :
    ∀ vs ∈ v.list?, ∀ u ∈ vs, u.AllSpans P := by
  cases v with
  | list vs =>
    rintro vs ⟨⟩
    exact allSpans_list.mp h
  | _ => exact nofun

theorem allSpans_of_mem_record? {v : Value} (h : v.AllSpans P) :
    ∀ fields ∈ v.record?, ∀ e ∈ fields, e.2.AllSpans P := by
  cases v with
  | record fields =>
    rintro fields ⟨⟩
    exact allSpans_record.mp h
  | _ => exact nofun

theorem allSpans_put {key : String} {v : Value} {fields : Fields Value} (hv : v.AllSpans P)
    (h : ∀ e ∈ fields, e.2.AllSpans P) : ∀ e ∈ Fields.put key v fields, e.2.AllSpans P := by
  intro e he
  rcases Fields.mem_put he with rfl | he
  · exact hv
  · exact h e he

theorem allSpans_of_find? {key : String} {v : Value} {fields : Fields Value}
    (h : ∀ e ∈ fields, e.2.AllSpans P) (hv : Fields.find? key fields = some v) :
    v.AllSpans P := by
  induction fields with
  | nil => cases hv
  | cons e fields ih =>
    obtain ⟨k, u⟩ := e
    obtain ⟨hu, hrest⟩ := List.forall_mem_cons.mp h
    rw [Fields.find?] at hv
    split at hv
    · cases hv
      exact hu
    · exact ih hrest hv

end Value

/-! ## Operations -/

open Value

variable {P : Span → Prop}

/-- The spans of the new value are among those of the old one. -/
theorem Transform.spans_apply (f : Transform) {v : Value} (h : v.AllSpans P) :
    (f.apply v).AllSpans P := by
  cases f with
  | concat => exact allSpans_str _
  | box => simpa [apply] using h
  | wrapRecord => simpa [apply] using h
  | pop =>
    cases v with
    | list vs =>
      rw [allSpans_list] at h
      exact allSpans_list.mpr fun u hu => h u (List.dropLast_subset vs hu)
    | _ => exact h
  | reverse =>
    cases v with
    | list vs =>
      rw [allSpans_list] at h
      exact allSpans_list.mpr fun u hu => h u (List.mem_reverse.mp hu)
    | _ => exact h
  | upper | byteLength | stripEnds | increment =>
    cases v with
    | str t => first | exact allSpans_str _ | exact allSpans_int _
    | int n => exact allSpans_int _
    | _ => exact h
  | count =>
    cases v with
    | str | list | record => exact allSpans_int _
    | _ => exact h

theorem Extraction.spans_apply (f : Extraction) {v : Value} (h : v.AllSpans P) :
    ∀ u ∈ f.apply v, u.AllSpans P := by
  intro u hu
  cases f with
  | readInt =>
    cases v with
    | str t =>
      obtain ⟨n, -, rfl⟩ := Option.map_eq_some_iff.mp hu
      exact allSpans_int n
    | _ => cases hu
  | vowel =>
    cases v with
    | str t =>
      rw [apply] at hu
      split at hu <;> cases hu
      exact allSpans_str t
    | _ => cases hu
  | first =>
    cases v with
    | list vs => exact allSpans_list.mp h u (List.mem_of_head? hu)
    | _ => cases hu
  | single =>
    cases v with
    | list vs =>
      rcases vs with _ | ⟨v, _ | ⟨v', vs⟩⟩ <;> cases hu
      · exact allSpans_list.mp h u List.mem_cons_self
      · exact h
    | _ => cases hu
  | sum =>
    cases v with
    | list vs =>
      obtain ⟨n, -, rfl⟩ := Option.map_eq_some_iff.mp hu
      exact allSpans_int n
    | _ => cases hu
  | pair =>
    cases v with
    | record fields =>
      rw [allSpans_record] at h
      simp only [apply] at hu
      split at hu
      · rename_i k v hk hv
        cases hu
        have hpair : ∀ u ∈ [k, v], u.AllSpans P := List.forall_mem_cons.mpr
          ⟨allSpans_of_find? h hk, List.forall_mem_singleton.mpr (allSpans_of_find? h hv)⟩
        exact allSpans_list.mpr hpair
      · cases hu
    | _ => cases hu
  | never => cases hu

/-! ## Entries of a list -/

theorem mem_of_mapM_getElem? {α : Type} {indices : List Nat} {values found : List α}
    (h : (indices.mapM fun n => values[n]?) = some found) : ∀ v ∈ found, v ∈ values := by
  induction indices generalizing found with
  | nil =>
    cases h
    exact nofun
  | cons n indices ih =>
    simp only [List.mapM_cons, Option.bind_eq_bind, Option.bind_eq_some_iff, Option.pure_def,
      Option.some.injEq] at h
    obtain ⟨v, hv, vs, hvs, rfl⟩ := h
    exact List.forall_mem_cons.mpr ⟨List.mem_of_getElem? hv, ih hvs⟩

theorem Slice.mem_of_mem_apply {α : Type} (part : Slice) {values : List α} {v : α}
    (hv : v ∈ part.apply values) : v ∈ values := by
  cases part with
  | skip | takeLast => exact List.mem_of_mem_drop hv
  | take | skipLast => exact List.mem_of_mem_take hv

end Descent
