import Descent.Proofs.Report.Place
import Mathlib.Order.Bounds.Basic

/-!
# Offsets and locations

An offset counts bytes, a location counts lines and columns, and each is computed from the other by
a way of its own: the location of an offset from the newlines in front of it, the offset of a location
by a scan that stops at the first character that is far enough. Both order the boundaries of a text,
the places between two characters and at the two ends, in the same way. So the scan inverts the
counting, and where a location belongs to no boundary the scan goes on to the next one.

* `Text.IsBoundary`: the offsets that mean a place between characters.
* `Place.location_lt`: greater boundaries have greater locations.
* `Place.isLeast_offset_ofLocation`: the place of a location.
* `offsets_and_locations_are_inverse`: all of it for one text.
-/

namespace Descent

namespace Text

/-- Of two front parts of a text the one with fewer bytes is a front part of the other. -/
theorem prefix_of_byteLength_le {a b s : Text} (ha : a <+: s) (hb : b <+: s)
    (hle : a.byteLength ≤ b.byteLength) : a <+: b := by
  rcases List.prefix_or_prefix_of_prefix ha hb with hab | ⟨c, rfl⟩
  · exact hab
  · rw [byteLength_append] at hle
    have hc : c = [] := eq_nil_of_byteLength_eq_zero (by omega)
    simp [hc]

/-- A text can be cut at an offset in one way only. -/
theorem append_inj_of_byteLength {a b x y : Text} (h : a ++ b = x ++ y)
    (hlength : a.byteLength = x.byteLength) : a = x ∧ b = y := by
  have ha : (a ++ b).bytePrefix? a.byteLength = some a := bytePrefix?_append a b
  have hx : (x ++ y).bytePrefix? x.byteLength = some x := bytePrefix?_append x y
  rw [h, hlength, hx] at ha
  cases ha
  exact ⟨rfl, List.append_cancel_left h⟩

/-- A text is cut where one of its characters starts, or at its end. -/
theorem bytePrefix?_eq_some_iff {s a : Text} {n : Nat} :
    s.bytePrefix? n = some a ↔ a <+: s ∧ n = a.byteLength := by
  constructor
  · intro h
    fun_induction bytePrefix? s n generalizing a with
    | case1 s =>
      cases h
      exact ⟨List.nil_prefix, rfl⟩
    | case2 n => cases h
    | case3 c s n hle ih =>
      obtain ⟨b, hb, rfl⟩ := Option.map_eq_some_iff.mp h
      obtain ⟨hfront, hlength⟩ := ih hb
      refine ⟨List.cons_prefix_cons.mpr ⟨rfl, hfront⟩, ?_⟩
      rw [byteLength_cons]
      omega
    | case4 c s n hle => cases h
  · rintro ⟨⟨b, rfl⟩, rfl⟩
    exact bytePrefix?_append a b

/-- The offset `o` is the end of a front part of `s`: it lies between two characters, or at one of
the two ends. -/
def IsBoundary (s : Text) (o : Nat) : Prop :=
  ∃ a : Text, a <+: s ∧ o = a.byteLength

theorem isBoundary_iff_isSome {s : Text} {o : Nat} :
    s.IsBoundary o ↔ (s.bytePrefix? o).isSome = true := by
  rw [Option.isSome_iff_exists]
  exact exists_congr fun a => bytePrefix?_eq_some_iff.symm

instance (s : Text) (o : Nat) : Decidable (s.IsBoundary o) :=
  decidable_of_iff _ isBoundary_iff_isSome.symm

end Text

namespace Place

theorem location_lt {p q : Place} {a b : Text} (hp : p.Behind a) (hq : q.Behind b)
    (hcode : p.code = q.code) (hoffset : p.offset < q.offset) : p.location < q.location := by
  have hbytes : a.byteLength < b.byteLength := by
    rw [← hp.offset, ← hq.offset]
    exact hoffset
  have hfront : a <+: b :=
    Text.prefix_of_byteLength_le hp.front (hcode ▸ hq.front) (Nat.le_of_lt hbytes)
  have hne : a ≠ b := by
    rintro rfl
    omega
  rw [hp.location, hq.location]
  exact Location.after_lt_of_prefix .start hfront hne

/-- The boundaries of a text whose location is at the target or behind it. -/
def reaching (code : Text) (target : Location) : Set Nat :=
  {o | code.IsBoundary o ∧ target ≤ (Place.mk code o).location}

/-- The place of a location is the first one that reaches it. -/
theorem isLeast_offset_ofLocation {code : Text} {target : Location}
    (h : (reaching code target).Nonempty) :
    IsLeast (reaching code target) (ofLocation code target).offset := by
  obtain ⟨a, b, hcode, hoffset, hbefore, hend⟩ := offsetOf_spec target .start code
  have hfront : a <+: code := ⟨b, hcode.symm⟩
  -- a boundary before the end of `a` is the end of a smaller part, which the scan has passed
  have hleast : ∀ o ∈ reaching code target, a.byteLength ≤ o := by
    rintro o ⟨⟨x, hx, ho⟩, hreach⟩
    have hplace : (Place.mk code o).Behind x := ⟨hx, ho⟩
    by_contra hlt
    have hxa : x <+: a := Text.prefix_of_byteLength_le hx hfront (by omega)
    refine hbefore x hxa ?_ (hplace.location ▸ hreach)
    rintro rfl
    omega
  have hplace : (Place.mk code a.byteLength).Behind a := ⟨hfront, rfl⟩
  have hreach : target ≤ (Place.mk code a.byteLength).location := by
    rw [hplace.location]
    rcases hend with hend | rfl
    · exact hend
    · obtain ⟨_, ⟨x, hx, rfl⟩, hreach⟩ := h
      have hbehind : (Place.mk code x.byteLength).Behind x := ⟨hx, rfl⟩
      rw [hbehind.location] at hreach
      rw [List.append_nil] at hcode
      obtain ⟨y, rfl⟩ := hcode ▸ hx
      rw [Location.after_append]
      exact Location.le_trans hreach (Location.le_after _ y)
  show IsLeast (reaching code target) (offsetOf target .start code)
  rw [hoffset]
  exact ⟨⟨⟨a, hfront, rfl⟩, hreach⟩, hleast⟩

theorem offset_ofLocation_of_unreached {code : Text} {target : Location}
    (h : reaching code target = ∅) : (ofLocation code target).offset = code.byteLength := by
  obtain ⟨a, b, hcode, hoffset, -, hend⟩ := offsetOf_spec target .start code
  rcases hend with hend | rfl
  · have hplace : (Place.mk code a.byteLength).Behind a := ⟨⟨b, hcode.symm⟩, rfl⟩
    have hmem : a.byteLength ∈ reaching code target :=
      ⟨⟨a, hplace.front, rfl⟩, hplace.location ▸ hend⟩
    rw [h] at hmem
    exact hmem.elim
  · rw [List.append_nil] at hcode
    rw [hcode]
    exact hcode ▸ hoffset

/-- **Offsets and locations are inverse.** Both ends of a text are boundaries. From boundary to
boundary the location grows. The place of any location is the least boundary that reaches it, and the
end of the text if there is none; so the place of the location of a boundary is this boundary. The
place where a rest starts is behind the part in front of it. -/
theorem offsets_and_locations_are_inverse (code : Text) :
    (code.IsBoundary 0 ∧ code.IsBoundary code.byteLength) ∧
    (∀ o o', code.IsBoundary o → code.IsBoundary o' → o < o' →
      (Place.mk code o).location < (Place.mk code o').location) ∧
    (∀ target,
      ((reaching code target).Nonempty →
        IsLeast (reaching code target) (ofLocation code target).offset) ∧
      (reaching code target = ∅ → (ofLocation code target).offset = code.byteLength)) ∧
    (∀ o, code.IsBoundary o → (ofLocation code (Place.mk code o).location).offset = o) ∧
    ∀ a b, code = a ++ b → (ofRest code b).offset = a.byteLength ∧
      (ofRest code b).location = Location.start.after a := by
  refine ⟨⟨⟨[], List.nil_prefix, rfl⟩, code, List.prefix_rfl, rfl⟩, ?_, ?_, ?_, ?_⟩
  · rintro o o' ⟨a, ha, ho⟩ ⟨b, hb, ho'⟩ hlt
    have hp : (Place.mk code o).Behind a := ⟨ha, ho⟩
    have hq : (Place.mk code o').Behind b := ⟨hb, ho'⟩
    exact location_lt hp hq rfl hlt
  · exact fun target => ⟨isLeast_offset_ofLocation, offset_ofLocation_of_unreached⟩
  · rintro o ⟨a, ⟨b, rfl⟩, ho⟩
    have hplace : (Place.mk (a ++ b) o).Behind a := ⟨List.prefix_append a b, ho⟩
    rw [hplace.location, ho]
    exact offsetOf_after .start a b
  · rintro a b rfl
    have hplace : (ofRest (a ++ b) b).Behind a := behind_ofRest a b
    exact ⟨hplace.offset, hplace.location⟩

/-- Column nine of the first line is behind its end, and leads to the empty line below. -/
theorem offsets_and_locations_are_inverse_of_short_line :
    let code : Text := ['é', '\n', '\n', 'b']
    (code.IsBoundary 2 ∧ code.IsBoundary 3 ∧ ¬ code.IsBoundary 1) ∧
    (Place.mk code 2).location < (Place.mk code 3).location ∧
    ((Place.mk code 3).location = ⟨2, 1⟩ ∧ IsLeast (reaching code ⟨1, 9⟩) 3) ∧
    (ofLocation code (Place.mk code 3).location).offset = 3 ∧
    (ofRest code ['b']).location = Location.start.after ['é', '\n', '\n'] := by
  intro code
  have h₂ : code.IsBoundary 2 := by decide
  have h₃ : code.IsBoundary 3 := by decide
  obtain ⟨-, hlt, hscan, hback, hrest⟩ := offsets_and_locations_are_inverse code
  have hreach : (reaching code ⟨1, 9⟩).Nonempty := ⟨3, h₃, by decide⟩
  exact ⟨⟨h₂, h₃, by decide⟩, hlt 2 3 h₂ h₃ (by decide), ⟨by decide, (hscan ⟨1, 9⟩).1 hreach⟩,
    hback 3 h₃, (hrest ['é', '\n', '\n'] ['b'] rfl).2⟩

end Place

end Descent
