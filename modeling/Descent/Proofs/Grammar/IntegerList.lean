import Descent.Proofs.Grammar.NestedList

/-!
# Lists of integers

Integers with a separator between them are read as they are written: each run of digits as a whole,
and only if its value is in range. The separator is any text that does not begin with a digit, so
that it is told from a number where it starts; behind its first character it may have digits. A
number that is out of range ends the list, together with the separator in front of it.

* `Writes`: the digits of an integer in range. There may be zeros in front.
* `number_reads`, `number_fails`: what is found at the front of a text.
* `items_sound`: what a list finds is written in the text, run by run.
* `items_complete`: what is written is found, up to a place where no further item begins.
* `integer_lists_are_decoded_exactly`: both for whole texts, and what becomes of other texts.
-/

namespace Descent.IntegerList

open Descent.Parser Descent.Text Descent.Grammar

/-! ## Numbers in a text -/

/-- The digits write down the integer `n`, which is in range. -/
structure Writes (digits : Text) (n : Int) : Prop where
  ne_nil : digits ≠ []
  isDigit : ∀ c ∈ digits, c.isDigit
  value : (decimalValue digits : Int) = n
  inRange : n ≤ Value.maxInt

/-- No item begins at the front of the text: the digits there, if any, are no integer in range. -/
def NoItem (s : Text) : Prop :=
  ∀ digits rest n, s = digits ++ rest → NoDigit rest → ¬ Writes digits n

theorem noDigit_dropWhile (s : Text) : NoDigit (s.dropWhile Char.isDigit) := by
  intro c hc
  have h := List.head?_dropWhile_not Char.isDigit s
  rw [hc] at h
  exact h

/-- A text begins with digits, perhaps none, behind which there is none. -/
theorem exists_digits (s : Text) :
    ∃ digits rest, s = digits ++ rest ∧ (∀ c ∈ digits, c.isDigit) ∧ NoDigit rest :=
  ⟨s.takeWhile Char.isDigit, s.dropWhile Char.isDigit, List.takeWhile_append_dropWhile.symm,
    fun _ hc => List.mem_takeWhile_imp hc, noDigit_dropWhile s⟩

/-- A run of digits that writes no integer is no item, and no part of it is one. -/
theorem noItem_of_not_writes {digits rest : Text} (hdigits : ∀ c ∈ digits, c.isDigit)
    (hrest : NoDigit rest) (h : ∀ n, ¬ Writes digits n) : NoItem (digits ++ rest) := by
  intro digits' rest' n hs hrest' hwrites
  have hrun := takeWhile_isDigit_append hdigits hrest
  rw [hs, takeWhile_isDigit_append hwrites.isDigit hrest'] at hrun
  exact h n (hrun ▸ hwrites)

/-- A run of digits that writes too large a number is left alone as a whole. -/
theorem noItem_of_out_of_range {digits rest : Text} (hdigits : ∀ c ∈ digits, c.isDigit)
    (hrest : NoDigit rest) (h : Value.maxInt < decimalValue digits) : NoItem (digits ++ rest) := by
  refine noItem_of_not_writes hdigits hrest fun n hwrites => ?_
  have hvalue := hwrites.value
  have hrange := hwrites.inRange
  omega

theorem noItem_nil : NoItem [] := by
  intro digits rest n hs _ hwrites
  exact hwrites.ne_nil (List.append_eq_nil_iff.mp hs.symm).1

theorem decimalValue_decimal (n : Nat) : decimalValue (decimal n) = n :=
  Nat.ofDigitChars_toDigits (by decide) (by decide)

theorem writes_decimal {n : Nat} (h : (n : Int) ≤ Value.maxInt) : Writes (decimal n) n where
  ne_nil := Nat.toDigits_ne_nil
  isDigit := fun _ hc => Nat.isDigit_of_mem_toDigits (by decide) (by decide) hc
  value := congrArg Nat.cast (decimalValue_decimal n)
  inRange := h

theorem intercalate_cons_eq (sep t : Text) (ts : List Text) :
    sep.intercalate (t :: ts) = t ++ ts.flatMap (sep ++ ·) := by
  induction ts generalizing t with
  | nil => simp
  | cons t' ts ih => rw [List.intercalate_cons_cons, ih, List.flatMap_cons, List.append_assoc,
      List.append_assoc]

/-! ## Parsers -/

section Parsers

variable {κ : Type} [Clock κ] {k k' : κ} {s rest sep digits : Text} {v : Value} {n : Int}

/-- An integer. -/
def number : Parser κ Value :=
  .tryMap Extraction.readInt.apply (.map .str (Terminal.run Char.isDigit 1 none).parser)

/-- What stands between two integers. -/
def separator (sep : Text) : Parser κ Value :=
  .map .str (Terminal.literal sep).parser

/-- Integers with separators between them, as `sepBy integer (literal sep)` reads them. -/
def items (sep : Text) : Parser κ Value :=
  .map .list (.sepBy number (separator sep))

theorem digits_read (hdigits : ∀ c ∈ digits, c.isDigit) (hne : digits ≠ [])
    (hrest : NoDigit rest) (k : κ) :
    Parser.map Value.str (Terminal.run Char.isDigit 1 none).parser k (digits ++ rest) =
      some ⟨.success (.str digits) rest, Clock.advance k digits⟩ := by
  refine map_eq_success_iff.mpr ⟨digits, ?_, rfl⟩
  rw [Terminal.parser, Terminal.matchLength?_digits, takeWhile_isDigit_append hdigits hrest,
    if_neg hne]
  simp

theorem digits_fail (hs : NoDigit s) (k : κ) :
    Parser.map Value.str (Terminal.run Char.isDigit 1 none).parser k s =
      some ⟨.failure s none, k⟩ := by
  refine map_eq_some_iff.mpr ⟨⟨.failure s none, k⟩, ?_, rfl⟩
  rw [Terminal.parser, Terminal.matchLength?_digits, hs.takeWhile_eq_nil, if_pos rfl]

theorem number_reads (h : Writes digits n) (hrest : NoDigit rest) (k : κ) :
    number k (digits ++ rest) = some ⟨.success (.int n) rest, Clock.advance k digits⟩ := by
  refine tryMap_eq_success_iff.mpr ⟨.str digits, digits_read h.isDigit h.ne_nil hrest k, ?_⟩
  have hrange : (decimalValue digits : Int) ≤ Value.maxInt := h.value ▸ h.inRange
  rw [Extraction.apply, NestedList.readInt?_of_digits h.ne_nil h.isDigit, if_pos hrange, h.value]
  rfl

/-- Where there is no item, everything is given back. Only the clock may have passed digits that are
out of range. -/
theorem number_fails (h : NoItem s) (k : κ) :
    ∃ k', number k s = some ⟨.failure s none, k'⟩ := by
  obtain ⟨digits, rest, rfl, hdigits, hrest⟩ := exists_digits s
  by_cases hne : digits = []
  · subst hne
    exact ⟨k, andThen_eq_some_iff.mpr (.inl ⟨_, _, _, digits_fail hrest k, rfl⟩)⟩
  · have hrange : ¬ (decimalValue digits : Int) ≤ Value.maxInt := fun hle =>
      h digits rest _ rfl hrest ⟨hne, hdigits, rfl, hle⟩
    have hrun := digits_read hdigits hne hrest k
    refine ⟨Clock.advance k digits, andThen_eq_some_iff.mpr ?_⟩
    refine .inr ⟨_, _, _, ⟨.failure rest none, Clock.advance k digits⟩, hrun, ?_, rfl⟩
    rw [Extraction.apply, NestedList.readInt?_of_digits hne hdigits, if_neg hrange]
    rfl

/-- The digits that are read are a whole run, and their value is what is found. -/
theorem number_sound (h : number k s = some ⟨.success v rest, k'⟩) :
    ∃ digits n, s = digits ++ rest ∧ v = .int n ∧ Writes digits n ∧ NoDigit rest := by
  by_cases hs : NoItem s
  · obtain ⟨k₁, hfail⟩ := number_fails hs k
    cases hfail.symm.trans h
  · simp only [NoItem, not_forall, not_not] at hs
    obtain ⟨digits, rest', n, rfl, hrest', hwrites⟩ := hs
    cases (number_reads hwrites hrest' k).symm.trans h
    exact ⟨digits, n, rfl, rfl, hwrites, hrest'⟩

theorem separator_sound (h : separator sep k s = some ⟨.success v rest, k'⟩) : s = sep ++ rest := by
  obtain ⟨text, hr, -⟩ := map_eq_success_iff.mp h
  rcases Terminal.parser_eq_some_iff.mp hr with ⟨-, he⟩ | ⟨n, hn, he⟩
  · cases he
  · cases he
    simp only [Terminal.matchLength?, Option.ite_none_right_eq_some, Option.some.injEq] at hn
    obtain ⟨hfront, rfl⟩ := hn
    obtain ⟨behind, rfl⟩ := List.isPrefixOf_iff_prefix.mp hfront
    rw [List.drop_left]

theorem separator_reads (sep rest : Text) (k : κ) :
    separator sep k (sep ++ rest) =
      some ⟨.success (.str sep) rest, Clock.advance k sep⟩ := by
  simp [separator, Parser.map, Terminal.parser, Terminal.matchLength?, Reply.map, Outcome.map]

theorem separator_fails (h : ¬ sep <+: s) (k : κ) :
    separator sep k s = some ⟨.failure s none, k⟩ := by
  simp [separator, Parser.map, Terminal.parser, Terminal.matchLength?, Reply.map, Outcome.map, h]

/-! ## Soundness -/

/-- A separator and an integer consume something, the integer if nothing else. -/
theorem round_consumes {digits : Text} (sep rest : Text) (hne : digits ≠ []) :
    rest.byteLength ≠ (sep ++ (digits ++ rest)).byteLength := by
  have hdigits : digits.byteLength ≠ 0 := mt eq_nil_of_byteLength_eq_zero hne
  rw [byteLength_append, byteLength_append]
  omega

/-- The case of a round that consumes nothing does not arise: an integer was consumed. -/
theorem rounds_sound {values : List Value}
    (h : SeparatedRounds number (separator sep) k s values rest k') :
    ∃ ds ns, values = ns.map .int ∧ List.Forall₂ Writes ds ns ∧
      s = ds.flatMap (sep ++ ·) ++ rest ∧ (ds ≠ [] → NoDigit rest) := by
  induction h with
  | done _ => exact ⟨[], [], rfl, .nil, rfl, fun hne => absurd rfl hne⟩
  | dangling _ _ => exact ⟨[], [], rfl, .nil, rfl, fun hne => absurd rfl hne⟩
  | last hsep hv hlen =>
    obtain rfl := separator_sound hsep
    obtain ⟨digits, n, rfl, -, hwrites, -⟩ := number_sound hv
    exact absurd hlen (round_consumes sep _ hwrites.ne_nil)
  | next hsep hv _ _ ih =>
    obtain rfl := separator_sound hsep
    obtain ⟨digits, n, rfl, rfl, hwrites, hrest⟩ := number_sound hv
    obtain ⟨ds, ns, rfl, hds, rfl, hstop⟩ := ih
    refine ⟨digits :: ds, n :: ns, rfl, .cons hwrites hds, by simp, fun _ => ?_⟩
    cases ds with
    | nil => exact hrest
    | cons d ds => exact hstop (List.cons_ne_nil _ _)

/-- A list that was read is one that was written: items with the separator between them. -/
theorem items_sound {values : List Value}
    (h : Parser.sepBy number (separator sep) k s = some ⟨.success values rest, k'⟩) :
    ∃ ds ns, values = ns.map .int ∧ List.Forall₂ Writes ds ns ∧
      s = sep.intercalate ds ++ rest ∧ (ds ≠ [] → NoDigit rest) := by
  rcases sepBy_eq_some_iff.mp h with
    ⟨_, m, k₁, -, he⟩ | ⟨v, behind, k₁, values', stop, k₂, hv, hrounds, he⟩
  · cases he
    exact ⟨[], [], rfl, .nil, rfl, fun hne => absurd rfl hne⟩
  · cases he
    obtain ⟨digits, n, rfl, rfl, hwrites, hbehind⟩ := number_sound hv
    obtain ⟨ds, ns, rfl, hds, rfl, hstop⟩ := rounds_sound hrounds
    refine ⟨digits :: ds, n :: ns, rfl, .cons hwrites hds, ?_, fun _ => ?_⟩
    · rw [intercalate_cons_eq, List.append_assoc]
    · cases ds with
      | nil => exact hbehind
      | cons d ds => exact hstop (List.cons_ne_nil _ _)

/-! ## Completeness -/

/-- A number ends at a separator, for this does not start with a digit. -/
theorem noDigit_separator (hne : sep ≠ []) (hsep : NoDigit sep) (behind : Text) :
    NoDigit (sep ++ behind) := by
  obtain ⟨c, sep, rfl⟩ := List.exists_cons_of_ne_nil hne
  rintro _ ⟨⟩
  exact hsep c rfl

/-- Behind an item stands the next separator or the end of the list, but no digit. -/
theorem noDigit_flatMap (hne : sep ≠ []) (hsep : NoDigit sep) (ds : List Text)
    (hrest : NoDigit rest) : NoDigit (ds.flatMap (sep ++ ·) ++ rest) := by
  cases ds with
  | nil => exact hrest
  | cons d ds =>
    rw [List.flatMap_cons, List.append_assoc, List.append_assoc]
    exact noDigit_separator hne hsep _

/-- By induction on the items: each round takes a separator and an item, down to a rest where no
further item stands behind a separator. -/
theorem rounds_complete (hne : sep ≠ []) (hsep : NoDigit sep) {ds : List Text} {ns : List Int}
    (h : List.Forall₂ Writes ds ns) (hrest : NoDigit rest)
    (hstop : ∀ behind, rest = sep ++ behind → NoItem behind) (k : κ) :
    ∃ k', SeparatedRounds number (separator sep) k (ds.flatMap (sep ++ ·) ++ rest)
      (ns.map .int) rest k' := by
  induction h generalizing k with
  | nil =>
    by_cases hfront : sep <+: rest
    · obtain ⟨behind, rfl⟩ := hfront
      obtain ⟨k', hfail⟩ := number_fails (hstop behind rfl) (Clock.advance k sep)
      exact ⟨k', .dangling (separator_reads sep behind k) hfail⟩
    · exact ⟨k, .done (separator_fails hfront k)⟩
  | @cons d n ds ns hwrites _ ih =>
    have hbehind := noDigit_flatMap hne hsep ds hrest
    obtain ⟨k', hrounds⟩ := ih (Clock.advance (Clock.advance k sep) d)
    refine ⟨k', ?_⟩
    rw [List.flatMap_cons, List.append_assoc, List.append_assoc]
    refine .next (separator_reads sep _ k) (number_reads hwrites hbehind _) ?_ hrounds
    exact round_consumes sep _ hwrites.ne_nil

/-- A list that was written is read, up to its last item. -/
theorem items_complete (hne : sep ≠ []) (hsep : NoDigit sep) {ds : List Text} {ns : List Int}
    (h : List.Forall₂ Writes ds ns) (hds : ds ≠ []) (hrest : NoDigit rest)
    (hstop : ∀ behind, rest = sep ++ behind → NoItem behind) (k : κ) :
    ∃ k', items sep k (sep.intercalate ds ++ rest) =
      some ⟨.success (.list (ns.map .int)) rest, k'⟩ := by
  cases h with
  | nil => exact absurd rfl hds
  | @cons d n ds ns hwrites hothers =>
    have hbehind := noDigit_flatMap hne hsep ds hrest
    obtain ⟨k', hrounds⟩ :=
      rounds_complete hne hsep hothers hrest hstop (Clock.advance k d)
    rw [intercalate_cons_eq, List.append_assoc]
    refine ⟨k', map_eq_success_iff.mpr ⟨_, ?_, rfl⟩⟩
    exact sepBy_eq_some_iff.mpr
      (.inr ⟨_, _, _, _, _, _, number_reads hwrites hbehind k, hrounds, rfl⟩)

theorem items_of_noItem (h : NoItem s) (k : κ) :
    ∃ k', items sep k s = some ⟨.success (.list []) s, k'⟩ := by
  obtain ⟨k', hfail⟩ := number_fails h k
  have hnone : Parser.sepBy number (separator sep) k s = some ⟨.success [] s, k'⟩ :=
    sepBy_eq_some_iff.mpr (.inl ⟨_, _, _, hfail, rfl⟩)
  exact ⟨k', map_eq_success_iff.mpr ⟨_, hnone, rfl⟩⟩

/-- Every text has a list at its front, which may be empty. -/
theorem exists_items (sep s : Text) (k : κ) :
    ∃ values rest k', items sep k s = some ⟨.success (.list values) rest, k'⟩ := by
  have hnumber : (number : Parser κ Value).AnswersBelow (s.length + 1) :=
    ((Terminal.parser_answersBelow _ _).map _).tryMap _
  have hseparator : (separator sep : Parser κ Value).AnswersBelow (s.length + 1) :=
    (Terminal.parser_answersBelow _ _).map _
  obtain ⟨r, hr⟩ := (hnumber.sepBy hseparator).answers k s (Nat.lt_succ_self _)
  rcases sepBy_eq_some_iff.mp hr with ⟨_, m, k₁, -, rfl⟩ | ⟨_, _, _, _, _, _, -, -, rfl⟩
  · exact ⟨_, _, _, map_eq_success_iff.mpr ⟨_, hr, rfl⟩⟩
  · exact ⟨_, _, _, map_eq_success_iff.mpr ⟨_, hr, rfl⟩⟩

end Parsers

/-! ## Whole texts -/

theorem intercalate_eq_nil_iff {sep : Text} {ds : List Text} {ns : List Int}
    (h : List.Forall₂ Writes ds ns) : sep.intercalate ds = [] ↔ ns = [] := by
  cases h with
  | nil => exact ⟨fun _ => rfl, fun _ => rfl⟩
  | cons hwrites _ => simp [intercalate_cons_eq, hwrites.ne_nil]

theorem writes_map_decimal {ns : List Nat} (h : ∀ n ∈ ns, (n : Int) ≤ Value.maxInt) :
    List.Forall₂ Writes (ns.map decimal) (ns.map Nat.cast) := by
  induction ns with
  | nil => exact .nil
  | cons n ns ih =>
    obtain ⟨hn, hns⟩ := List.forall_mem_cons.mp h
    exact .cons (writes_decimal hn) (ih hns)

/-- Whole texts are read as they are written. -/
theorem items_complete_iff {sep : Text} (hne : sep ≠ []) (hsep : NoDigit sep) {l : Location}
    {s : Text} {ns : List Int} :
    (∃ l', items sep l s = some ⟨.success (.list (ns.map .int)) [], l'⟩) ↔
      ∃ ds, List.Forall₂ Writes ds ns ∧ s = sep.intercalate ds := by
  constructor
  · rintro ⟨l', h⟩
    obtain ⟨values, hitems, hvalues⟩ := map_eq_success_iff.mp h
    obtain ⟨ds, ns', hns, hds, rfl, -⟩ := items_sound hitems
    have hvalues : values = ns.map .int := Value.list.inj hvalues
    obtain rfl : ns = ns' := List.map_injective_iff.mpr (fun _ _ => Value.int.inj)
      (hvalues.symm.trans hns)
    exact ⟨ds, hds, List.append_nil _⟩
  · rintro ⟨ds, hds, rfl⟩
    cases hds with
    | nil => exact items_of_noItem noItem_nil l
    | cons hwrites hothers =>
      have hstop : ∀ behind, [] = sep ++ behind → NoItem behind := fun behind h =>
        absurd (List.append_eq_nil_iff.mp h.symm).1 hne
      have hnil : NoDigit [] := nofun
      have hitems := items_complete hne hsep (.cons hwrites hothers) (List.cons_ne_nil _ _) hnil
        hstop l
      rwa [List.append_nil] at hitems

/-- **Lists of integers are decoded exactly.** With a separator that is not empty and does not begin
with a digit, a whole text is read as the integers `ns` if and only if it is made of digits of each of
them, with separators in between. So the numerals of any integers in range lead back to them. Of any
text at all, a list reads runs of digits as a whole and what they write down, and leaves the rest
behind the last of them. A run of digits that is out of range is no integer: a list that begins with
it is empty and leaves everything, and behind other integers it is left together with the separator in
front of it. -/
theorem integer_lists_are_decoded_exactly {sep : Text} (hne : sep ≠ []) (hsep : NoDigit sep)
    (rules : Rules) (depth : Nat) (l : Location) :
    let p : Parser Location Value := (sepBy integer (literal sep)).parser rules depth none
    (∀ s ns, (∃ l', p l s = some ⟨.success (.list (ns.map .int)) [], l'⟩) ↔
      ∃ ds, List.Forall₂ Writes ds ns ∧ s = sep.intercalate ds ∧ (s = [] ↔ ns = [])) ∧
    (∀ ns : List Nat, (∀ n ∈ ns, (n : Int) ≤ Value.maxInt) →
      ∃ l', p l (sep.intercalate (ns.map decimal)) =
        some ⟨.success (.list (ns.map fun n : Nat => .int n)) [], l'⟩) ∧
    (∀ s, ∃ ds ns rest l', p l s = some ⟨.success (.list (ns.map .int)) rest, l'⟩ ∧
      List.Forall₂ Writes ds ns ∧ s = sep.intercalate ds ++ rest ∧ (ds ≠ [] → NoDigit rest)) ∧
    ∀ digits rest, (∀ c ∈ digits, c.isDigit) → NoDigit rest →
      Value.maxInt < decimalValue digits →
      (∃ l', integer.parser rules depth none l (digits ++ rest) =
        some ⟨.failure (digits ++ rest) none, l'⟩) ∧
      (∃ l', p l (digits ++ rest) = some ⟨.success (.list []) (digits ++ rest), l'⟩) ∧
      ∀ ds ns, List.Forall₂ Writes ds ns → ds ≠ [] →
        ∃ l', p l (sep.intercalate ds ++ (sep ++ (digits ++ rest))) =
          some ⟨.success (.list (ns.map .int)) (sep ++ (digits ++ rest)), l'⟩ := by
  intro p
  refine ⟨?_, ?_, ?_, ?_⟩
  · intro s ns
    refine (items_complete_iff hne hsep).trans (exists_congr fun ds => ?_)
    constructor
    · rintro ⟨hds, rfl⟩
      exact ⟨hds, rfl, intercalate_eq_nil_iff hds⟩
    · rintro ⟨hds, hs, -⟩
      exact ⟨hds, hs⟩
  · intro ns hns
    have hread := (items_complete_iff hne hsep (l := l)).mpr ⟨_, writes_map_decimal hns, rfl⟩
    rwa [List.map_map] at hread
  · intro s
    obtain ⟨values, rest, l', h⟩ := exists_items sep s l
    obtain ⟨values, hitems, he⟩ := map_eq_success_iff.mp h
    obtain ⟨ds, ns, rfl, hds, hs, hrest⟩ := items_sound hitems
    exact ⟨ds, ns, rest, l', he ▸ h, hds, hs, hrest⟩
  · intro digits rest hdigits hrest hrange
    have hnone := noItem_of_out_of_range hdigits hrest hrange
    refine ⟨number_fails hnone l, items_of_noItem hnone l, ?_⟩
    intro ds ns hds hds'
    have hbehind : NoDigit (sep ++ (digits ++ rest)) := noDigit_separator hne hsep _
    refine items_complete hne hsep hds hds' hbehind (fun behind h => ?_) l
    exact List.append_cancel_left h ▸ hnone

/-- A separator with a digit in it, a number with zeros in front, the largest integer, and behind them
the next number, which is out of range. -/
theorem integer_lists_are_decoded_exactly_of_digit_in_separator :
    let sep := ";1".toList
    let p : Parser Location Value := (sepBy integer (literal sep)).parser {} 0 none
    let digits := "9223372036854775808".toList
    sep ≠ [] ∧ NoDigit sep ∧
    (∃ l', p ⟨1, 1⟩ "007;19223372036854775807".toList =
      some ⟨.success (.list [.int 7, .int 9223372036854775807]) [], l'⟩) ∧
    (∃ l', p ⟨1, 1⟩ (sep.intercalate ([7, 12].map decimal)) =
      some ⟨.success (.list [.int 7, .int 12]) [], l'⟩) ∧
    (∀ c ∈ digits, c.isDigit) ∧ NoDigit ['!'] ∧ Value.maxInt < decimalValue digits ∧
    ∃ l', p ⟨1, 1⟩ "007;19223372036854775808!".toList =
      some ⟨.success (.list [.int 7]) ";19223372036854775808!".toList, l'⟩ := by
  intro sep p digits
  have hne : sep ≠ [] := by decide
  have hsep : NoDigit sep := by
    rintro _ ⟨⟩
    rfl
  have hmark : NoDigit ['!'] := by
    rintro _ ⟨⟩
    rfl
  have hdigits : ∀ c ∈ digits, c.isDigit := List.all_eq_true.mp rfl
  have hrange : Value.maxInt < decimalValue digits := by decide
  have hseven : Writes "007".toList 7 :=
    ⟨by decide, List.all_eq_true.mp rfl, by decide, by decide⟩
  have hlargest : Writes "9223372036854775807".toList 9223372036854775807 :=
    ⟨by decide, List.all_eq_true.mp rfl, by decide, by decide⟩
  obtain ⟨hwhole, hdecimal, -, hlimit⟩ :=
    integer_lists_are_decoded_exactly hne hsep {} 0 ⟨1, 1⟩
  refine ⟨hne, hsep, ?_, hdecimal [7, 12] (by decide), hdigits, hmark, hrange, ?_⟩
  · exact (hwhole "007;19223372036854775807".toList [7, 9223372036854775807]).mpr
      ⟨_, .cons hseven (.cons hlargest .nil), rfl, by decide⟩
  · exact (hlimit digits ['!'] hdigits hmark hrange).2.2 _ _ (.cons hseven .nil) (by decide)

end Descent.IntegerList
