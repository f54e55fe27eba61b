import Descent.Proofs.Grammar.Guarded
import Descent.Proofs.Grammar.Whole
import Descent.Proofs.Terminal.Tokens
import Mathlib.Tactic

/-!
# The language of nested lists

A value is an integer, or a list of values between square brackets with commas between them. The
grammar refers to itself, skips white space around every token, and reads a whole text. This module
says which texts it accepts: the renderings of a tree of lists and integers, and for each of them it
finds this tree.

A tree is written down as a sequence of tokens (`Tokens`), and a rendering is such a sequence with
white space (`Renders`). The two directions are shown for one round of the recursion each, that is for
the parser of a value, given one of the values inside it. Then follows an induction on the depth.

* `element_sound`, `value_sound`: what is found is written in the text.
* `element_complete`, `value_complete`: what is written in the text is found. The depth that is
  needed is bounded by the length of the text, since each bracket takes a character.
* `nested_lists_are_read_exactly`: the language.
-/

namespace Descent.NestedList

open Descent.Parser Descent.Text Descent.Grammar

/-! ## The grammar -/

/-- An integer, or a list of values. -/
def element {ρ : Type} : Grammar ρ :=
  choice [integer, between (literal ['[']) (literal [']']) (commaList (ref (.cell "value")))]

/-- A value is an integer, or a list of values. -/
def rules : Rules :=
  ⟨[("value", element)], [("value", element)]⟩

/-- A value, with white space skipped around every token. -/
def document : Grammar Regex.Program :=
  terminals (.skip whitespace) (ref (.cell "value"))

/-! ## The language -/

/-- The sequences of tokens that write down a tree of lists and integers. An integer can have any
number of zeros in front. -/
inductive Tokens : Value → List Text → Prop
  | int {digits : Text} : digits ≠ [] → (∀ c ∈ digits, c.isDigit) →
      (decimalValue digits : Int) ≤ Value.maxInt → Tokens (.int (decimalValue digits)) [digits]
  | list {vs : List Value} {tss : List (List Text)} : List.Forall₂ Tokens vs tss →
      Tokens (.list vs) (['['] :: (List.intercalate [[',']] tss ++ [[']']]))

/-- The text writes down `v`, with any white space before and after each token. -/
def Renders (v : Value) (s : Text) : Prop :=
  ∃ ts, Tokens v ts ∧ Spaced ts s []

theorem intercalate_cons (ts : List Text) (tss : List (List Text)) :
    List.intercalate [[',']] (ts :: tss) = ts ++ tss.flatMap ([','] :: ·) := by
  induction tss generalizing ts with
  | nil => simp
  | cons ts' tss ih =>
    rw [List.intercalate_cons_cons, ih]
    simp

/-! ## Parsers of tokens -/

section Parsers

variable {κ : Type} [Clock κ] {item : Parser κ Value} {k k' : κ} {s s' rest : Text} {v : Value}
  {n : Nat}

/-- A single character. -/
def symbol (c : Char) : Parser κ Value :=
  .map .str (Terminal.literal [c]).spaced

/-- An integer. -/
def number : Parser κ Value :=
  .tryMap Extraction.readInt.apply (.map .str (Terminal.run Char.isDigit 1 none).spaced)

/-- The parser of a value, given the parser of the values inside it. -/
def elementOf (item : Parser κ Value) : Parser κ Value :=
  .choice [number,
    .between (symbol '[') (symbol ']') (.map .list (.sepBy item (symbol ',')))]

/-- The parser of a value, with references nested to a depth of `n`. -/
def value (κ : Type) [Clock κ] (n : Nat) : Parser κ Value :=
  rules.resolve n (.cell "value") (.spaceSkipped κ)

theorem value_succ (n : Nat) : value κ (n + 1) = elementOf (value κ n) := rfl

theorem symbol_eq_token {c : Char} (h : symbol c k s = some ⟨.success v rest, k'⟩) :
    Spaced [[c]] s rest := by
  obtain ⟨text, hr, -⟩ := map_eq_success_iff.mp h
  obtain ⟨hspaced, n, hn, rfl⟩ := Terminal.spaced_eq_token hr
  simp only [Terminal.matchLength?, Option.ite_none_right_eq_some, Option.some.injEq] at hn
  obtain ⟨hfront, rfl⟩ := hn
  rwa [← List.prefix_iff_eq_take.mp (List.isPrefixOf_iff_prefix.mp hfront)] at hspaced

/-- A symbol is read behind any space in front of it, and the space behind it is skipped. -/
theorem symbol_reads {c : Char} {ts : List Text} (hc : isWhiteSpace c = false)
    (h : Spaced ([c] :: ts) s rest) (hs : behindSpace s' = behindSpace s) :
    ∃ mid, Spaced ts mid rest ∧ mid.length < s'.length ∧
      ∀ k : κ, ∃ k', symbol c k s' = some ⟨.success (.str [c]) (behindSpace mid), k'⟩ := by
  obtain ⟨mid, hmid, hlength, hr⟩ := Terminal.literal_reads (κ := κ) hc h hs
  refine ⟨mid, hmid, hlength, fun k => ?_⟩
  obtain ⟨k', hr⟩ := hr k
  exact ⟨k', map_eq_success_iff.mpr ⟨_, hr, rfl⟩⟩

theorem symbol_fails {c d : Char} {x : Text} (hs : behindSpace s = d :: x) (hd : c ≠ d) (k : κ) :
    ∃ k', symbol c k s = some ⟨.failure s none, k'⟩ := by
  obtain ⟨k', hr⟩ := Terminal.literal_fails hs hd k
  exact ⟨k', map_eq_some_iff.mpr ⟨_, hr, rfl⟩⟩

/-- Digits have no sign in front of them. -/
theorem readInt?_of_digits {digits : Text} (hne : digits ≠ []) (hdigits : ∀ c ∈ digits, c.isDigit) :
    readInt? digits =
      if (decimalValue digits : Int) ≤ Value.maxInt then some (decimalValue digits : Int)
      else none := by
  have hread : readDigits? digits = some (decimalValue digits) := by
    simpa [readDigits?, hne] using hdigits
  have hmin : Value.minInt ≤ (decimalValue digits : Int) := by
    simp only [Value.minInt]
    omega
  unfold readInt?
  split
  · exact absurd (hdigits '-' List.mem_cons_self) (by decide)
  · exact absurd (hdigits '+' List.mem_cons_self) (by decide)
  · simp [hread, Value.inRange?, hmin]

theorem number_sound (h : number k s = some ⟨.success v rest, k'⟩) :
    ∃ ts, Tokens v ts ∧ Spaced ts s rest := by
  obtain ⟨u, hu, hv⟩ := tryMap_eq_success_iff.mp h
  obtain ⟨digits, hr, rfl⟩ := map_eq_success_iff.mp hu
  obtain ⟨hspaced, hne, hdigits⟩ := Terminal.digits_eq_token hr
  simp only [Extraction.apply, readInt?_of_digits hne hdigits, Option.map_eq_some_iff,
    Option.ite_none_right_eq_some, Option.some.injEq] at hv
  obtain ⟨m, ⟨hmax, rfl⟩, rfl⟩ := hv
  exact ⟨[digits], .int hne hdigits hmax, hspaced⟩

/-- A number ends where its digits do, so no digit may stand behind them. -/
theorem number_complete {digits : Text} (hne : digits ≠ []) (hdigits : ∀ c ∈ digits, c.isDigit)
    (hmax : (decimalValue digits : Int) ≤ Value.maxInt) (h : Spaced [digits] s rest)
    (hrest : NoDigit rest) (hs : behindSpace s' = behindSpace s) (k : κ) :
    ∃ k', number k s' = some ⟨.success (.int (decimalValue digits)) (behindSpace rest), k'⟩ := by
  obtain ⟨k', hr⟩ := Terminal.digits_read hne hdigits h hrest hs k
  refine ⟨k', tryMap_eq_success_iff.mpr ⟨.str digits, map_eq_success_iff.mpr ⟨_, hr, rfl⟩, ?_⟩⟩
  simp [Extraction.apply, readInt?_of_digits hne hdigits, hmax]

theorem number_fails {c : Char} {x : Text} (hs : behindSpace s = c :: x) (hc : c.isDigit = false)
    (k : κ) : ∃ k', number k s = some ⟨.failure s none, k'⟩ := by
  have hnone : NoDigit (behindSpace s) := by
    rw [hs]
    rintro _ ⟨⟩
    exact hc
  obtain ⟨k', hr⟩ := Terminal.digits_fail hnone k
  exact ⟨k', andThen_eq_some_iff.mpr (.inl ⟨_, _, _, map_eq_some_iff.mpr ⟨_, hr, rfl⟩, rfl⟩)⟩

/-! ## Soundness -/

/-- What `p` finds is written at the front of the text. -/
def Sound (p : Parser κ Value) : Prop :=
  ∀ ⦃k s v rest k'⦄, p k s = some ⟨.success v rest, k'⟩ → ∃ ts, Tokens v ts ∧ Spaced ts s rest

omit [Clock κ] in
theorem Sound.length_le {p : Parser κ Value} (hp : Sound p)
    (h : p k s = some ⟨.success v rest, k'⟩) : rest.length ≤ s.length := by
  obtain ⟨ts, -, hspaced⟩ := hp h
  have hlength := hspaced.length_add_le
  omega

/-- A comma and an item consume something, the comma if nothing else. -/
theorem round_consumes {κ : Type} [Clock κ] {item : Parser κ Value} (hitem : Sound item)
    {k k₁ k₂ : κ} {s behind rest : Text} {u v : Value}
    (hcomma : symbol ',' k s = some ⟨.success u behind, k₁⟩)
    (hv : item k₁ behind = some ⟨.success v rest, k₂⟩) : rest.byteLength ≠ s.byteLength := by
  obtain ⟨ts, -, hspaced⟩ := hitem hv
  have htokens := (symbol_eq_token hcomma).append hspaced
  have hlength := htokens.length_add_le
  refine (length_lt_iff_of_suffix htokens.suffix).mp ?_
  simp only [List.cons_append, List.nil_append, List.flatten_cons, List.length_cons] at hlength
  omega

/-- The case of a round that consumes nothing does not arise: a comma was consumed. -/
theorem rounds_sound (hitem : Sound item) {vs : List Value}
    (h : SeparatedRounds item (symbol ',') k s vs rest k') :
    ∃ tss, List.Forall₂ Tokens vs tss ∧ Spaced (tss.flatMap ([','] :: ·)) s rest := by
  induction h with
  | done _ => exact ⟨[], .nil, .nil⟩
  | dangling _ _ => exact ⟨[], .nil, .nil⟩
  | last hcomma hv hlen =>
    exact absurd hlen (round_consumes hitem hcomma hv)
  | next hcomma hv _ _ ih =>
    obtain ⟨ts, htokens, hspaced⟩ := hitem hv
    obtain ⟨tss, hvs, hrounds⟩ := ih
    refine ⟨ts :: tss, .cons htokens hvs, ?_⟩
    exact (symbol_eq_token hcomma).append (hspaced.append hrounds)

theorem items_sound (hitem : Sound item) {vs : List Value}
    (h : sepBy item (symbol ',') k s = some ⟨.success vs rest, k'⟩) :
    ∃ tss, List.Forall₂ Tokens vs tss ∧ Spaced (List.intercalate [[',']] tss) s rest := by
  rcases sepBy_eq_some_iff.mp h with
    ⟨_, m, k₁, -, he⟩ | ⟨v, behind, k₁, vs', stop, k₂, hv, hrounds, he⟩
  · cases he
    exact ⟨[], .nil, .nil⟩
  · cases he
    obtain ⟨ts, htokens, hspaced⟩ := hitem hv
    obtain ⟨tss, hvs, hspaced'⟩ := rounds_sound hitem hrounds
    refine ⟨ts :: tss, .cons htokens hvs, ?_⟩
    rw [intercalate_cons]
    exact hspaced.append hspaced'

/-- A value is a number or a list in brackets, and both are sound if the items are. -/
theorem element_sound (hitem : Sound item) : Sound (elementOf item) := by
  intro k s v rest k' h
  rcases choice_cons_eq_some_iff.mp h with ⟨_, m, k₁, -, hlist⟩ | ⟨v', rest', k₁, hnumber, he⟩
  · rcases choice_cons_eq_some_iff.mp hlist with ⟨_, m, k₂, -, hnone⟩ | ⟨v', rest', k₂, hlist, he⟩
    · cases hnone
    · cases he
      obtain ⟨_, behind, k₃, hopen, hinner⟩ := andThen_eq_success_iff.mp hlist
      obtain ⟨_, behind', k₄, hinner, hright⟩ := andThen_eq_success_iff.mp hinner
      obtain ⟨vs, hitems, rfl⟩ := map_eq_success_iff.mp hinner
      obtain ⟨_, hclose, rfl⟩ := map_eq_success_iff.mp hright
      obtain ⟨tss, hvs, hspaced⟩ := items_sound hitem hitems
      refine ⟨_, .list hvs, ?_⟩
      exact (symbol_eq_token hopen).append (hspaced.append (symbol_eq_token hclose))
  · cases he
    exact number_sound hnumber

/-- By induction on the depth, so for any nesting. -/
theorem value_sound (n : Nat) : Sound (value κ n) := by
  induction n with
  | zero => exact nofun
  | succ n ih =>
    rw [value_succ]
    exact element_sound ih

/-! ## Completeness -/

/-- In texts shorter than `n`, `p` finds every value that is written at the front, also behind other
white space than there is in the text; and it fails where a list ends. -/
structure Complete (n : Nat) (p : Parser κ Value) : Prop where
  reads : ∀ ⦃v ts s s' rest⦄ (k : κ), Tokens v ts → Spaced ts s rest → NoDigit rest →
    behindSpace s' = behindSpace s → s'.length < n →
    ∃ k', p k s' = some ⟨.success v (behindSpace rest), k'⟩
  fails : ∀ ⦃s x⦄ (k : κ), behindSpace s = ']' :: x → s.length < n →
    ∃ rest m k', p k s = some ⟨.failure rest m, k'⟩

/-- A list that is not at its end goes on with a comma, so no digit can follow an item. -/
theorem noDigit_of_items {tss : List (List Text)}
    (h : Spaced (tss.flatMap ([','] :: ·) ++ [[']']]) s rest) : NoDigit s := by
  cases tss with
  | nil => exact h.noDigit (by decide)
  | cons ts tss => exact h.noDigit (by decide)

theorem rounds_complete (hsound : Sound item) (hitem : Complete n item) {vs : List Value}
    {tss : List (List Text)} (hvs : List.Forall₂ Tokens vs tss)
    (h : Spaced (tss.flatMap ([','] :: ·) ++ [[']']]) s rest) (hs : behindSpace s' = behindSpace s)
    (hn : s'.length < n) (k : κ) :
    ∃ stop mid k', SeparatedRounds item (symbol ',') k s' vs stop k' ∧ Spaced [[']']] mid rest ∧
      behindSpace stop = behindSpace mid := by
  induction hvs generalizing s s' k with
  | nil =>
    obtain ⟨u, mid, hbehind, -, -⟩ := h.behindSpace_eq (by decide)
    obtain ⟨k', hcomma⟩ := symbol_fails (hs.trans hbehind) (show ',' ≠ ']' by decide) k
    exact ⟨s', s, k', .done hcomma, h, hs⟩
  | @cons v ts vs tss htokens _ ih =>
    rw [List.flatMap_cons, List.append_assoc, List.cons_append] at h
    obtain ⟨mid, hmid, hlength, hcomma⟩ := symbol_reads (κ := κ) (by decide) h hs
    obtain ⟨k₁, hcomma⟩ := hcomma k
    obtain ⟨mid', hfirst, hothers⟩ := hmid.of_append
    -- the comma took all white space behind it, so the item is read at `behindSpace mid`
    have hshorter := behindSpace_length_le mid
    obtain ⟨k₂, hv⟩ := hitem.reads k₁ htokens hfirst (noDigit_of_items hothers)
      (behindSpace_behindSpace mid) (by omega)
    have hless := hsound.length_le hv
    obtain ⟨stop, mid'', k₃, hrounds, hclose, hstop⟩ :=
      ih hothers (behindSpace_behindSpace mid') (by omega) k₂
    have hne := round_consumes hsound hcomma hv
    exact ⟨stop, mid'', k₃, .next hcomma hv hne hrounds, hclose, hstop⟩

/-- Items are read up to the closing bracket, which is neither a comma nor the start of an item. -/
theorem items_complete (hsound : Sound item) (hitem : Complete n item) {vs : List Value}
    {tss : List (List Text)} (hvs : List.Forall₂ Tokens vs tss)
    (h : Spaced (List.intercalate [[',']] tss ++ [[']']]) s rest)
    (hs : behindSpace s' = behindSpace s) (hn : s'.length < n) (k : κ) :
    ∃ stop mid k', sepBy item (symbol ',') k s' = some ⟨.success vs stop, k'⟩ ∧
      Spaced [[']']] mid rest ∧ behindSpace stop = behindSpace mid := by
  cases hvs with
  | nil =>
    obtain ⟨u, mid, hbehind, -, -⟩ := h.behindSpace_eq (by decide)
    obtain ⟨rest', m, k', hfail⟩ := hitem.fails k (hs.trans hbehind) hn
    exact ⟨s', s, k', sepBy_eq_some_iff.mpr (.inl ⟨_, _, _, hfail, rfl⟩), h, hs⟩
  | cons htokens hvs =>
    rw [intercalate_cons, List.append_assoc] at h
    obtain ⟨mid, hfirst, hothers⟩ := h.of_append
    obtain ⟨k₁, hv⟩ := hitem.reads k htokens hfirst (noDigit_of_items hothers) hs hn
    have hless := hsound.length_le hv
    obtain ⟨stop, mid', k₂, hrounds, hclose, hstop⟩ :=
      rounds_complete hsound hitem hvs hothers (behindSpace_behindSpace mid) (by omega) k₁
    exact ⟨stop, mid', k₂, sepBy_eq_some_iff.mpr
      (.inr ⟨_, _, _, _, _, _, hv, hrounds, rfl⟩), hclose, hstop⟩

/-- A value that is written is read, if items on shorter texts are: an item stands behind a bracket.
-/
theorem element_complete (hsound : Sound item) (hitem : Complete n item) :
    Complete (n + 1) (elementOf item) := by
  constructor
  · intro v ts s s' rest k htokens h hrest hs hn
    cases htokens with
    | int hne hdigits hmax =>
      obtain ⟨k', hnumber⟩ := number_complete hne hdigits hmax h hrest hs k
      exact ⟨k', choice_cons_eq_some_iff.mpr (.inr ⟨_, _, _, hnumber, rfl⟩)⟩
    | @list vs tss hvs =>
      -- an integer is tried first, and fails at the bracket
      obtain ⟨u, mid₀, hbehind, -, -⟩ := h.behindSpace_eq (by decide)
      obtain ⟨k₁, hnumber⟩ := number_fails (hs.trans hbehind) (by decide) k
      obtain ⟨mid, hmid, hlength, hopen⟩ := symbol_reads (κ := κ) (by decide) h hs
      obtain ⟨k₂, hopen⟩ := hopen k₁
      have hshorter := behindSpace_length_le mid
      obtain ⟨stop, mid', k₃, hitems, hmid', hstop⟩ :=
        items_complete hsound hitem hvs hmid (behindSpace_behindSpace mid) (by omega) k₂
      obtain ⟨mid'', hend, -, hclose⟩ := symbol_reads (κ := κ) (by decide) hmid' hstop
      obtain ⟨k₄, hclose⟩ := hclose k₃
      cases hend
      refine ⟨k₄, choice_cons_eq_some_iff.mpr (.inl ⟨_, _, _, hnumber, ?_⟩)⟩
      refine choice_cons_eq_some_iff.mpr (.inr ⟨_, _, _, ?_, rfl⟩)
      refine andThen_eq_success_iff.mpr ⟨_, _, _, hopen, ?_⟩
      refine andThen_eq_success_iff.mpr ⟨_, _, _, map_eq_success_iff.mpr ⟨_, hitems, rfl⟩, ?_⟩
      exact map_eq_success_iff.mpr ⟨_, hclose, rfl⟩
  · intro s x k hs _
    obtain ⟨k₁, hnumber⟩ := number_fails hs (by decide) k
    obtain ⟨k₂, hopen⟩ := symbol_fails hs (show '[' ≠ ']' by decide) k₁
    refine ⟨s, none, k₂, choice_cons_eq_some_iff.mpr (.inl ⟨_, _, _, hnumber, ?_⟩)⟩
    refine choice_cons_eq_some_iff.mpr (.inl ⟨s, none, k₂, ?_, rfl⟩)
    exact andThen_eq_some_iff.mpr (.inl ⟨_, _, _, hopen, rfl⟩)

/-- By induction on the length of the text, which bounds the depth of the nesting. -/
theorem value_complete (n : Nat) : Complete n (value κ n) := by
  induction n with
  | zero =>
    constructor
    · exact fun _ _ _ _ _ _ _ _ _ _ hn => absurd hn (Nat.not_lt_zero _)
    · exact fun _ _ _ _ hn => absurd hn (Nat.not_lt_zero _)
  | succ n ih =>
    rw [value_succ]
    exact element_complete (value_sound n) ih

end Parsers

/-! ## Whole texts -/

/-- The whole text is read exactly if it is a way to write the value. -/
theorem parsesTo_ok_iff {s : Text} {v : Value} :
    document.ParsesTo rules s (.ok v) ↔ Renders v s := by
  constructor
  · rintro ⟨⟨o, k⟩, ⟨n, hr⟩, hfinish⟩
    obtain rfl : o = .success v [] := Reply.finish_eq_ok_iff.mp hfinish
    exact value_sound n hr
  · rintro ⟨ts, htokens, hspaced⟩
    have hcomplete := value_complete (κ := Location) (s.length + 1)
    obtain ⟨k, hr⟩ := hcomplete.reads Location.start htokens hspaced nofun rfl (Nat.lt_succ_self _)
    exact ⟨_, ⟨s.length + 1, hr⟩, Reply.finish_eq_ok_iff.mpr rfl⟩

/-- Inside a value stands another one only behind a bracket. -/
theorem element_guarded {ρ : Type} : (element : Grammar ρ).Guarded := by
  refine .node id (List.forall_mem_cons.mpr ⟨?_, List.forall_mem_singleton.mpr ?_⟩)
  · exact .node id (List.forall_mem_singleton.mpr (.node id nofun))
  · exact .between (.literal (by simp))

/-- There is always a result, as references stand behind an opening bracket. -/
theorem exists_parsesTo (s : Text) : ∃ result, document.ParsesTo rules s result := by
  have hfind : ∀ r g, rules.find? r = some g → g = element := by
    intro r g h
    cases r <;>
      simp only [Rules.find?, rules, Fields.find?, Option.ite_none_right_eq_some,
        Option.some.injEq] at h <;>
      exact h.2.symm
  have hguarded : rules.Guarded := fun r g h => hfind r g h ▸ element_guarded
  have hrules : rules.Everywhere (OnWrapper (¬ ·.IsOptional)) := by
    intro r g h
    rw [hfind r g h]
    simp [element, Everywhere.iff_children, children, OnWrapper, literal, integer, commaList]
  have hdocument : document.Everywhere (OnWrapper (¬ ·.IsOptional)) := by
    simp [document, Everywhere.iff_children, children, Wrapper.grammars, OnWrapper,
      Wrapper.IsOptional, whitespace]
  have hanswers : (document.parser rules (s.length + 1) none : Parser Location Value).AnswersBelow
      (s.length + 1) :=
    denote_answersBelow hdocument (rules.resolve_answersBelow hguarded hrules _) (.none _)
  obtain ⟨r, hr⟩ := hanswers.answers Location.start s (Nat.lt_succ_self _)
  exact ⟨_, r, ⟨_, hr⟩, rfl⟩

/-- **The language of nested lists.** A text is read as `v` if and only if it is a rendering of `v`,
and a text that is a rendering of nothing leads to an error. -/
theorem nested_lists_are_read_exactly :
    Rules.ofDefinitions [("value", element)] = .ok rules ∧
    ∀ s, (∀ v, document.ParsesTo rules s (.ok v) ↔ Renders v s) ∧
      ((∃ e, document.ParsesTo rules s (.error e)) ↔ ¬ ∃ v, Renders v s) := by
  refine ⟨rfl, fun s => ⟨fun v => parsesTo_ok_iff, ?_, ?_⟩⟩
  · rintro ⟨e, he⟩ ⟨v, hv⟩
    cases he.unique (parsesTo_ok_iff.mpr hv)
  · intro hnone
    obtain ⟨e | v, hresult⟩ := exists_parsesTo s
    · exact ⟨e, hresult⟩
    · exact absurd ⟨v, parsesTo_ok_iff.mp hresult⟩ hnone

/-- A text that is written as a rendering is read, and a text that ends in an error is no rendering: a
comma needs a value behind it. -/
theorem nested_lists_are_read_exactly_of_spaces :
    let v : Value := .list [.int 7, .list []]
    let s := " [07 ,[]]".toList
    let dangling := "[7,]".toList
    Renders v s ∧ document.ParsesTo rules s (.ok v) ∧
    document.ParsesTo rules dangling (.error (.noMatch ⟨dangling, 3⟩)) ∧
    ¬ ∃ v, Renders v dangling := by
  intro v s dangling
  have hint : Tokens (.int 7) [['0', '7']] :=
    @Tokens.int ['0', '7'] (by simp) (List.all_eq_true.mp rfl) (by decide)
  have hempty : Tokens (.list []) [['['], [']']] := .list .nil
  have hlist : Tokens v [['['], ['0', '7'], [','], ['['], [']'], [']']] :=
    .list (.cons hint (.cons hempty .nil))
  have hclosing : Spaced [[','], ['['], [']'], [']']] ",[]]".toList [] :=
    .cons (u := []) (v := []) nofun nofun (.cons (u := []) (v := []) nofun nofun
      (.cons (u := []) (v := []) nofun nofun (.cons (u := []) (v := []) nofun nofun .nil)))
  have hspace : ∀ c ∈ [' '], isWhiteSpace c := List.all_eq_true.mp rfl
  have hrenders : Renders v s :=
    ⟨_, hlist, .cons (v := []) hspace nofun (.cons (u := []) nofun hspace hclosing)⟩
  have herror : document.ParsesTo rules dangling (.error (.noMatch ⟨dangling, 3⟩)) := by
    refine ⟨⟨.failure dangling none, ⟨1, 4⟩⟩, ⟨3, ?_⟩, rfl⟩
    simp only [dangling]
    cbv
  obtain ⟨-, hexact⟩ := nested_lists_are_read_exactly
  exact ⟨hrenders, ((hexact s).1 v).mpr hrenders, herror, (hexact dangling).2.mp ⟨_, herror⟩⟩

end Descent.NestedList
