import Descent.Proofs.Grammar.Guarded
import Descent.Proofs.Parser.Accounting
import Descent.Proofs.Parser.Chain

/-!
# Everything up to the first stop

`Parser.manyTill` looks for its stop before every item, and once more on the whole text where the
items lead nowhere. For parts that do not look at the clock the last look cannot help: the stop was
not there the first time. Of the items it is asked that they leave the end of their text, since the
loop gives up where an item left as many bytes as it was given; of the stop this is not asked.

So what `manyTill` finds is told by a path through the text (`ReachesStop`), in which items follow
one another, each on a shorter text than the one before, with no stop in front of any of them and a
stop behind the last one. Where there is no such path the answer is the failure of the stop on the
whole text, and nothing is left of the items that were passed.

With any character as the item and a given text as the stop, this is the search for the first
occurrence of that text.

* `Search.exists_path`, `ReachesStop.search`: paths, and the loop that finds them.
* `exists_first_occurrence`: the path to the first occurrence of a text.
* `manyTill_ends_at_first_stop`: both, for one text.
-/

namespace Descent

namespace Parser

variable {κ α β : Type} {p stop : Parser κ α} {k k' : κ} {s rest : Text} {v : α} {values : List α}

/-! ## Parts that do not look at the clock -/

/-- `p` finds `v` on `s` and leaves `rest`, by some clock. -/
def Finds (p : Parser κ α) (s : Text) (v : α) (rest : Text) : Prop :=
  ∃ k k', p k s = some ⟨.success v rest, k'⟩

/-- `p` fails on `s`, by some clock. -/
def Misses (p : Parser κ α) (s : Text) : Prop :=
  ∃ k rest m k', p k s = some ⟨.failure rest m, k'⟩

namespace IgnoresClock

theorem of_finds (hp : p.IgnoresClock) (h : p.Finds s v rest) (k : κ) :
    ∃ k', p k s = some ⟨.success v rest, k'⟩ := by
  obtain ⟨k₀, k₁, h⟩ := h
  exact hp.success k h

theorem of_misses (hp : p.IgnoresClock) (h : p.Misses s) (k : κ) :
    ∃ rest m k', p k s = some ⟨.failure rest m, k'⟩ := by
  obtain ⟨k₀, rest, m, k₁, h⟩ := h
  exact hp.failure k h

theorem map (hp : p.IgnoresClock) (f : α → β) : (p.map f).IgnoresClock where
  success := by
    intro k s v rest k₁ k' h
    obtain ⟨u, hu, rfl⟩ := map_eq_success_iff.mp h
    obtain ⟨k₂, hu⟩ := hp.success k' hu
    exact ⟨k₂, map_eq_success_iff.mpr ⟨u, hu, rfl⟩⟩
  failure := by
    intro k s rest m k₁ k' h
    obtain ⟨⟨⟨u, rest'⟩ | ⟨rest', m'⟩, k₂⟩, hr, he⟩ := map_eq_some_iff.mp h
    · cases he
    · obtain ⟨rest₁, m₁, k₃, hr⟩ := hp.failure k' hr
      exact ⟨rest₁, m₁, k₃, map_eq_some_iff.mpr ⟨_, hr, rfl⟩⟩

end IgnoresClock

/-! ## Paths -/

/-- Items of `p` lead from `s` to a place where `stop` finds `v` and leaves `rest`, and on the way
there is no stop. The item with index `i` starts at `texts i`. -/
structure ReachesStop (p stop : Parser κ α) (s : Text) (values : List α) (v : α) (rest : Text)
    (texts : Nat → Text) : Prop where
  text_zero : texts 0 = s
  item : ∀ {i u}, values[i]? = some u → p.Finds (texts i) u (texts (i + 1))
  shorter : ∀ {i}, i < values.length → (texts (i + 1)).length < (texts i).length
  before : ∀ {i}, i < values.length → stop.Misses (texts i)
  reached : stop.Finds (texts values.length) v rest

namespace ReachesStop

variable {texts : Nat → Text} {u : α}

/-- The path without items. -/
theorem of_finds (h : stop.Finds s v rest) : ReachesStop p stop s [] v rest fun _ => s where
  text_zero := rfl
  item := nofun
  shorter := nofun
  before := nofun
  reached := h

theorem cons {s₁ : Text} (hstop : stop.Misses s) (hitem : p.Finds s u s₁)
    (hlen : s₁.length < s.length) (h : ReachesStop p stop s₁ values v rest texts) :
    ReachesStop p stop s (u :: values) v rest (prepend s texts) where
  text_zero := rfl
  item := by
    intro i w hw
    cases i with
    | zero =>
      cases hw
      show p.Finds s u (texts 0)
      rwa [h.text_zero]
    | succ i => exact h.item (by simpa using hw)
  shorter := by
    intro i hi
    cases i with
    | zero =>
      show (texts 0).length < s.length
      rwa [h.text_zero]
    | succ i => exact h.shorter (Nat.lt_of_succ_lt_succ hi)
  before := by
    intro i hi
    cases i with
    | zero => exact hstop
    | succ i => exact h.before (Nat.lt_of_succ_lt_succ hi)
  reached := h.reached

theorem tail (h : ReachesStop p stop s (u :: values) v rest texts) :
    ReachesStop p stop (texts 1) values v rest fun i => texts (i + 1) where
  text_zero := rfl
  item := by
    intro i w hw
    exact h.item (by simpa using hw)
  shorter hi := h.shorter (Nat.succ_lt_succ hi)
  before hi := h.before (Nat.succ_lt_succ hi)
  reached := h.reached

/-- The loop finds every path. -/
theorem search (hfront : p.TakesFront) (hp : p.IgnoresClock) (hstop : stop.IgnoresClock)
    (h : ReachesStop p stop s values v rest texts) (k : κ) :
    ∃ k', Search p stop k s (some (values ++ [v], rest)) k' := by
  induction values generalizing k s texts with
  | nil =>
    have hreached : stop.Finds s v rest := h.text_zero ▸ h.reached
    obtain ⟨k', hfound⟩ := hstop.of_finds hreached k
    exact ⟨k', .found hfound⟩
  | cons u values ih =>
    have hmiss : stop.Misses s := h.text_zero ▸ h.before (Nat.succ_pos _)
    have hfirst : p.Finds s u (texts 1) := h.text_zero ▸ h.item (i := 0) rfl
    have hlen : (texts 1).length < s.length := h.text_zero ▸ h.shorter (Nat.succ_pos _)
    obtain ⟨rest₁, m₁, k₁, hmiss⟩ := hstop.of_misses hmiss k
    obtain ⟨k₂, hfirst⟩ := hp.of_finds hfirst k₁
    obtain ⟨k', hsearch⟩ := ih h.tail k₂
    have hne := (Text.length_lt_iff_of_suffix (hfront hfirst)).mp hlen
    exact ⟨k', .next hmiss hfirst hne hsearch⟩

/-- The stop stands at the end of the text. -/
theorem suffix (hp : p.TakesFront) (h : ReachesStop p stop s values v rest texts) :
    texts values.length <:+ s := by
  induction values generalizing s texts with
  | nil =>
    obtain rfl : texts 0 = s := h.text_zero
    exact List.suffix_rfl
  | cons u values ih =>
    obtain ⟨k, k', hitem⟩ := h.item (i := 0) rfl
    have hfront : texts 1 <:+ s := h.text_zero ▸ hp hitem
    exact (ih h.tail).trans hfront

end ReachesStop

/-- The items that a search passes are a path to the stop it finds. -/
theorem Search.exists_path (hp : p.TakesFront) {found : Option (List α × Text)}
    (h : Search p stop k s found k') :
    ∀ f ∈ found, ∃ values v texts, f.1 = values ++ [v] ∧
      ReachesStop p stop s values v f.2 texts := by
  induction h with
  | found hstop =>
    rintro f ⟨⟩
    exact ⟨[], _, _, rfl, .of_finds ⟨_, _, hstop⟩⟩
  | stuck _ _ => exact nofun
  | idle _ _ _ => exact nofun
  | @next _ _ _ _ _ u _ _ _ _ hmiss hitem hlen _ ih =>
    intro f hf
    obtain ⟨f', hf', rfl⟩ := Option.map_eq_some_iff.mp hf
    obtain ⟨values, v, texts, hvalues, hpath⟩ := ih f' hf'
    have hshorter := hp.shorter hitem hlen
    refine ⟨u :: values, v, _, ?_, hpath.cons ⟨_, _, _, _, hmiss⟩ ⟨_, _, hitem⟩ hshorter⟩
    rw [hvalues, List.cons_append]

/-- Where a search ended without a stop, there is no stop at the start by any clock. -/
theorem Search.misses (hstop : stop.IgnoresClock) (h : Search p stop k s none k') (k₁ : κ) :
    ∃ rest m k₂, stop k₁ s = some ⟨.failure rest m, k₂⟩ := by
  obtain ⟨rest, m, k₂, hfail⟩ := h.stop_failed rfl
  exact hstop.failure k₁ hfail

/-- The last look at the whole text never succeeds, as the first one did not. -/
theorem manyTill_eq_success_iff (hfront : p.TakesFront) (hp : p.IgnoresClock)
    (hstop : stop.IgnoresClock) (k : κ) {found : List α} :
    (∃ k', manyTill p stop k s = some ⟨.success found rest, k'⟩) ↔
      ∃ values v texts, found = values ++ [v] ∧ ReachesStop p stop s values v rest texts := by
  constructor
  · rintro ⟨k', h⟩
    rcases manyTill_eq_some_iff.mp h with ⟨vs, rest', k₁, hsearch, he⟩ | ⟨k₁, r, hsearch, hr, he⟩
    · cases he
      exact hsearch.exists_path hfront _ rfl
    · -- the second look at the whole text finds what the first one did not
      obtain ⟨rest₁, m, k₂, hfail⟩ := hsearch.misses hstop k₁
      rw [hfail] at hr
      cases hr
      cases he
  · rintro ⟨values, v, texts, rfl, hpath⟩
    obtain ⟨k', hsearch⟩ := hpath.search hfront hp hstop k
    exact ⟨k', manyTill_eq_some_iff.mpr (.inl ⟨_, _, _, hsearch, rfl⟩)⟩

/-- Where no path leads to a stop, the search comes to an end without one. -/
theorem manyTill_eq_failure (hfront : p.TakesFront) (hstop : stop.IgnoresClock)
    (hanswers : ∀ k s, ∃ r, p k s = some r) (hanswers' : ∀ k s, ∃ r, stop k s = some r)
    (hnone : ¬ ∃ values v rest texts, ReachesStop p stop s values v rest texts) (k : κ) :
    ∃ k₁ rest m k', itemsTill p stop k s = some (none, k₁) ∧
      stop k₁ s = some ⟨.failure rest m, k'⟩ ∧
      manyTill p stop k s = some ⟨.failure rest m, k'⟩ := by
  obtain ⟨found, k₁, hsearch⟩ := exists_search (n := s.length + 1) hfront
    (fun k s _ => hanswers k s) (fun k s _ => hanswers' k s) k (Nat.lt_succ_self s.length)
  cases found with
  | none =>
    obtain ⟨rest, m, k', hfail⟩ := hsearch.misses hstop k₁
    refine ⟨k₁, rest, m, k', hsearch.itemsTill_eq, hfail, ?_⟩
    exact manyTill_eq_some_iff.mpr (.inr ⟨k₁, _, hsearch, hfail, rfl⟩)
  | some f =>
    obtain ⟨values, v, texts, -, hpath⟩ := hsearch.exists_path hfront f rfl
    exact absurd ⟨values, v, f.2, texts, hpath⟩ hnone

/-! ## The first occurrence of a text -/

/-- Single characters lead to the first occurrence of a text and not past it. -/
theorem exists_first_occurrence {t : Text} {single : Char → α}
    (hitem : ∀ c s, p.Finds (c :: s) (single c) s) (hstop : ∀ rest, stop.Finds (t ++ rest) v rest)
    (hmiss : ∀ s, ¬ t <+: s → stop.Misses s) (h : t <:+: s) :
    ∃ front rest texts, s = front ++ t ++ rest ∧
      (∀ front' rest', s = front' ++ t ++ rest' → front.length ≤ front'.length) ∧
      ReachesStop p stop s (front.map single) v rest texts := by
  induction s with
  | nil =>
    have ht : t = [] := List.eq_nil_of_infix_nil h
    subst ht
    exact ⟨[], [], _, rfl, fun _ _ _ => Nat.zero_le _, .of_finds (hstop [])⟩
  | cons c s ih =>
    by_cases hfront : t <+: c :: s
    · obtain ⟨rest, hrest⟩ := hfront
      rw [← hrest]
      exact ⟨[], rest, _, rfl, fun _ _ _ => Nat.zero_le _, .of_finds (hstop rest)⟩
    · have htail : t <:+: s := (List.infix_cons_iff.mp h).resolve_left hfront
      obtain ⟨front, rest, texts, hs, hleast, hpath⟩ := ih htail
      have hlen : s.length < (c :: s).length := Nat.lt_succ_self _
      refine ⟨c :: front, rest, _, ?_, ?_, hpath.cons (hmiss _ hfront) (hitem c s) hlen⟩
      · rw [hs]
        rfl
      · intro front' rest' hs'
        cases front' with
        | nil => exact absurd ⟨rest', hs'.symm⟩ hfront
        | cons d front' =>
          have hbehind : s = front' ++ t ++ rest' := (List.cons.inj hs').2
          exact Nat.succ_le_succ (hleast front' rest' hbehind)

end Parser

variable {κ : Type} [Clock κ]

namespace Terminal

theorem any_parser_cons (k : κ) (c : Char) (s : Text) :
    (run (fun _ => true) 1 (some 1)).parser k (c :: s) =
      some ⟨.success [c] s, Clock.advance k [c]⟩ := by
  have hmatch : (run (fun _ => true) 1 (some 1)).matchLength? (c :: s) = some 1 := by
    simp [matchLength?, runLength]
  exact parser_eq_some_iff.mpr (.inr ⟨1, hmatch, rfl⟩)

theorem literal_parser_append (k : κ) (t rest : Text) :
    (literal t).parser k (t ++ rest) = some ⟨.success t rest, Clock.advance k t⟩ := by
  have hmatch : (literal t).matchLength? (t ++ rest) = some t.length :=
    if_pos (List.isPrefixOf_iff_prefix.mpr (List.prefix_append t rest))
  refine parser_eq_some_iff.mpr (.inr ⟨t.length, hmatch, ?_⟩)
  rw [List.take_left, List.drop_left]

theorem literal_parser_of_not_prefix {t s : Text} (h : ¬ t <+: s) (k : κ) :
    (literal t).parser k s = some ⟨.failure s none, k⟩ := by
  have hmatch : (literal t).matchLength? s = none :=
    if_neg fun hfront => h (List.isPrefixOf_iff_prefix.mp hfront)
  exact parser_eq_some_iff.mpr (.inl ⟨hmatch, rfl⟩)

end Terminal

namespace Grammar

open Descent.Parser

variable {rules : Rules} {depth : Nat} {t s : Text}

theorem terminal_parser_ignoresClock (x : Terminal Regex.Program) :
    ((terminal x).parser rules depth none : Parser κ Value).IgnoresClock :=
  x.parser_ignoresClock.map _

theorem any_cons (k : κ) (c : Char) (s : Text) :
    any.parser rules depth none k (c :: s) =
      some ⟨.success (.str [c]) s, Clock.advance k [c]⟩ :=
  map_eq_success_iff.mpr ⟨_, Terminal.any_parser_cons k c s, rfl⟩

theorem literal_append (k : κ) (t rest : Text) :
    (literal t).parser rules depth none k (t ++ rest) =
      some ⟨.success (.str t) rest, Clock.advance k t⟩ :=
  map_eq_success_iff.mpr ⟨_, Terminal.literal_parser_append k t rest, rfl⟩

theorem literal_of_not_prefix (h : ¬ t <+: s) (k : κ) :
    (literal t).parser rules depth none k s = some ⟨.failure s none, k⟩ :=
  map_eq_some_iff.mpr ⟨_, Terminal.literal_parser_of_not_prefix h k, rfl⟩

theorem terminal_parser_answers (x : Terminal Regex.Program) (k : κ) (s : Text) :
    ∃ r, (terminal x).parser rules depth none k s = some r :=
  ((x.parser_answersBelow (s.length + 1)).map Value.str).answers k s (Nat.lt_succ_self _)

/-- A stop that is a given text is an occurrence of it. -/
theorem infix_of_reachesStop {values : List Value} {v : Value} {rest : Text} {texts : Nat → Text}
    (h : ReachesStop (any.parser rules depth none : Parser κ Value)
      ((literal t).parser rules depth none) s values v rest texts) : t <:+: s := by
  have hsuffix := h.suffix (any.parser_leavesSuffix rules depth none).takesFront
  obtain ⟨k, k', hreached⟩ := h.reached
  have hfront : t <+: texts values.length := by
    by_contra hfront
    have hfail : (literal t).parser rules depth none k (texts values.length) = _ :=
      literal_of_not_prefix hfront k
    cases hfail.symm.trans hreached
  exact hfront.isInfix.trans hsuffix.isInfix

theorem manyTill_any_of_infix (k : κ) (h : t <:+: s) :
    ∃ front rest k', s = front ++ t ++ rest ∧
      (∀ front' rest', s = front' ++ t ++ rest' → front.length ≤ front'.length) ∧
      (manyTill any (literal t)).parser rules depth none k s =
        some ⟨.success (.list (front.map (fun c => .str [c]) ++ [.str t])) rest, k'⟩ := by
  have hitem : ∀ c s, (any.parser rules depth none : Parser κ Value).Finds (c :: s) (.str [c]) s :=
    fun c s => ⟨k, _, any_cons k c s⟩
  have hstop : ∀ rest,
      ((literal t).parser rules depth none : Parser κ Value).Finds (t ++ rest) (.str t) rest :=
    fun rest => ⟨k, _, literal_append k t rest⟩
  have hmiss : ∀ s, ¬ t <+: s → ((literal t).parser rules depth none : Parser κ Value).Misses s :=
    fun s hs => ⟨k, s, none, k, literal_of_not_prefix hs k⟩
  obtain ⟨front, rest, texts, hs, hleast, hpath⟩ := exists_first_occurrence hitem hstop hmiss h
  obtain ⟨k', hfound⟩ := (manyTill_eq_success_iff
    (any.parser_leavesSuffix rules depth none).takesFront (terminal_parser_ignoresClock _)
    (terminal_parser_ignoresClock _) k).mpr ⟨_, _, texts, rfl, hpath⟩
  exact ⟨front, rest, k', hs, hleast, map_eq_success_iff.mpr ⟨_, hfound, rfl⟩⟩

/-- Where the text does not occur, nothing is consumed. -/
theorem manyTill_any_of_not_infix (k : κ) (h : ¬ t <:+: s) :
    ∃ k', (manyTill any (literal t)).parser rules depth none k s = some ⟨.failure s none, k'⟩ := by
  have hnone : ¬ ∃ values v rest texts, ReachesStop (any.parser rules depth none : Parser κ Value)
      ((literal t).parser rules depth none) s values v rest texts := by
    rintro ⟨values, v, rest, texts, hpath⟩
    exact h (infix_of_reachesStop hpath)
  obtain ⟨k₁, rest, m, k', -, hstop, hfail⟩ := manyTill_eq_failure
    (any.parser_leavesSuffix rules depth none).takesFront (terminal_parser_ignoresClock _)
    (terminal_parser_answers _) (terminal_parser_answers _) hnone k
  have hmiss : (literal t).parser rules depth none k₁ s = some ⟨.failure s none, k₁⟩ :=
    literal_of_not_prefix (fun hfront => h hfront.isInfix) k₁
  cases hmiss.symm.trans hstop
  exact ⟨k₁, map_eq_some_iff.mpr ⟨_, hfail, rfl⟩⟩

end Grammar

/-- **`manyTill` is everything up to the first stop.** For parts that do not look at the clock, and
items that leave the end of their text, it succeeds exactly if items lead to a stop, and finds the
values of the items and that of the stop. If the parts give answers and there is no way to a stop, the
answer is the failure of the stop on the whole text. With any character as the item and a text as the
stop, it succeeds exactly if the text occurs, and finds the single characters in front of its first
occurrence and then the text. -/
theorem Parser.manyTill_ends_at_first_stop {α : Type} (p stop : Parser κ α) (k : κ) (s : Text) :
    (p.TakesFront → p.IgnoresClock → stop.IgnoresClock →
      (∀ found rest, (∃ k', manyTill p stop k s = some ⟨.success found rest, k'⟩) ↔
        ∃ values v texts, found = values ++ [v] ∧ ReachesStop p stop s values v rest texts) ∧
      ((∀ k s, ∃ r, p k s = some r) → (∀ k s, ∃ r, stop k s = some r) →
        (¬ ∃ values v rest texts, ReachesStop p stop s values v rest texts) →
        ∃ k₁ rest m k', itemsTill p stop k s = some (none, k₁) ∧
          stop k₁ s = some ⟨.failure rest m, k'⟩ ∧
          manyTill p stop k s = some ⟨.failure rest m, k'⟩)) ∧
    ∀ (rules : Rules) (depth : Nat) (t : Text),
      (t <:+: s → ∃ front rest k', s = front ++ t ++ rest ∧
        (∀ front' rest', s = front' ++ t ++ rest' → front.length ≤ front'.length) ∧
        (Grammar.manyTill .any (.literal t)).parser rules depth none k s =
          some ⟨.success (.list (front.map (fun c => .str [c]) ++ [.str t])) rest, k'⟩) ∧
      (¬ t <:+: s → ∃ k', (Grammar.manyTill .any (.literal t)).parser rules depth none k s =
        some ⟨.failure s none, k'⟩) := by
  refine ⟨fun hfront hp hstop =>
      ⟨fun found rest => manyTill_eq_success_iff hfront hp hstop k, ?_⟩,
    fun rules depth t => ⟨Grammar.manyTill_any_of_infix k, Grammar.manyTill_any_of_not_infix k⟩⟩
  intro hanswers hanswers' hnone
  exact manyTill_eq_failure hfront hstop hanswers hanswers' hnone k

/-- The end of a comment, behind a character that could be the start of it; and a comment without an
end. -/
theorem Parser.manyTill_ends_at_first_stop_of_comment :
    let item : Parser Location Value := Grammar.any.parser {} 0 none
    let stop : Parser Location Value := (Grammar.literal ['*', '/']).parser {} 0 none
    let found : List Value := [.str ['a'], .str ['*'], .str ['*', '/']]
    (item.TakesFront ∧ item.IgnoresClock ∧ stop.IgnoresClock) ∧
    (∃ k', manyTill item stop ⟨1, 1⟩ ['a', '*', '*', '/', 'b'] = some ⟨.success found ['b'], k'⟩) ∧
    (∃ values v texts, found = values ++ [v] ∧
      ReachesStop item stop ['a', '*', '*', '/', 'b'] values v ['b'] texts) ∧
    (∃ k₁ rest m k', itemsTill item stop ⟨1, 1⟩ ['a', '*'] = some (none, k₁) ∧
      stop k₁ ['a', '*'] = some ⟨.failure rest m, k'⟩ ∧
      manyTill item stop ⟨1, 1⟩ ['a', '*'] = some ⟨.failure rest m, k'⟩) ∧
    (∃ k', (Grammar.manyTill .any (.literal ['*', '/'])).parser {} 0 none (⟨1, 1⟩ : Location)
      ['a', '*'] = some ⟨.failure ['a', '*'] none, k'⟩) := by
  intro item stop found
  have hfront : item.TakesFront := (Grammar.any.parser_leavesSuffix {} 0 none).takesFront
  have hitem : item.IgnoresClock := Grammar.terminal_parser_ignoresClock _
  have hstop : stop.IgnoresClock := Grammar.terminal_parser_ignoresClock _
  have habsent : ¬ ['*', '/'] <:+: ['a', '*'] := by decide
  have hmiss : stop ⟨1, 1⟩ ['a', '*', '*', '/', 'b'] =
      some ⟨.failure ['a', '*', '*', '/', 'b'] none, ⟨1, 1⟩⟩ := rfl
  have ha : item ⟨1, 1⟩ ['a', '*', '*', '/', 'b'] =
      some ⟨.success (.str ['a']) ['*', '*', '/', 'b'], ⟨1, 2⟩⟩ := rfl
  have hmiss' : stop ⟨1, 2⟩ ['*', '*', '/', 'b'] =
      some ⟨.failure ['*', '*', '/', 'b'] none, ⟨1, 2⟩⟩ := rfl
  have hstar : item ⟨1, 2⟩ ['*', '*', '/', 'b'] =
      some ⟨.success (.str ['*']) ['*', '/', 'b'], ⟨1, 3⟩⟩ := rfl
  have hend : stop ⟨1, 3⟩ ['*', '/', 'b'] = some ⟨.success (.str ['*', '/']) ['b'], ⟨1, 5⟩⟩ := rfl
  have hsearch : Search item stop ⟨1, 1⟩ ['a', '*', '*', '/', 'b'] (some (found, ['b'])) ⟨1, 5⟩ :=
    .next hmiss ha (by decide) (.next hmiss' hstar (by decide) (.found hend))
  have hfound : manyTill item stop ⟨1, 1⟩ ['a', '*', '*', '/', 'b'] =
      some ⟨.success found ['b'], ⟨1, 5⟩⟩ :=
    manyTill_eq_some_iff.mpr (.inl ⟨_, _, _, hsearch, rfl⟩)
  have hclosed := manyTill_ends_at_first_stop item stop ⟨1, 1⟩ ['a', '*', '*', '/', 'b']
  have hopen := manyTill_ends_at_first_stop item stop ⟨1, 1⟩ ['a', '*']
  have hnone : ¬ ∃ values v rest texts, ReachesStop item stop ['a', '*'] values v rest texts := by
    rintro ⟨values, v, rest, texts, hpath⟩
    exact habsent (Grammar.infix_of_reachesStop hpath)
  refine ⟨⟨hfront, hitem, hstop⟩, ⟨_, hfound⟩,
    ((hclosed.1 hfront hitem hstop).1 _ _).mp ⟨_, hfound⟩, ?_, (hopen.2 {} 0 _).2 habsent⟩
  exact (hopen.1 hfront hitem hstop).2 (Grammar.terminal_parser_answers _)
    (Grammar.terminal_parser_answers _) hnone

end Descent
