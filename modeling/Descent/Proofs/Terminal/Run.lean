import Descent.Proofs.Grammar.Inline
import Descent.Proofs.Location.After
import Descent.Proofs.Parser.Repetition
import Descent.Proofs.Terminal.SkippedSpace
import Mathlib.Order.Bounds.Basic

/-!
# Runs of characters

A run takes characters as long as they pass a test and a bound allows it, and then asks whether there
were enough of them. The loop `runLength` goes over the text once. Its result is the number of
characters at the front that pass the test, cut to the bound.

A run without a bound can also be read one character at a time by a repetition. This finds the same
text, and it leaves the location at the same place, since to pass a text is to pass its characters
one after the other.

* `runLength_eq`, `parser_run`: what a run takes.
* `many_single`, `many1_single`: what repetitions of a single character find.
* `runs_are_bounded_and_greedy`: both ways to read a run, and the same for grammars.
-/

namespace Descent

namespace Terminal

/-! ## The loop -/

/-- The number of characters at the front of a text that pass a test, cut to a bound. -/
def frontLength (test : Char → Bool) (max : Option Nat) (s : Text) : Nat :=
  max.elim (s.takeWhile test).length (min (s.takeWhile test).length)

theorem runLength_eq (test : Char → Bool) (max : Option Nat) (s : Text) :
    runLength test max s = frontLength test max s := by
  unfold frontLength
  fun_induction runLength test max s with
  | case1 s => simp
  | case2 max hmax => cases max <;> simp
  | case3 max c s hmax hc ih =>
    rw [ih]
    cases max with
    | none => simp [hc]
    | some m =>
      have hm : m ≠ 0 := fun h => hmax (congrArg some h)
      simp only [Option.map_some, Option.elim_some, List.takeWhile_cons, hc, if_true,
        List.length_cons]
      omega
  | case4 max c s hmax hc => cases max <;> simp [hc]

theorem le_length_takeWhile {test : Char → Bool} {s : Text} {n : Nat} (hn : n ≤ s.length)
    (h : ∀ c ∈ s.take n, test c) : n ≤ (s.takeWhile test).length := by
  have hfront : s.takeWhile test = s.take n ++ (s.drop n).takeWhile test := by
    rw [← List.takeWhile_append_of_pos h, List.take_append_drop]
  rw [hfront, List.length_append, List.length_take_of_le hn]
  exact Nat.le_add_right _ _

/-- All that a run takes passes the test, and no more could be taken within the bound. -/
theorem isGreatest_frontLength (test : Char → Bool) (max : Option Nat) (s : Text) :
    IsGreatest {n | n ≤ s.length ∧ (∀ c ∈ s.take n, test c) ∧ ∀ m ∈ max, n ≤ m}
      (frontLength test max s) := by
  have hprefix := List.takeWhile_prefix test (l := s)
  have hle : frontLength test max s ≤ (s.takeWhile test).length := by
    cases max <;> simp [frontLength]
  constructor
  · refine ⟨hle.trans hprefix.length_le, ?_, ?_⟩
    · intro c hc
      have htake : s.take (frontLength test max s) <+: s.takeWhile test :=
        List.prefix_of_prefix_length_le (List.take_prefix _ _) hprefix
          ((List.length_take_le _ _).trans hle)
      exact List.mem_takeWhile_imp (htake.subset hc)
    · rintro m rfl
      exact Nat.min_le_right _ _
  · rintro n ⟨hn, htest, hmax⟩
    have hfront := le_length_takeWhile hn htest
    cases max with
    | none => exact hfront
    | some m => exact Nat.le_min.mpr ⟨hfront, hmax m rfl⟩

variable {κ : Type} [Clock κ]

theorem parser_run (test : Char → Bool) (min : Nat) (max : Option Nat) (k : κ) (s : Text) :
    (run test min max).parser k s =
      let n := frontLength test max s
      some (if min ≤ n then ⟨.success (s.take n) (s.drop n), Clock.advance k (s.take n)⟩
        else ⟨.failure s none, k⟩) := by
  simp only [parser, matchLength?, runLength_eq]
  by_cases hmin : min ≤ frontLength test max s <;> simp [hmin]

/-! ## One character at a time -/

/-- A single character that passes a test. -/
def single (test : Char → Bool) : Parser κ Text :=
  (run test 1 (some 1)).parser

theorem single_cons_of_pos {test : Char → Bool} {c : Char} (hc : test c) (k : κ) (s : Text) :
    single test k (c :: s) = some ⟨.success [c] s, Clock.advance k [c]⟩ := by
  simp [single, parser, matchLength?, runLength, hc]

theorem single_of_neg {test : Char → Bool} {s : Text} (hs : s.takeWhile test = []) (k : κ) :
    single test k s = some ⟨.failure s none, k⟩ := by
  simp [single, parser_run, frontLength, hs]

/-- By induction on the text: each round takes a character, up to the first one that fails the test.
-/
theorem many_single (test : Char → Bool) (k : Location) (s : Text) :
    Parser.many (single test) k s =
      some ⟨.success ((s.takeWhile test).map ([·])) (s.dropWhile test),
        k.after (s.takeWhile test)⟩ := by
  induction s generalizing k with
  | nil =>
    have hdone : Parser.Rounds (single test) k [] [] [] k := .done (single_of_neg rfl k)
    simpa using hdone.many_eq
  | cons c s ih =>
    by_cases hc : test c
    · rw [Parser.many_eq_of_success (single_cons_of_pos hc k s) (Text.byteLength_cons_ne c s), ih,
        Clock.advance_location, ← Location.after_append]
      simp [Reply.map, Outcome.map, hc]
    · have hnone : (c :: s).takeWhile test = [] := by simp [hc]
      have hdone : Parser.Rounds (single test) k (c :: s) [] (c :: s) k :=
        .done (single_of_neg hnone k)
      simpa [hc] using hdone.many_eq

theorem many1_single (test : Char → Bool) (k : Location) (s : Text) :
    Parser.many1 (single test) k s =
      some (if s.takeWhile test = [] then ⟨.failure s none, k⟩
        else ⟨.success ((s.takeWhile test).map ([·])) (s.dropWhile test),
          k.after (s.takeWhile test)⟩) := by
  by_cases hs : s.takeWhile test = []
  · rw [if_pos hs]
    exact Parser.many1_eq_of_failure (single_of_neg hs k)
  · have hne : s ≠ [] := fun h => hs (by rw [h]; rfl)
    obtain ⟨c, s, rfl⟩ := List.exists_cons_of_ne_nil hne
    have hc : test c := by
      by_contra hc
      exact hs (by simp [hc])
    have hfirst := single_cons_of_pos hc k s
    rw [if_neg hs, Parser.many1_eq_of_success hfirst,
      ← Parser.many_eq_of_success hfirst (Text.byteLength_cons_ne c s), many_single]

/-- A run without a bound, read at once. -/
theorem parser_run_none (test : Char → Bool) (min : Nat) (k : Location) (s : Text) :
    (run test min none).parser k s =
      some (if min ≤ (s.takeWhile test).length
        then ⟨.success (s.takeWhile test) (s.dropWhile test), k.after (s.takeWhile test)⟩
        else ⟨.failure s none, k⟩) := by
  have hlength : frontLength test none s = (s.takeWhile test).length := rfl
  have htake := take_runLength test s
  have hdrop := drop_runLength test s
  rw [runLength_eq, hlength] at htake hdrop
  rw [parser_run, hlength]
  simp only [htake, hdrop, Clock.advance_location]

theorem flatten_map_singleton (s : Text) : (s.map ([·])).flatten = s := by
  rw [← List.flatMap_def, List.flatMap_singleton']

/-- So a run is a loop over single characters, up to how its value is put together. -/
theorem map_flatten_many_single (test : Char → Bool) :
    Parser.map List.flatten (Parser.many (single test)) =
      ((run test 0 none).parser : Parser Location Text) := by
  funext k s
  rw [Parser.map, many_single, parser_run_none]
  simp [Reply.map, Outcome.map, flatten_map_singleton]

theorem map_flatten_many1_single (test : Char → Bool) :
    Parser.map List.flatten (Parser.many1 (single test)) =
      ((run test 1 none).parser : Parser Location Text) := by
  funext k s
  rw [Parser.map, many1_single, parser_run_none]
  by_cases hs : s.takeWhile test = []
  · simp [hs, Reply.map, Outcome.map]
  · simp [hs, Nat.one_le_iff_ne_zero, Reply.map, Outcome.map, flatten_map_singleton]

end Terminal

/-! ## Runs in grammars -/

namespace Grammar

variable (resolve : Reference → Ambient Location → Parser Location Value) (test : Char → Bool)

theorem denote_concat_many :
    (map .concat (many (terminal (.run test 1 (some 1))))).denote resolve none =
      (terminal (.run test 0 none)).denote resolve none := by
  refine Eq.trans ?_ (congrArg (Parser.map Value.str) (Terminal.map_flatten_many_single test))
  rw [← map_concat_list, Parser.map_many]
  rfl

theorem denote_concat_many1 :
    (map .concat (many1 (terminal (.run test 1 (some 1))))).denote resolve none =
      (terminal (.run test 1 none)).denote resolve none := by
  refine Eq.trans ?_ (congrArg (Parser.map Value.str) (Terminal.map_flatten_many1_single test))
  rw [← map_concat_list, Parser.map_many1]
  rfl

/-- **A run is bounded and greedy.** Of the characters at the front of a text that pass the test, a
run takes as many as its bound allows: all that it takes passes the test, and no more could be taken.
If these are enough, it succeeds with them, and the location is moved over them; they end at a
boundary between two characters in bytes as well. Otherwise it fails and gives back everything, and
the location stays. A run without a bound is the same as a repetition of single characters with
their texts joined, in what is found, in the text that is left and in the location, and whether no
character is asked for or one. -/
theorem runs_are_bounded_and_greedy :
    (∀ (min : Nat) (max : Option Nat) (l : Location) (s : Text),
      let n := max.elim (s.takeWhile test).length (Nat.min (s.takeWhile test).length)
      (Terminal.run test min max).parser l s =
          some (if min ≤ n then ⟨.success (s.take n) (s.drop n), l.after (s.take n)⟩
            else ⟨.failure s none, l⟩) ∧
        IsGreatest {n | n ≤ s.length ∧ (∀ c ∈ s.take n, test c) ∧ ∀ m ∈ max, n ≤ m} n ∧
        s.bytePrefix? (Text.byteLength (s.take n)) = some (s.take n)) ∧
    (Parser.map List.flatten (Parser.many (Terminal.run test 1 (some 1)).parser) :
        Parser Location Text) = (Terminal.run test 0 none).parser ∧
    (Parser.map List.flatten (Parser.many1 (Terminal.run test 1 (some 1)).parser) :
        Parser Location Text) = (Terminal.run test 1 none).parser ∧
    ∀ (rules : Rules) (depth : Nat),
      ((map .concat (many (terminal (.run test 1 (some 1))))).parser rules depth none :
          Parser Location Value) = (terminal (.run test 0 none)).parser rules depth none ∧
      ((map .concat (many1 (terminal (.run test 1 (some 1))))).parser rules depth none :
          Parser Location Value) = (terminal (.run test 1 none)).parser rules depth none := by
  refine ⟨?_, Terminal.map_flatten_many_single test, Terminal.map_flatten_many1_single test, ?_⟩
  · intro min max l s
    refine ⟨Terminal.parser_run test min max l s, Terminal.isGreatest_frontLength test max s, ?_⟩
    have hcut := Text.bytePrefix?_append (s.take (Terminal.frontLength test max s))
      (s.drop (Terminal.frontLength test max s))
    rwa [List.take_append_drop] at hcut
  · intro rules depth
    exact ⟨denote_concat_many _ test, denote_concat_many1 _ test⟩

end Grammar

end Descent
