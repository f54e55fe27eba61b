import Descent.Proofs.Terminal.SkippedSpace

/-!
# Tokens with white space around them

`Spaced ts s rest` says that the text `s` begins with the tokens `ts`, each of them with any white
space before and after it, and goes on with `rest`. A terminal that skips white space reads one token
in this sense. It takes all white space behind the token, whereas the white space of a text may be
divided between two tokens in any way; so two texts are compared behind the white space at their
fronts.

* `Spaced.append`, `Spaced.of_append`: tokens one after the other.
* `Terminal.spaced_eq_token`: what a terminal matches is a token of the text.
* `Terminal.literal_reads`, `Terminal.digits_read`: a token that is there is matched.
-/

namespace Descent

open Descent.Parser

/-! ## Texts -/

namespace Text

/-- The text `s` is made of the tokens `ts`, with white space before and after each of them, and of
`rest` behind them. -/
inductive Spaced : List Text → Text → Text → Prop
  | nil {rest : Text} : Spaced [] rest rest
  | cons {u t v : Text} {ts : List Text} {s rest : Text} : (∀ c ∈ u, isWhiteSpace c) →
      (∀ c ∈ v, isWhiteSpace c) → Spaced ts s rest → Spaced (t :: ts) (u ++ t ++ v ++ s) rest

/-- The text begins with no digit. -/
def NoDigit (s : Text) : Prop :=
  ∀ c ∈ s.head?, c.isDigit = false

theorem isDigit_of_isWhiteSpace {c : Char} (hc : isWhiteSpace c) : c.isDigit = false := by
  rw [← Bool.not_eq_true, Char.isDigit_iff_toNat]
  rintro ⟨hlow, hhigh⟩
  have hlow : 48 ≤ c.toNat := hlow
  have hhigh : c.toNat ≤ 57 := hhigh
  simp only [isWhiteSpace, inRanges, whiteSpaceRanges] at hc
  grind

theorem isWhiteSpace_of_isDigit {c : Char} (hc : c.isDigit) : isWhiteSpace c = false := by
  rw [← Bool.not_eq_true]
  intro h
  rw [isDigit_of_isWhiteSpace h] at hc
  exact absurd hc (by decide)

theorem NoDigit.append_of_space {u s : Text} (hu : ∀ c ∈ u, isWhiteSpace c) (hs : NoDigit s) :
    NoDigit (u ++ s) := by
  cases u with
  | nil => exact hs
  | cons c u =>
    rintro _ ⟨⟩
    exact isDigit_of_isWhiteSpace (hu c List.mem_cons_self)

theorem NoDigit.takeWhile_eq_nil {s : Text} (hs : NoDigit s) : s.takeWhile Char.isDigit = [] := by
  cases s with
  | nil => rfl
  | cons c s => simp [hs c rfl]

theorem takeWhile_isDigit_append {digits rest : Text} (hdigits : ∀ c ∈ digits, c.isDigit)
    (hrest : NoDigit rest) : (digits ++ rest).takeWhile Char.isDigit = digits := by
  rw [List.takeWhile_append_of_pos hdigits, hrest.takeWhile_eq_nil, List.append_nil]

namespace Spaced

variable {ts ts' : List Text} {t s mid rest : Text} {c : Char}

theorem append (h : Spaced ts s mid) (h' : Spaced ts' mid rest) : Spaced (ts ++ ts') s rest := by
  induction h with
  | nil => exact h'
  | cons hu hv _ ih => exact .cons hu hv (ih h')

theorem of_append (h : Spaced (ts ++ ts') s rest) :
    ∃ mid, Spaced ts s mid ∧ Spaced ts' mid rest := by
  induction ts generalizing s with
  | nil => exact ⟨s, .nil, h⟩
  | cons t ts ih =>
    cases h with
    | cons hu hv h =>
      obtain ⟨mid, hfirst, hsecond⟩ := ih h
      exact ⟨mid, .cons hu hv hfirst, hsecond⟩

theorem suffix (h : Spaced ts s rest) : rest <:+ s := by
  induction h with
  | nil => exact List.suffix_rfl
  | cons _ _ _ ih => exact ih.trans (List.suffix_append _ _)

theorem length_add_le (h : Spaced ts s rest) : ts.flatten.length + rest.length ≤ s.length := by
  induction h with
  | nil => simp
  | cons _ _ _ ih =>
    simp only [List.flatten_cons, List.length_append] at ih ⊢
    omega

/-- Behind the white space at the front stands the first token. -/
theorem behindSpace_eq (h : Spaced ((c :: t) :: ts) s rest) (hc : isWhiteSpace c = false) :
    ∃ v mid, behindSpace s = c :: t ++ (v ++ mid) ∧ (∀ x ∈ v, isWhiteSpace x) ∧
      Spaced ts mid rest := by
  cases h with
  | @cons u _ v _ mid _ hu hv h =>
    refine ⟨v, mid, ?_, hv, h⟩
    rw [List.append_assoc, List.append_assoc, behindSpace_append hu, List.cons_append,
      behindSpace_cons hc]

/-- A token that does not begin with a digit has no digit in front of it either. -/
theorem noDigit (h : Spaced ((c :: t) :: ts) s rest) (hc : c.isDigit = false) : NoDigit s := by
  cases h with
  | cons hu hv h =>
    rw [List.append_assoc, List.append_assoc]
    refine .append_of_space hu ?_
    rintro _ ⟨⟩
    exact hc

end Spaced

end Text

open Text

/-! ## Terminals -/

namespace Terminal

variable {κ : Type} [Clock κ] {t : Terminal Regex.Program} {k k' : κ} {s s' rest : Text}

/-- What a terminal matches is a token of the text. -/
theorem spaced_eq_token {text : Text} (h : t.spaced k s = some ⟨.success text rest, k'⟩) :
    Spaced [text] s rest ∧ ∃ n, t.matchLength? (behindSpace s) = some n ∧
      (behindSpace s).take n = text := by
  cases hm : t.matchLength? (behindSpace s) with
  | none =>
    obtain ⟨k₁, hr⟩ := spaced_eq_failure hm k
    cases hr.symm.trans h
  | some n =>
    obtain ⟨k₁, hr⟩ := spaced_eq_success hm k
    cases hr.symm.trans h
    refine ⟨?_, n, rfl, rfl⟩
    have hfront : ∀ c ∈ s.takeWhile isWhiteSpace, isWhiteSpace c :=
      fun c hc => List.mem_takeWhile_imp hc
    have hback : ∀ c ∈ ((behindSpace s).drop n).takeWhile isWhiteSpace, isWhiteSpace c :=
      fun c hc => List.mem_takeWhile_imp hc
    have hsplit : s = s.takeWhile isWhiteSpace ++ (behindSpace s).take n ++
        ((behindSpace s).drop n).takeWhile isWhiteSpace ++
        behindSpace ((behindSpace s).drop n) := by
      simp only [List.append_assoc, takeWhile_append_behindSpace, List.take_append_drop]
    conv => arg 2; rw [hsplit]
    exact .cons hfront hback .nil

/-- A terminal reads the token that stands first in the text, provided that it matches just this
token. -/
theorem reads_token {c : Char} {x : Text} {ts : List Text} (hc : isWhiteSpace c = false)
    (h : Spaced ((c :: x) :: ts) s rest) (hs : behindSpace s' = behindSpace s)
    (hmatch : ∀ v mid, (∀ c ∈ v, isWhiteSpace c) → Spaced ts mid rest →
      t.matchLength? (c :: x ++ (v ++ mid)) = some (x.length + 1)) :
    ∃ mid, Spaced ts mid rest ∧ mid.length < s'.length ∧
      ∀ k : κ, ∃ k', t.spaced k s' = some ⟨.success (c :: x) (behindSpace mid), k'⟩ := by
  obtain ⟨v, mid, hbehind, hv, hmid⟩ := h.behindSpace_eq hc
  rw [← hs] at hbehind
  have hlength := behindSpace_length_le s'
  rw [hbehind] at hlength
  simp only [List.cons_append, List.length_cons, List.length_append] at hlength
  refine ⟨mid, hmid, by omega, fun k => ?_⟩
  have hn := hmatch v mid hv hmid
  rw [← hbehind] at hn
  obtain ⟨k', hr⟩ := spaced_eq_success hn k
  have htake : (c :: x ++ (v ++ mid)).take (x.length + 1) = c :: x :=
    List.take_left' (List.length_cons)
  have hdrop : (c :: x ++ (v ++ mid)).drop (x.length + 1) = v ++ mid :=
    List.drop_left' (List.length_cons)
  rw [hbehind, htake, hdrop, behindSpace_append hv] at hr
  exact ⟨k', hr⟩

theorem literal_reads {c : Char} {ts : List Text} (hc : isWhiteSpace c = false)
    (h : Spaced ([c] :: ts) s rest) (hs : behindSpace s' = behindSpace s) :
    ∃ mid, Spaced ts mid rest ∧ mid.length < s'.length ∧
      ∀ k : κ, ∃ k', (literal [c]).spaced k s' = some ⟨.success [c] (behindSpace mid), k'⟩ :=
  reads_token hc h hs fun v mid _ _ => by simp [matchLength?]

theorem literal_fails {c d : Char} {x : Text} (hs : behindSpace s = d :: x) (hd : c ≠ d) (k : κ) :
    ∃ k', (literal [c]).spaced k s = some ⟨.failure s none, k'⟩ := by
  refine spaced_eq_failure ?_ k
  simp [hs, matchLength?, hd]

theorem matchLength?_digits (s : Text) :
    (run Char.isDigit 1 none).matchLength? s =
      if s.takeWhile Char.isDigit = [] then none else some (s.takeWhile Char.isDigit).length := by
  rw [matchLength?, runLength_none]
  cases s.takeWhile Char.isDigit <;> simp

theorem digits_read {digits : Text} (hne : digits ≠ []) (hdigits : ∀ c ∈ digits, c.isDigit)
    (h : Spaced [digits] s rest) (hrest : NoDigit rest) (hs : behindSpace s' = behindSpace s)
    (k : κ) :
    ∃ k', (run Char.isDigit 1 none).spaced k s' =
      some ⟨.success digits (behindSpace rest), k'⟩ := by
  obtain ⟨c, x, rfl⟩ := List.exists_cons_of_ne_nil hne
  have hc := isWhiteSpace_of_isDigit (hdigits c List.mem_cons_self)
  have hmatch : ∀ v mid, (∀ c ∈ v, isWhiteSpace c) → Spaced [] mid rest →
      (run Char.isDigit 1 none).matchLength? (c :: x ++ (v ++ mid)) = some (x.length + 1) := by
    intro v mid hv hmid
    cases hmid
    rw [matchLength?_digits, takeWhile_isDigit_append hdigits (hrest.append_of_space hv)]
    simp
  obtain ⟨mid, hmid, -, hr⟩ := reads_token (κ := κ) hc h hs hmatch
  cases hmid
  exact hr k

theorem digits_fail (hs : NoDigit (behindSpace s)) (k : κ) :
    ∃ k', (run Char.isDigit 1 none).spaced k s = some ⟨.failure s none, k'⟩ := by
  refine spaced_eq_failure ?_ k
  simp [matchLength?_digits, hs.takeWhile_eq_nil]

/-- The digits that are matched. -/
theorem digits_eq_token {digits : Text}
    (h : (run Char.isDigit 1 none).spaced k s = some ⟨.success digits rest, k'⟩) :
    Spaced [digits] s rest ∧ digits ≠ [] ∧ ∀ c ∈ digits, c.isDigit := by
  obtain ⟨hspaced, n, hn, rfl⟩ := spaced_eq_token h
  rw [matchLength?_digits] at hn
  split at hn
  · cases hn
  · rename_i hne
    cases hn
    have htake := (List.prefix_iff_eq_take.mp
      (List.takeWhile_prefix Char.isDigit (l := behindSpace s))).symm
    rw [htake] at hspaced ⊢
    exact ⟨hspaced, hne, fun c hc => List.mem_takeWhile_imp hc⟩

end Terminal

end Descent
