import Descent.Regex.Compile

/-!
# A source in front of a closing parenthesis

A source is put between `^(?:` and `)` as a text. It has to be shown that it is read there as it is
read alone: no token of the source takes the parenthesis in, and none ends earlier because of it.

Two pieces look beyond their end. A repetition takes a question mark behind it along, and a
character of a bracketed set is the start of a range if a hyphen and another character come behind
it. The parenthesis is no question mark. It could be the other end of a range, but then the source
ends within a bracketed set and cannot be read alone.

* `ReadsBefore`: what is read at the front of a text does not depend on what stands behind the text.
* `token?_readsBefore`: a token is read in front of a closing parenthesis as at the end.
* `tokensUpTo_append_close`, `tokens?_anchored`: the tokens of a source between other texts.
-/

namespace Descent.Regex

/-! ## Texts that go on -/

/-- What `f` reads at the front of a text it also reads there if `t` stands behind the text. -/
def ReadsBefore {α : Type} (t : Text) (f : Text → Option (α × Text)) : Prop :=
  ∀ ⦃s a rest⦄, f s = some (a, rest) → f (s ++ t) = some (a, rest ++ t)

variable {t : Text}

/-- A search that ends before the end of the text ends there as well where the text goes on. -/
theorem span_append {p : Char → Bool} {s rest : Text} {c : Char}
    (h : s.dropWhile p = c :: rest) (t : Text) :
    (s ++ t).dropWhile p = c :: (rest ++ t) ∧ (s ++ t).takeWhile p = s.takeWhile p := by
  have hlength : (s.takeWhile p).length ≠ s.length := by
    have hsplit := congrArg List.length (List.takeWhile_append_dropWhile (p := p) (l := s))
    rw [List.length_append, h, List.length_cons] at hsplit
    omega
  rw [List.dropWhile_append, List.takeWhile_append, h, if_neg hlength]
  exact ⟨rfl, rfl⟩

theorem ReadsBefore.map {α β : Type} {f : Text → Option (α × Text)} (hf : ReadsBefore t f)
    (g : α → β) : ReadsBefore t fun s => (f s).map fun r => (g r.1, r.2) := by
  intro s b rest h
  obtain ⟨⟨a, rest⟩, ha, he⟩ := Option.map_eq_some_iff.mp h
  cases he
  exact Option.map_eq_some_iff.mpr ⟨_, hf ha, rfl⟩

/-- What is read from a single part of the text. -/
theorem map_pair_append {α β : Type} {o : Option α} {g : α → β} {s rest t : Text} {b : β}
    (h : (o.map fun a => (g a, s)) = some (b, rest)) :
    (o.map fun a => (g a, s ++ t)) = some (b, rest ++ t) := by
  obtain ⟨a, rfl, he⟩ := Option.map_eq_some_iff.mp h
  cases he
  rfl

/-- A text that does not start with `start` still does not once a closing parenthesis stands behind
it, unless `start` has one itself. -/
theorem append_close_ne_append (start : Text) (hstart : ')' ∉ start) {s : Text}
    (h : ∀ s', s ≠ start ++ s') (s' : Text) : s ++ [')'] ≠ start ++ s' := by
  intro he
  rcases List.prefix_concat_iff.mp ⟨s', he.symm⟩ with rfl | ⟨s₁, rfl⟩
  · exact hstart (List.mem_append_right _ (List.mem_singleton_self _))
  · exact h s₁ rfl

/-- A parenthesis behind a text ends the same run as the end of the text does. -/
theorem span_append_close {p : Char → Bool} (hp : p ')' = false) (s : Text) :
    (s ++ [')']).dropWhile p = s.dropWhile p ++ [')'] ∧
      (s ++ [')']).takeWhile p = s.takeWhile p := by
  induction s with
  | nil => simp [hp]
  | cons c s ih => by_cases hc : p c <;> simp [hc, ih]

/-! ## Escapes -/

theorem code?_cons_of_ne {c : Char} (hc : c ≠ '\x7b') (width : Nat) (s : Text) :
    code? width (c :: s) =
      if width ≤ (c :: s).length then
        (charOfHex? ((c :: s).take width)).map (·, (c :: s).drop width)
      else none :=
  code?.eq_2 _ _ fun _ h => hc (List.cons.inj h).1

theorem code?_readsBefore (t : Text) {width : Nat} (hwidth : 0 < width) :
    ReadsBefore t (code? width) := by
  intro s c rest h
  rcases s with _ | ⟨d, s⟩
  · have hnone : ¬ width ≤ ([] : Text).length := Nat.not_le.mpr hwidth
    rw [code?.eq_2 _ _ fun _ he => List.cons_ne_nil _ _ he.symm, if_neg hnone] at h
    cases h
  · by_cases hd : d = '\x7b'
    · subst hd
      rw [code?] at h
      rw [List.cons_append, code?]
      split at h
      · cases h
      · next behind hdrop =>
        obtain ⟨hdrop', htake⟩ := span_append hdrop t
        rw [hdrop', htake]
        exact map_pair_append h
    · rw [code?_cons_of_ne hd] at h
      rw [List.cons_append, code?_cons_of_ne hd, ← List.cons_append]
      split at h
      · next hlength =>
        have hlength' : width ≤ (d :: s ++ t).length := by
          rw [List.length_append]
          omega
        rw [if_pos hlength', List.take_append_of_le_length hlength,
          List.drop_append_of_le_length hlength]
        exact map_pair_append h
      · cases h

theorem escape?_readsBefore (t : Text) : ReadsBefore t escape? := by
  intro s e rest h
  unfold escape? at h ⊢
  split at h
  · cases h
  · exact (code?_readsBefore t (by decide)).map _ h
  · exact (code?_readsBefore t (by decide)).map _ h
  · exact (code?_readsBefore t (by decide)).map _ h
  · next c s hx hu hU =>
    split
    · next heq => cases heq
    · next heq => exact absurd (List.cons.inj heq).1 (by simpa using hx)
    · next heq => exact absurd (List.cons.inj heq).1 (by simpa using hu)
    · next heq => exact absurd (List.cons.inj heq).1 (by simpa using hU)
    · next heq =>
      cases heq
      exact map_pair_append h

/-! ## Ranges -/

theorem rangeEnd?_readsBefore (t : Text) : ReadsBefore t rangeEnd? := by
  intro s e rest h
  unfold rangeEnd? at h ⊢
  split at h
  · cases h
  · exact escape?_readsBefore t h
  · next c s hc =>
    cases h
    split
    · next heq => cases heq
    · next heq => exact absurd (List.cons.inj heq).1 (by simpa using hc)
    · next heq =>
      cases heq
      rfl

/-- The range from one character to another. -/
def joined? : Escape → Option (Escape × Text) → Option (ClassExpr × Text)
  | .literal a, some (.literal b, rest) => if a ≤ b then some (.range a b, rest) else none
  | _, _ => none

theorem joined?_append {first : Escape} {s rest : Text} {e : ClassExpr}
    (h : joined? first (rangeEnd? s) = some (e, rest)) (t : Text) :
    joined? first (rangeEnd? (s ++ t)) = some (e, rest ++ t) := by
  unfold joined? at h
  split at h
  · next a b behind hb =>
    rw [rangeEnd?_readsBefore t hb, joined?]
    split at h
    · next hle =>
      cases h
      exact if_pos hle
    · cases h
  · cases h

theorem range?_of_hyphen {s rest : Text} {first : Escape} {c : Char}
    (h : rangeEnd? s = some (first, '-' :: c :: rest)) :
    range? s =
      if c = ']' ∨ c = '-' then (member? first).map (·, '-' :: c :: rest)
      else joined? first (rangeEnd? (c :: rest)) := by
  rw [range?, h]
  rfl

theorem range?_of_not_hyphen {s rest : Text} {first : Escape}
    (h : rangeEnd? s = some (first, rest)) (hrest : ∀ c r, rest ≠ '-' :: c :: r) :
    range? s = (member? first).map (·, rest) := by
  rw [range?, h]
  split
  · next heq => cases heq
  · next heq =>
    cases heq
    exact absurd rfl (hrest _ _)
  · next heq =>
    cases heq
    rfl

/-- A hyphen at the end of the text might join a range if the text went on. -/
theorem range?_append {s rest : Text} {e : ClassExpr} (h : range? s = some (e, rest))
    (hne : rest ≠ []) (hhyphen : rest ≠ ['-']) (t : Text) :
    range? (s ++ t) = some (e, rest ++ t) := by
  rcases hs : rangeEnd? s with _ | ⟨first, behind⟩
  · rw [range?, hs] at h
    cases h
  have hs' := rangeEnd?_readsBefore t hs
  by_cases hjoin : ∃ c r, behind = '-' :: c :: r
  · obtain ⟨c, r, rfl⟩ := hjoin
    rw [range?_of_hyphen hs] at h
    rw [range?_of_hyphen hs']
    split at h
    · next hend =>
      rw [if_pos hend]
      exact map_pair_append h
    · next hend =>
      rw [if_neg hend]
      exact joined?_append h t
  · have hbehind : ∀ c r, behind ≠ '-' :: c :: r := fun c r he => hjoin ⟨c, r, he⟩
    rw [range?_of_not_hyphen hs hbehind] at h
    obtain ⟨e', he', he⟩ := Option.map_eq_some_iff.mp h
    cases he
    rw [range?_of_not_hyphen hs', he']
    · rfl
    · -- More than a hyphen is left of `s`, so `t` does not complete the start of a range.
      intro c r he
      rcases rest with _ | ⟨d, _ | ⟨d', rest⟩⟩
      · exact hne rfl
      · exact hhyphen (by rw [(List.cons.inj he).1])
      · cases he
        exact hbehind _ _ rfl

/-! ## Bracketed sets -/

/-- Whether a caret comes first, and what stands behind it. -/
def negation : Text → Bool × Text
  | '^' :: s => (true, s)
  | s => (false, s)

theorem negation_append_close (s : Text) :
    negation (s ++ [')']) = ((negation s).1, (negation s).2 ++ [')']) := by
  by_cases hs : ∃ s', s = '^' :: s'
  · obtain ⟨s, rfl⟩ := hs
    rfl
  · have hs' : ∀ s', s ≠ '^' :: s' := not_exists.mp hs
    rw [negation.eq_2 _ hs', negation.eq_2 _ (append_close_ne_append ['^'] (by decide) hs')]

/-- What stands behind the colon and the bracket that end the name of a set. -/
def behindName? : Text → Option Text
  | ':' :: ']' :: s => some s
  | _ => none

theorem behindName?_append_close (s : Text) :
    behindName? (s ++ [')']) = (behindName? s).map (· ++ [')']) := by
  by_cases hs : ∃ s', s = ':' :: ']' :: s'
  · obtain ⟨s, rfl⟩ := hs
    rfl
  · have hs' : ∀ s', s ≠ ':' :: ']' :: s' := not_exists.mp hs
    rw [behindName?.eq_2 _ hs',
      behindName?.eq_2 _ (append_close_ne_append [':', ']'] (by decide) hs')]
    rfl

theorem named?_colon (s : Text) :
    named? (':' :: s) =
      (behindName? ((negation s).2.dropWhile (· ≠ ':'))).bind fun rest =>
        (NamedSet.ofName? ((negation s).2.takeWhile (· ≠ ':'))).map
          (.named (negation s).1 ·, rest) := by
  by_cases hs : ∃ s', s = '^' :: s'
  case' pos =>
    obtain ⟨s, rfl⟩ := hs
    rw [named?, negation]
  case' neg =>
    rw [named?.eq_2 _ (not_exists.mp hs), negation.eq_2 _ (not_exists.mp hs)]
  all_goals
    dsimp only
    split
    · next h =>
      rw [h]
      rfl
    · next h =>
      rw [behindName?.eq_2 _ h]
      rfl

theorem named?_of_not_colon {s : Text} (hs : ∀ s', s ≠ ':' :: s') : named? s = none := by
  unfold named?
  split
  · next s' => exact absurd rfl (hs s')
  · rfl

theorem named?_append_close (s : Text) :
    named? (s ++ [')']) = (named? s).map fun r => (r.1, r.2 ++ [')']) := by
  by_cases hs : ∃ s', s = ':' :: s'
  · obtain ⟨s, rfl⟩ := hs
    rw [List.cons_append, named?_colon, named?_colon, negation_append_close]
    rcases hdrop : (negation s).2.dropWhile (· ≠ ':') with _ | ⟨c, rest⟩
    · rw [List.dropWhile_append, hdrop]
      rfl
    · obtain ⟨hdrop', htake⟩ := span_append hdrop [')']
      rw [hdrop', htake, ← List.cons_append, behindName?_append_close]
      cases behindName? (c :: rest) <;>
        cases NamedSet.ofName? ((negation s).2.takeWhile (· ≠ ':')) <;> rfl
  · have hs' : ∀ s', s ≠ ':' :: s' := not_exists.mp hs
    rw [named?_of_not_colon hs',
      named?_of_not_colon (append_close_ne_append [':'] (by decide) hs')]
    rfl

/-- The members of a bracketed set that are read with its opening bracket. -/
def firstMembers (s : Text) : List ClassExpr × Text :=
  match s with
  | '-' :: _ =>
    ((s.takeWhile (· = '-')).map fun c => .range c c, s.dropWhile (· = '-'))
  | ']' :: s => ([.range ']' ']'], s)
  | s => ([], s)

theorem opening_eq (s : Text) :
    opening s = (⟨(negation s).1, none, (firstMembers (negation s).2).1⟩,
      (firstMembers (negation s).2).2) := by
  change (match (negation s).2 with
    | '-' :: _ =>
      (({ negated := (negation s).1,
          members := ((negation s).2.takeWhile (· = '-')).map (fun c => .range c c) } : ClassLevel),
        (negation s).2.dropWhile (· = '-'))
    | ']' :: s' => ({ negated := (negation s).1, members := [.range ']' ']'] }, s')
    | s' => ({ negated := (negation s).1 }, s')) = _
  generalize negation s = r
  unfold firstMembers
  split <;> rfl

theorem firstMembers_append_close (s : Text) :
    firstMembers (s ++ [')']) = ((firstMembers s).1, (firstMembers s).2 ++ [')']) := by
  by_cases hhyphen : ∃ s', s = '-' :: s'
  · obtain ⟨s, rfl⟩ := hhyphen
    obtain ⟨hdrop, htake⟩ := span_append_close (p := (· = '-')) rfl ('-' :: s)
    have hfirst (s : Text) : firstMembers ('-' :: s) =
        ((('-' :: s).takeWhile (· = '-')).map fun c => .range c c,
          ('-' :: s).dropWhile (· = '-')) := rfl
    rw [List.cons_append, hfirst, hfirst, ← List.cons_append, hdrop, htake]
  · by_cases hbracket : ∃ s', s = ']' :: s'
    · obtain ⟨s, rfl⟩ := hbracket
      rfl
    · have hhyphen' : ∀ s', s ≠ '-' :: s' := not_exists.mp hhyphen
      have hbracket' : ∀ s', s ≠ ']' :: s' := not_exists.mp hbracket
      rw [firstMembers.eq_3 _ hhyphen' hbracket',
        firstMembers.eq_3 _ (append_close_ne_append ['-'] (by decide) hhyphen')
          (append_close_ne_append [']'] (by decide) hbracket')]

theorem opening_append_close (s : Text) :
    opening (s ++ [')']) = ((opening s).1, (opening s).2 ++ [')']) := by
  rw [opening_eq, opening_eq, negation_append_close, firstMembers_append_close]

/-- Inside of brackets the parenthesis could become the end of a range. Therefore more must stand behind
the token than nothing or a hyphen. -/
theorem classToken?_append_close {s rest : Text} {tok : ClassToken}
    (h : classToken? s = some (tok, rest))
    (hrest : tok = .closing ∨ rest ≠ [] ∧ rest ≠ ['-']) :
    classToken? (s ++ [')']) = some (tok, rest ++ [')']) := by
  unfold classToken? at h
  split at h
  · next s =>
    rw [List.cons_append, classToken?, named?_append_close, opening_append_close]
    split at h
    · next hn =>
      cases h
      rw [hn]
      rfl
    · next hn =>
      cases h
      rw [hn]
      rfl
  · cases h
    rfl
  · cases h
    rfl
  · cases h
    rfl
  · cases h
    rfl
  · next hopening hclosing hinter hdiff hsymm =>
    obtain ⟨⟨e, rest⟩, hrange, he⟩ := Option.map_eq_some_iff.mp h
    cases he
    obtain ⟨hne, hhyphen⟩ := hrest.resolve_left nofun
    rw [classToken?.eq_6, range?_append hrange hne hhyphen]
    · rfl
    · exact append_close_ne_append ['['] (by decide) hopening
    · exact append_close_ne_append [']'] (by decide) hclosing
    · exact append_close_ne_append ['&', '&'] (by decide) hinter
    · exact append_close_ne_append ['-', '-'] (by decide) hdiff
    · exact append_close_ne_append ['~', '~'] (by decide) hsymm

theorem classRest?_nil (n : Nat) (l : ClassLevel) (outer : List ClassLevel) :
    classRest? n l outer [] = none := by
  cases n <;> rfl

theorem classRest?_hyphen (n : Nat) (l : ClassLevel) (outer : List ClassLevel) :
    classRest? n l outer ['-'] = none := by
  cases n with
  | zero => rfl
  | succ n => exact classRest?_nil n _ outer

/-- A bracketed set is closed: it ends neither where the text does nor with a hyphen there. -/
theorem ne_of_classRest?_eq_some {n : Nat} {l : ClassLevel} {outer : List ClassLevel} {s : Text}
    {r : ClassExpr × Text} (h : classRest? n l outer s = some r) : s ≠ [] ∧ s ≠ ['-'] := by
  constructor
  · rintro rfl
    simp [classRest?_nil] at h
  · rintro rfl
    simp [classRest?_hyphen] at h

/-- The bound on the number of pieces does not matter once it is large enough. -/
theorem classRest?_append_close {n m : Nat} {l : ClassLevel} {outer : List ClassLevel}
    {s rest : Text} {e : ClassExpr} (h : classRest? n l outer s = some (e, rest)) (hnm : n ≤ m) :
    classRest? m l outer (s ++ [')']) = some (e, rest ++ [')']) := by
  induction n generalizing m l outer s with
  | zero => cases h
  | succ n ih =>
    obtain ⟨m, rfl⟩ : ∃ k, m = k + 1 := ⟨m - 1, by omega⟩
    have hnm' : n ≤ m := Nat.le_of_succ_le_succ hnm
    rw [classRest?] at h
    rw [classRest?]
    rcases htoken : classToken? s with _ | ⟨tok, behind⟩
    · simp [htoken] at h
    rw [htoken] at h
    cases tok with
    | item e =>
      rw [classToken?_append_close htoken (.inr (ne_of_classRest?_eq_some h))]
      exact ih h hnm'
    | operator op =>
      rw [classToken?_append_close htoken (.inr (ne_of_classRest?_eq_some h))]
      exact ih h hnm'
    | opening inner =>
      rw [classToken?_append_close htoken (.inr (ne_of_classRest?_eq_some h))]
      exact ih h hnm'
    | closing =>
      rw [classToken?_append_close htoken (.inl rfl)]
      cases outer with
      | nil =>
        cases h
        rfl
      | cons o outer => exact ih h hnm'

/-- A bracketed set is complete at its closing bracket, so that no parenthesis gets into it. -/
theorem bracket?_readsBefore : ReadsBefore [')'] bracket? := by
  intro s e rest h
  rw [bracket?, opening_append_close]
  exact classRest?_append_close h (by simp)

/-! ## Repetitions and groups -/

theorem numeral_append {s digits rest : Text} {c : Char} (h : numeral s = (digits, c :: rest))
    (t : Text) : numeral (s ++ t) = (digits, c :: (rest ++ t)) := by
  obtain ⟨hdigits, hrest⟩ := Prod.mk.inj h
  rcases hspace : s.dropWhile Text.isWhiteSpace with _ | ⟨d, numerals⟩
  · simp [hspace] at hrest
  rcases hbehind : (d :: numerals).dropWhile Char.isDigit with _ | ⟨d', behind⟩
  · simp [hspace, hbehind] at hrest
  rw [hspace, hbehind] at hrest
  rw [hspace] at hdigits
  obtain ⟨hbehind', htake⟩ := span_append hbehind t
  rw [numeral, (span_append hspace t).1, ← List.cons_append, hbehind', htake, ← List.cons_append,
    (span_append hrest t).1, hdigits]

theorem bounds?_readsBefore (t : Text) : ReadsBefore t bounds? := by
  intro s b rest h
  unfold bounds? at h
  split at h
  · next m behind hm =>
    rw [bounds?, numeral_append hm t]
    exact map_pair_append h
  · next m behind hm =>
    rw [bounds?, numeral_append hm t]
    exact map_pair_append h
  · next m behind hbrace hm =>
    split at h
    · next n behind' hn =>
      -- There is a second numeral or a brace, so `t` does not supply the brace of a bound `m,}`.
      have hbrace' (s' : Text) : behind ++ t ≠ '\x7d' :: s' := by
        intro he
        rcases behind with _ | ⟨c, behind⟩
        · cases hn
        · exact hbrace behind (by rw [(List.cons.inj he).1])
      rw [bounds?, numeral_append hm t]
      split
      · next heq => cases heq
      · next heq => exact absurd (List.cons.inj (Prod.mk.inj heq).2).2 (hbrace' _)
      · next heq =>
        cases heq
        rw [numeral_append hn t]
        split at h
        · next hleast hlargest =>
          obtain ⟨hle, he⟩ := Option.ite_none_right_eq_some.mp h
          cases he
          simp only [hleast, hlargest, if_pos hle]
        · cases h
      · next hother => exact absurd rfl (hother _ _)
    · cases h
  · cases h

theorem repetitionToken_readsBefore (min : Nat) (max : Option Nat) :
    ReadsBefore [')'] fun s => some (repetitionToken min max s) := by
  intro s tok rest h
  by_cases hs : ∃ s', s = '?' :: s'
  · obtain ⟨s, rfl⟩ := hs
    cases h
    rfl
  · have hs' : ∀ s', s ≠ '?' :: s' := not_exists.mp hs
    dsimp only at h
    rw [repetitionToken.eq_2 _ _ _ hs'] at h
    cases h
    exact congrArg some
      (repetitionToken.eq_2 _ _ _ (append_close_ne_append ['?'] (by decide) hs'))

theorem groupName?_readsBefore (t : Text) : ReadsBefore t groupName? := by
  intro s tok rest h
  unfold groupName? at h
  split at h
  · cases h
  · next behind hdrop =>
    obtain ⟨hdrop', htake⟩ := span_append hdrop t
    obtain ⟨hname, he⟩ := Option.ite_none_right_eq_some.mp h
    cases he
    rw [groupName?, hdrop', htake]
    exact if_pos hname

theorem flagChange?_readsBefore (t : Text) : ReadsBefore t flagChange? := by
  intro s tok rest h
  unfold flagChange? at h
  split at h
  · next behind hdrop =>
    obtain ⟨hdrop', htake⟩ := span_append hdrop t
    rw [flagChange?, hdrop', htake]
    exact map_pair_append h
  · next behind hdrop =>
    obtain ⟨hdrop', htake⟩ := span_append hdrop t
    obtain ⟨hletters, h⟩ := Option.ite_none_left_eq_some.mp h
    rw [flagChange?, hdrop', htake]
    exact (if_neg hletters).trans (map_pair_append h)
  · cases h

theorem group?_readsBefore : ReadsBefore [')'] group? := by
  intro s tok rest h
  unfold group? at h
  split at h
  · exact groupName?_readsBefore _ h
  · exact groupName?_readsBefore _ h
  · next s hname hname' =>
    rw [List.cons_append, group?.eq_3]
    · exact flagChange?_readsBefore _ h
    · exact append_close_ne_append ['P', '<'] (by decide) hname
    · exact append_close_ne_append ['<'] (by decide) hname'
  · next hname hname' hflags =>
    cases h
    rw [group?.eq_4]
    · exact append_close_ne_append ['?', 'P', '<'] (by decide) hname
    · exact append_close_ne_append ['?', '<'] (by decide) hname'
    · exact append_close_ne_append ['?'] (by decide) hflags

/-! ## Tokens -/

/-- No token is read differently because a parenthesis stands behind the source. -/
theorem token?_readsBefore : ReadsBefore [')'] token? := by
  intro s tok rest h
  unfold token? at h
  split at h
  · cases h
  · exact (escape?_readsBefore _).map _ h
  · cases h
    rfl
  · cases h
    rfl
  · cases h
    rfl
  · cases h
    rfl
  · exact group?_readsBefore h
  · cases h
    rfl
  · exact bracket?_readsBefore.map _ h
  · exact repetitionToken_readsBefore _ _ h
  · exact repetitionToken_readsBefore _ _ h
  · exact repetitionToken_readsBefore _ _ h
  · next s =>
    obtain ⟨⟨b, behind⟩, hb, he⟩ := Option.map_eq_some_iff.mp h
    rw [List.cons_append, token?, bounds?_readsBefore _ hb]
    exact repetitionToken_readsBefore _ _ (congrArg some he)
  · cases h
    -- Whether a character stands for itself is seen from this character alone.
    rw [List.cons_append, token?.eq_14]
    all_goals assumption

/-- The bound on the number of tokens does not matter as long as it leaves one for the parenthesis. -/
theorem tokensUpTo_append_close {n m : Nat} {s : Text} {ts : List Token}
    (h : tokensUpTo n s = some ts) (hnm : n < m) :
    tokensUpTo m (s ++ [')']) = some (ts ++ [.close]) := by
  induction n generalizing m s ts with
  | zero =>
    cases s with
    | nil =>
      cases h
      obtain ⟨m, rfl⟩ : ∃ k, m = k + 1 := ⟨m - 1, by omega⟩
      cases m <;> rfl
    | cons c s => cases h
  | succ n ih =>
    obtain ⟨m, rfl⟩ : ∃ k, m = k + 1 := ⟨m - 1, by omega⟩
    cases s with
    | nil =>
      cases h
      cases m <;> rfl
    | cons c s =>
      rw [tokensUpTo] at h
      rcases htoken : token? (c :: s) with _ | ⟨tok, rest⟩
      · rw [htoken] at h
        cases h
      rw [htoken] at h
      obtain ⟨ts, hts, rfl⟩ := Option.map_eq_some_iff.mp h
      have htoken' := token?_readsBefore htoken
      rw [List.cons_append] at htoken' ⊢
      rw [tokensUpTo, htoken']
      exact congrArg (Option.map (tok :: ·)) (ih hts (Nat.lt_of_succ_lt_succ hnm))

/-- The tokens of a source stay its tokens between an opening and a closing parenthesis. -/
theorem tokens?_anchored {s : Text} {ts : List Token} (h : tokens? s = some ts) :
    tokens? (anchored s) = some (.caret :: .scope ⟨[], []⟩ :: (ts ++ [.close])) := by
  have hinner : tokensUpTo ((s ++ [')']).length + 2) (s ++ [')']) = some (ts ++ [.close]) :=
    tokensUpTo_append_close h (by simp; omega)
  change tokensUpTo ((s ++ [')']).length + 4) ('^' :: '(' :: '?' :: ':' :: (s ++ [')'])) = _
  exact congrArg (Option.map (.caret :: ·)) (congrArg (Option.map (.scope ⟨[], []⟩ :: ·)) hinner)

end Descent.Regex
