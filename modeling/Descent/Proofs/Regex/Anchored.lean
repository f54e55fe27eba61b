import Descent.Grammar.Semantics
import Descent.Proofs.Regex.Group
import Descent.Proofs.Regex.Shift
import Descent.Proofs.Regex.Source

/-!
# Patterns that are compiled anchored

A pattern can be given as a source, which is put between `^(?:` and `)` and compiled, or as a
regular expression that was compiled before. Both match at the front of a text only: of the former
there are no other matches, and of the latter other matches are thrown away. The two ways agree.

* `Regex.parse?_anchored`: the text between `^(?:` and `)` is read as a group, whatever alternatives
  and flags it has.
* `Regex.compile?_anchored`: the programs of both ways.
* `PatternSource.anchored_agrees_with_filtered`: both ways match equally, in every environment.
-/

namespace Descent

namespace Regex

/-! ## Sources -/

/-- A source can be parsed if it can be cut into tokens and read, and is not nested too deeply. -/
theorem parse?_eq_some_iff {s : Text} {r : Regex} :
    parse? s = some r ↔
      ∃ ts p, tokens? s = some ts ∧ read? ts = some p ∧ p.depth ≤ maxDepth ∧ p.regex = r := by
  simp [parse?, Option.bind_eq_some_iff]

/-- Between `^(?:` and `)` a source has the meaning that it has alone. -/
theorem parse?_anchored {s : Text} {r r' : Regex} (hr : parse? s = some r)
    (hr' : parse? (anchored s) = some r') : r' = r.atTextStart := by
  obtain ⟨ts, p, hts, hp, -, rfl⟩ := parse?_eq_some_iff.mp hr
  obtain ⟨ts', p', hts', hp', -, rfl⟩ := parse?_eq_some_iff.mp hr'
  cases (tokens?_anchored hts).symm.trans hts'
  cases (read?_anchored hp).symm.trans hp'
  rfl

/-! ## Programs -/

theorem atTextStart_eq_ofParts (r : Regex) :
    r.atTextStart = ofParts (.assertion .textStart :: (r.parts ++ []).foldr consPart []) := rfl

/-- A start in front of a choice makes it a sequence, which is a single branch. -/
theorem branches_atTextStart (r : Regex) : r.atTextStart.branches = [r.atTextStart] := by
  rw [atTextStart_eq_ofParts]
  cases (r.parts ++ []).foldr consPart [] <;> rfl

theorem isPlain_atTextStart (r : Regex) : r.atTextStart.isPlain = false := by
  rw [atTextStart_eq_ofParts]
  cases (r.parts ++ []).foldr consPart [] <;> rfl

theorem isWordList_atTextStart (r : Regex) : r.atTextStart.isWordList = false := by
  rw [isWordList, branches_atTextStart]
  rfl

/-- An expression with an assertion is not looked for by its matches. -/
theorem wholeMatches?_atTextStart (r : Regex) : r.atTextStart.wholeMatches? = none := by
  have hplain : ¬ r.atTextStart.isPlain = true := by simp [isPlain_atTextStart]
  unfold wholeMatches?
  split
  · rfl
  · exact if_neg fun h => hplain h.1

theorem program?_atTextStart {r : Regex} {p : Program} (h : program? r.atTextStart = some p) :
    r.atTextStart.fits ∧ p = r.atTextStart.toProgram := by
  rw [program?, isWordList_atTextStart, wholeMatches?_atTextStart, Bool.or_false] at h
  obtain ⟨hfits, he⟩ := Option.ite_none_right_eq_some.mp h
  exact ⟨hfits, (Option.some.inj he).symm⟩

/-- If an expression is small enough at the start of a text, it is matched by its own program, also
where it is too large to be looked for otherwise. -/
theorem program?_of_fits {r : Regex} {p : Program} (hfits : r.atTextStart.fits)
    (h : program? r = some p) : p = r.toProgram := by
  simp only [program?, hfits, if_true] at h
  split at h
  · exact (Option.some.inj h).symm
  · obtain ⟨texts, -, he⟩ := Option.map_eq_some_iff.mp h
    exact he.symm

/-- The anchored source is compiled to the expression of the plain one, behind the start of the
text. -/
theorem compile?_anchored {s : Text} {p q : Program} (hp : compile? (anchored s) = some p)
    (hq : compile? s = some q) :
    ∃ r, parse? s = some r ∧ parse? (anchored s) = some r.atTextStart ∧
      p = r.atTextStart.toProgram ∧ q = r.toProgram := by
  obtain ⟨r', hr', hp⟩ := Option.bind_eq_some_iff.mp hp
  obtain ⟨r, hr, hq⟩ := Option.bind_eq_some_iff.mp hq
  obtain rfl := parse?_anchored hr hr'
  obtain ⟨hfits, rfl⟩ := program?_atTextStart hp
  exact ⟨r, hr, hr', rfl, program?_of_fits hfits hq⟩

end Regex

/-! ## Patterns -/

namespace PatternSource

theorem compile_anchored_eq_ok_iff {source : Text} {p : Regex.Program} :
    (anchored source).compile = .ok p ↔ Regex.compile? (Regex.anchored source) = some p := by
  rw [compile]
  cases Regex.compile? (Regex.anchored source) <;> simp

theorem compile_plain_eq_ok_iff {source : Text} {p : Regex.Program} :
    (plain source).compile = .ok p ↔ Regex.compile? source = some p := by
  rw [compile]
  cases Regex.compile? source <;> simp

/-- Let `p` be the program of a source that is compiled anchored, and `q` its program as it is. The
anchored source is the same expression at the start of the text. A search with `p` is a search with
`q` that accepts a match at the front only, so both match equally much of every text, and they have
the same parser, also where terminals are wrapped. -/
theorem anchored_agrees_with_filtered {source : Text} {p q : Regex.Program}
    (hp : (anchored source).compile = .ok p) (hq : (plain source).compile = .ok q) :
    (∃ r, Regex.parse? source = some r ∧
      Regex.parse? (Regex.anchored source) = some r.atTextStart) ∧
    (∀ s, p.find? s = (q.find? s).filter (·.start = 0)) ∧
    (∀ s, (Terminal.pattern p).matchLength? s =
      ((q.find? s).filter (·.start = 0)).map (·.length)) ∧
    ∀ {κ : Type} [Clock κ],
      ((Terminal.pattern p).parser : Parser κ Text) = (Terminal.pattern q).parser ∧
      ∀ (rules : Rules) (depth : Nat) (w : Option (Wrapper (Grammar Regex.Program))),
        ((Grammar.terminal (.pattern p)).parser rules depth w : Parser κ Value) =
          (Grammar.terminal (.pattern q)).parser rules depth w := by
  obtain ⟨r, hr, hr', rfl, rfl⟩ := Regex.compile?_anchored (compile_anchored_eq_ok_iff.mp hp)
    (compile_plain_eq_ok_iff.mp hq)
  have hmatch (s : Text) :
      (Terminal.pattern r.atTextStart.toProgram).matchLength? s =
        (Terminal.pattern r.toProgram).matchLength? s := r.matchFrom?_atTextStart none s
  have hparser {κ : Type} [Clock κ] :
      ((Terminal.pattern r.atTextStart.toProgram).parser : Parser κ Text) =
        (Terminal.pattern r.toProgram).parser := by
    funext k s
    rw [Terminal.parser, Terminal.parser, hmatch]
  refine ⟨⟨r, hr, hr'⟩, r.find?_atTextStart, fun s => ?_, fun {κ} _ => ⟨hparser, ?_⟩⟩
  · rw [hmatch, r.toProgram.filter_find?]
    rfl
  · intro rules depth w
    have happly (a : Ambient κ) :
        a.apply (.pattern r.atTextStart.toProgram) = a.apply (.pattern r.toProgram) := by
      cases a with
      | none => exact hparser
      | some wrap => exact congrArg wrap hparser
    unfold Grammar.parser
    rw [Grammar.denote, Grammar.denote, happly]

/-- A source with a flag in front, which makes its own caret match at every line but not the one
that it is put behind, and with a lazy repetition, a word boundary and an empty branch. -/
theorem anchored_agrees_with_filtered_of_empty_branch :
    ∃ p q, (anchored "(?m)^a*?|\\bb|".toList).compile = .ok p ∧
      (plain "(?m)^a*?|\\bb|".toList).compile = .ok q ∧
      ∀ s, p.find? s = (q.find? s).filter (·.start = 0) := by
  have hanchored : (Regex.compile? (Regex.anchored "(?m)^a*?|\\bb|".toList)).isSome := by
    decide +kernel
  have hplain : (Regex.compile? "(?m)^a*?|\\bb|".toList).isSome := by decide +kernel
  obtain ⟨p, hp⟩ := Option.isSome_iff_exists.mp hanchored
  obtain ⟨q, hq⟩ := Option.isSome_iff_exists.mp hplain
  have hp' := compile_anchored_eq_ok_iff.mpr hp
  have hq' := compile_plain_eq_ok_iff.mpr hq
  exact ⟨p, q, hp', hq', (anchored_agrees_with_filtered hp' hq').2.1⟩

end PatternSource

end Descent
