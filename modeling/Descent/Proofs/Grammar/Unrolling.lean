import Descent.Proofs.Grammar.Simulation

/-!
# Grammars without references

A reference can be replaced by the grammar it leads to, as often as one likes. What is left is a
grammar without references, which needs no rules and no depth. It agrees with the grammar it was
made from wherever that one gives an answer without nesting references more deeply than they were
replaced.

* `denote_subst`: to replace references is to say what they lead to.
* `denote_unroll_of_answer`: the unrolled grammar gives every answer of the original one.
-/

namespace Descent

variable {ρ : Type}

namespace Grammar

/-- Nothing in the grammar is a reference. -/
abbrev Closed (g : Grammar ρ) : Prop :=
  g.Everywhere (¬ ·.IsRef)

/-! ## Substitution -/

mutual
/-- Replaces every reference. -/
def subst (σ : Reference → Grammar ρ) : Grammar ρ → Grammar ρ
  | terminal t => terminal t
  | bare t => bare t
  | probe q => probe q
  | ref r => σ r
  | seq ps => seq (substAll σ ps)
  | record fields => record (substFields σ fields)
  | between left right inner => between (left.subst σ) (right.subst σ) (inner.subst σ)
  | choice ps => choice (substAll σ ps)
  | opt p => opt (p.subst σ)
  | many p => many (p.subst σ)
  | many1 p => many1 (p.subst σ)
  | sepBy item separator => sepBy (item.subst σ) (separator.subst σ)
  | manyTill item stop => manyTill (item.subst σ) (stop.subst σ)
  | terminals w p => terminals (substWrapper σ w) (p.subst σ)
  | map f p => map f (p.subst σ)
  | tryMap f p => tryMap f (p.subst σ)
  | filter f p => filter f (p.subst σ)
  | replace value p => replace value (p.subst σ)
  | nth n p => nth n (p.subst σ)
  | select indices p => select indices (p.subst σ)
  | slice part p => slice part (p.subst σ)
  | put key value p => put key value (p.subst σ)
  | expect description p => expect description (p.subst σ)
  | span p => span (p.subst σ)
  | window n p => window n (p.subst σ)

/-- Replaces every reference in several grammars. -/
def substAll (σ : Reference → Grammar ρ) : List (Grammar ρ) → List (Grammar ρ)
  | [] => []
  | p :: ps => p.subst σ :: substAll σ ps

/-- Replaces every reference in the fields of a record. -/
def substFields (σ : Reference → Grammar ρ) : List (Field (Grammar ρ)) → List (Field (Grammar ρ))
  | [] => []
  | f :: fields => substField σ f :: substFields σ fields

/-- Replaces every reference in a field. -/
def substField (σ : Reference → Grammar ρ) : Field (Grammar ρ) → Field (Grammar ρ)
  | ⟨key, part⟩ => ⟨key, part.subst σ⟩

/-- Replaces every reference in a wrapper. -/
def substWrapper (σ : Reference → Grammar ρ) : Wrapper (Grammar ρ) → Wrapper (Grammar ρ)
  | .skip g => .skip (g.subst σ)
  | .identity => .identity
  | .upper => .upper
  | .twice => .twice
  | .expect => .expect
  | .quote => .quote
  | .nonempty => .nonempty
  | .orStar => .orStar
  | .opt => .opt
  | .many => .many
end

variable {σ : Reference → Grammar ρ}

theorem substAll_eq_map (ps : List (Grammar ρ)) : substAll σ ps = ps.map (subst σ) := by
  induction ps with
  | nil => rfl
  | cons p ps ih => rw [substAll, ih, List.map_cons]

theorem substFields_eq_map (fields : List (Field (Grammar ρ))) :
    substFields σ fields = fields.map fun f => ⟨f.key, f.part.subst σ⟩ := by
  induction fields with
  | nil => rfl
  | cons f fields ih => rw [substFields, ih, List.map_cons, substField]

theorem closed_subst (hσ : ∀ r, (σ r).Closed) (g : Grammar ρ) : (g.subst σ).Closed := by
  induction g with
  | terminal | bare | probe => exact .intro id nofun
  | ref r => exact hσ r
  | seq ps ih | choice ps ih =>
    refine .intro id fun q hq => ?_
    rw [subst, children, substAll_eq_map, List.mem_map] at hq
    obtain ⟨p, hp, rfl⟩ := hq
    exact ih p hp
  | record fields ih =>
    refine .intro id fun q hq => ?_
    rw [subst, children, substFields_eq_map, List.map_map, List.mem_map] at hq
    obtain ⟨f, hf, rfl⟩ := hq
    exact ih f hf
  | between left right inner h₁ h₂ h₃ => exact .intro id (by simp [subst, children, h₁, h₂, h₃])
  | sepBy p q h₁ h₂ | manyTill p q h₁ h₂ => exact .intro id (by simp [subst, children, h₁, h₂])
  | terminals w p hw ih =>
    refine .intro id ?_
    cases w with
    | skip ignored => exact List.forall_mem_cons.mpr ⟨ih, List.forall_mem_singleton.mpr hw⟩
    | _ => exact List.forall_mem_singleton.mpr ih
  | opt _ ih | many _ ih | many1 _ ih | map _ _ ih | tryMap _ _ ih | filter _ _ ih
  | replace _ _ ih | nth _ _ ih | select _ _ ih | slice _ _ ih | put _ _ _ ih | expect _ _ ih
  | span _ ih | window _ _ ih => exact .intro id (List.forall_mem_singleton.mpr ih)

/-! ## What a substitution means -/

section Denote

variable {κ : Type} [Clock κ] {σ : Reference → Grammar Regex.Program}
  {resolve : Reference → Ambient κ → Parser κ Value}

theorem denoteWrapper_subst {w : Wrapper (Grammar Regex.Program)}
    {resolve' : Reference → Ambient κ → Parser κ Value}
    (hw : w.Forall fun g => (g.subst σ).denote resolve none = g.denote resolve' none) :
    denoteWrapper resolve (substWrapper σ w) = denoteWrapper resolve' w := by
  cases w with
  | skip ignored =>
    have hignored : (ignored.subst σ).denote resolve none = ignored.denote resolve' none := hw
    funext t
    rw [substWrapper, denoteWrapper, denoteWrapper, hignored]
  | _ => rfl

/-- To replace a reference by a grammar is to let it lead to the parser of this grammar. -/
theorem denote_subst (g : Grammar Regex.Program) (a : Ambient κ) :
    (g.subst σ).denote resolve a = g.denote (fun r a => (σ r).denote resolve a) a := by
  induction g generalizing a with
  | terminal | bare | probe | ref => rfl
  | seq ps ih | choice ps ih =>
    have hps := List.map_congr_left fun p hp => ih p hp a
    rw [subst, denote, denote, denoteAll_eq_map, denoteAll_eq_map, substAll_eq_map, List.map_map,
      ← hps]
    rfl
  | record fields ih =>
    have hfields := List.map_congr_left fun f hf => congrArg (Prod.mk (Field.key f)) (ih f hf a)
    rw [subst, denote, denote, denoteFields_eq_map, denoteFields_eq_map, substFields_eq_map,
      List.map_map, ← hfields]
    rfl
  | between left right inner h₁ h₂ h₃ => rw [subst, denote, denote, h₁, h₂, h₃]
  | sepBy p q h₁ h₂ | manyTill p q h₁ h₂ => rw [subst, denote, denote, h₁, h₂]
  | terminals w p hw ih =>
    have hwrapper : denoteWrapper resolve (substWrapper σ w) = denoteWrapper _ w :=
      denoteWrapper_subst (w.forall_mono (fun _ hg => hg none) hw)
    rw [subst, denote, denote, ih, hwrapper]
  | opt _ ih | many _ ih | many1 _ ih | map _ _ ih | tryMap _ _ ih | filter _ _ ih
  | replace _ _ ih | nth _ _ ih | select _ _ ih | slice _ _ ih | put _ _ _ ih | expect _ _ ih
  | span _ ih | window _ _ ih => rw [subst, denote, denote, ih]

end Denote

end Grammar

/-! ## Unrolling -/

/-- The grammar that a reference leads to, with the references in it replaced `n - 1` more times.
What stands for a reference that leads nowhere, or that is nested more deeply, always fails. -/
def Rules.unroll (rules : Rules) : Nat → Reference → Grammar Regex.Program
  | 0, _ => .choice []
  | n + 1, r =>
    match rules.find? r with
    | some g => g.subst (rules.unroll n)
    | none => .choice []

/-- Unrolling stops with a failure, which is no reference. -/
theorem Rules.closed_unroll (rules : Rules) (n : Nat) (r : Reference) :
    (rules.unroll n r).Closed := by
  have hfail : (Grammar.choice [] : Grammar Regex.Program).Closed := .intro id nofun
  induction n generalizing r with
  | zero => exact hfail
  | succ n ih =>
    rw [unroll]
    cases rules.find? r with
    | none => exact hfail
    | some g => exact Grammar.closed_subst ih g

variable {κ : Type} [Clock κ]

/-- The unrolled reference gives the answers that the reference gives within the same depth. -/
theorem Rules.resolve_follows_unroll (rules : Rules) (n : Nat)
    (resolve : Reference → Ambient κ → Parser κ Value) :
    ∀ r a a', Ambient.Follows (Link.exact κ) a a' →
      (Link.exact κ).Values (rules.resolve n r a) ((rules.unroll n r).denote resolve a') := by
  induction n with
  | zero => exact fun r a a' ha k k' s r' hk hr => nomatch hr
  | succ n ih =>
    intro r a a' ha
    rw [Rules.resolve, unroll]
    cases rules.find? r with
    | none => exact .fail
    | some g =>
      rw [Grammar.denote_subst]
      exact g.denote_follows ih (Grammar.everywhere_admits Link.exact_admits g) a a' ha

/-- What a grammar answers within depth `n` is answered without rules when the references in it are
replaced `n` times. -/
theorem Grammar.denote_unroll_of_answer {rules : Rules} {g : Grammar Regex.Program} {n : Nat}
    (resolve : Reference → Ambient κ → Parser κ Value) {k : κ} {s : Text} {r : Reply κ Value}
    (h : g.parser rules n none k s = some r) :
    (g.subst (rules.unroll n)).denote resolve none k s = some r := by
  rw [denote_subst]
  have hresolve := rules.resolve_follows_unroll n resolve
  exact (g.denote_follows hresolve (everywhere_admits Link.exact_admits g) none none
    .none).eq_of_exact h

end Descent
