import Descent.Grammar.Build
import Mathlib.Data.List.Basic

/-!
# The parts of a grammar

Many facts hold for grammars without certain parts. `Everywhere P g` says that `P` holds of `g` and
of all parts inside it, the grammars inside its wrappers included; `Rules.Everywhere` says so of
everything that references lead to. To look at one node is then enough to say which grammars are
meant, and what is known of a grammar is known of its parts.

A wrapper that is installed from outside is no different from one that the grammar installs itself
around everything (`Grammar.under`), so its grammar is a part like any other.
-/

namespace Descent

variable {ρ : Type}

/-- The grammars inside a wrapper. -/
def Wrapper.grammars {γ : Type} : Wrapper γ → List γ
  | skip g => [g]
  | _ => []

theorem Wrapper.forall_mono {γ : Type} {P Q : γ → Prop} (w : Wrapper γ) (h : ∀ g, P g → Q g)
    (hw : w.Forall P) : w.Forall Q := by
  cases w with
  | skip g => exact h g hw
  | _ => trivial

namespace Grammar

/-- The parts that a grammar is directly made of. -/
def children : Grammar ρ → List (Grammar ρ)
  | terminal _ | bare _ | probe _ | ref _ => []
  | seq ps | choice ps => ps
  | record fields => fields.map (·.part)
  | between left right inner => [left, right, inner]
  | sepBy item separator => [item, separator]
  | manyTill item stop => [item, stop]
  | terminals w p => p :: w.grammars
  | opt p | many p | many1 p | map _ p | tryMap _ p | filter _ p | replace _ p | nth _ p
  | select _ p | slice _ p | put _ _ p | expect _ p | span p | window _ p => [p]

/-- `P` holds of a grammar and of all parts inside it. -/
inductive Everywhere (P : Grammar ρ → Prop) : Grammar ρ → Prop
  | intro {g : Grammar ρ} : P g → (∀ q ∈ g.children, Everywhere P q) → Everywhere P g

/-- The grammar is a reference. -/
def IsRef : Grammar ρ → Prop
  | ref _ => True
  | _ => False

/-- A condition on the probes of a grammar. -/
def OnProbe (P : Probe → Prop) : Grammar ρ → Prop
  | probe q => P q
  | _ => True

/-- The grammar `g` with its terminals wrapped as `w` says. -/
def under (w : Option (Wrapper (Grammar ρ))) (g : Grammar ρ) : Grammar ρ :=
  match w with
  | none => g
  | some w => terminals w g

/-- Induction on the parts of a grammar, all at once. -/
theorem induct_children {motive : Grammar ρ → Prop}
    (step : ∀ g : Grammar ρ, (∀ q ∈ g.children, motive q) → motive g) (g : Grammar ρ) :
    motive g := by
  induction g with
  | terminal | bare | probe | ref => exact step _ nofun
  | seq ps ih | choice ps ih => exact step _ ih
  | record fields ih => exact step _ (List.forall_mem_map.mpr ih)
  | between left right inner h₁ h₂ h₃ => exact step _ (by simp [children, h₁, h₂, h₃])
  | sepBy p q h₁ h₂ | manyTill p q h₁ h₂ => exact step _ (by simp [children, h₁, h₂])
  | terminals w p hw hp =>
    refine step _ ?_
    cases w with
    | skip g => exact List.forall_mem_cons.mpr ⟨hp, List.forall_mem_singleton.mpr hw⟩
    | _ => exact List.forall_mem_singleton.mpr hp
  | opt _ ih | many _ ih | many1 _ ih | map _ _ ih | tryMap _ _ ih | filter _ _ ih
  | replace _ _ ih | nth _ _ ih | select _ _ ih | slice _ _ ih | put _ _ _ ih | expect _ _ ih
  | span _ ih | window _ _ ih => exact step _ (List.forall_mem_singleton.mpr ih)

namespace Everywhere

variable {P Q : Grammar ρ → Prop} {g q : Grammar ρ}

theorem here (h : g.Everywhere P) : P g := by
  cases h with
  | intro hg _ => exact hg

theorem child (h : g.Everywhere P) (hq : q ∈ g.children) : q.Everywhere P := by
  cases h with
  | intro _ hchildren => exact hchildren q hq

/-- A form that can be computed on a given grammar. -/
theorem iff_children : g.Everywhere P ↔ P g ∧ g.children.Forall (Everywhere P) := by
  rw [List.forall_iff_forall_mem]
  exact ⟨fun h => ⟨h.here, fun _ => h.child⟩, fun h => .intro h.1 h.2⟩

theorem mono (h : ∀ g, P g → Q g) (hg : g.Everywhere P) : g.Everywhere Q := by
  induction hg with
  | intro hg _ ih => exact .intro (h _ hg) ih

theorem of_forall (h : ∀ g, P g) (g : Grammar ρ) : g.Everywhere P := by
  induction g using induct_children with
  | step g ih => exact .intro (h g) ih

/-- What is known of a grammar is known of the grammars inside a wrapper in it. -/
theorem wrapper {w : Wrapper (Grammar ρ)} {p : Grammar ρ} (h : (terminals w p).Everywhere P) :
    w.Forall (Everywhere P) := by
  cases w with
  | skip ignored => exact h.child (by simp [children, Wrapper.grammars])
  | _ => trivial

end Everywhere

theorem OnProbe.mono {P Q : Probe → Prop} (h : ∀ q, P q → Q q) (g : Grammar ρ)
    (hg : OnProbe P g) : OnProbe Q g := by
  cases g with
  | probe q => exact h q hg
  | _ => trivial

end Grammar

/-- `P` holds of everything that references lead to, and of all parts of it. -/
def Rules.Everywhere (P : Grammar Regex.Program → Prop) (rules : Rules) : Prop :=
  ∀ r g, rules.find? r = some g → g.Everywhere P

theorem Rules.everywhere_of_cell {P : Grammar Regex.Program → Prop} {name : String}
    {g : Grammar Regex.Program} (hg : g.Everywhere P) :
    Rules.Everywhere P { cells := [(name, g)] } := by
  intro r q hq
  cases r with
  | cell x =>
    simp only [find?, Fields.find?, Option.ite_none_right_eq_some, Option.some.injEq] at hq
    exact hq.2 ▸ hg
  | definition x => cases hq

end Descent
