import Descent.Grammar.Semantics
import Descent.Proofs.Grammar.Part
import Descent.Proofs.Parser.Cases

/-!
# Properties that parsers inherit from their parts

Most nodes of a grammar do not look at the clock themselves: their parsers are put together from those
of their parts with a handful of operations. A property of parsers that is kept by these operations
(`Composable`) therefore passes from the parts of such a node to the node (`denote_of_children`), and
from a terminal to its wrapped form (`denoteWrapper`). What remains to be looked at for each property
are the leaves, the references, and the nodes that read the clock or cut the text.
-/

namespace Descent

open Descent.Parser

variable {κ : Type}

namespace Parser

/-- The property `P` is kept by the operations that parsers are put together with. -/
structure Composable (P : ∀ ⦃α : Type⦄, Parser κ α → Prop) : Prop where
  succeed : ∀ {α : Type} (v : α), P (Parser.succeed v)
  fail : ∀ {α : Type}, P (Parser.fail : Parser κ α)
  map : ∀ {α β : Type} {p : Parser κ α} (f : α → β), P p → P (p.map f)
  andThen : ∀ {α β : Type} {p : Parser κ α} {f : α → Parser κ β}, P p → (∀ v, P (f v)) →
    P (p.andThen f)
  filter : ∀ {α : Type} {p : Parser κ α} (c : α → Bool), P p → P (p.filter c)
  choice : ∀ {α : Type} {ps : List (Parser κ α)}, (∀ p ∈ ps, P p) → P (Parser.choice ps)
  opt : ∀ {α : Type} {p : Parser κ α}, P p → P p.opt
  many : ∀ {α : Type} {p : Parser κ α}, P p → P (Parser.many p)
  sepBy : ∀ {α β : Type} {p : Parser κ α} {q : Parser κ β}, P p → P q → P (Parser.sepBy p q)
  manyTill : ∀ {α : Type} {p q : Parser κ α}, P p → P q → P (Parser.manyTill p q)

namespace Composable

variable {P : ∀ ⦃α : Type⦄, Parser κ α → Prop} (hP : Composable P) {α β γ : Type}

include hP

theorem tryMap {p : Parser κ α} (f : α → Option β) (hp : P p) : P (p.tryMap f) := by
  refine hP.andThen hp fun v => ?_
  cases f v with
  | none => exact hP.fail
  | some u => exact hP.succeed u

theorem seq {ps : List (Parser κ α)} (hps : ∀ p ∈ ps, P p) : P (Parser.seq ps) := by
  induction ps with
  | nil => exact hP.succeed []
  | cons p ps ih =>
    have hrest : P (Parser.seq ps) := ih fun q hq => hps q (List.mem_cons_of_mem p hq)
    exact hP.andThen (hps p List.mem_cons_self) fun v => hP.map _ hrest

theorem recordFrom {parts : List (Option String × Parser κ α)} (hparts : ∀ e ∈ parts, P e.2)
    (captured : Fields α) : P (Parser.recordFrom captured parts) := by
  induction parts generalizing captured with
  | nil => exact hP.succeed captured
  | cons e parts ih =>
    have he : P e.2 := hparts e List.mem_cons_self
    have hrest := ih fun e' he' => hparts e' (List.mem_cons_of_mem e he')
    obtain ⟨_ | key, p⟩ := e
    · exact hP.andThen he fun v => hrest captured
    · exact hP.andThen he fun v => hrest (captured.put key v)

theorem between {left : Parser κ α} {right : Parser κ β} {inner : Parser κ γ} (hleft : P left)
    (hright : P right) (hinner : P inner) : P (Parser.between left right inner) :=
  hP.andThen hleft fun _ => hP.andThen hinner fun _ => hP.map _ hright

theorem many1 {p : Parser κ α} (hp : P p) : P (Parser.many1 p) := by
  rw [many1_eq_andThen]
  exact hP.andThen hp fun _ => hP.map _ (hP.many hp)

end Composable

end Parser

/-! ## Nodes of a grammar -/

namespace Grammar

/-- The node neither stands for another grammar or a terminal nor reads the clock nor cuts the text:
its parser is put together from those of its parts. -/
def IsPlain {ρ : Type} : Grammar ρ → Prop
  | terminal _ | bare _ | probe _ | ref _ | terminals _ _ | expect _ _ | span _ | window _ _ => False
  | _ => True

variable [Clock κ] {P : ∀ ⦃α : Type⦄, Parser κ α → Prop}
  {resolve : Reference → Ambient κ → Parser κ Value}

/-- A plain node inherits what all its parts have. -/
theorem denote_of_children (hP : Composable P) {g : Grammar Regex.Program} (hg : g.IsPlain)
    {a : Ambient κ} (h : ∀ q ∈ g.children, P (q.denote resolve a)) : P (g.denote resolve a) := by
  cases g with
  | terminal | bare | probe | ref | terminals | expect | span | window => exact hg.elim
  | seq ps =>
    rw [denote, denoteAll_eq_map]
    exact hP.map _ (hP.seq (List.forall_mem_map.mpr h))
  | record fields =>
    rw [denote, denoteFields_eq_map]
    refine hP.map _ (hP.recordFrom (List.forall_mem_map.mpr ?_) [])
    exact fun f hf => h f.part (List.mem_map_of_mem hf)
  | between left right inner =>
    exact hP.between (h left (by simp [children])) (h right (by simp [children]))
      (h inner (by simp [children]))
  | choice ps =>
    rw [denote, denoteAll_eq_map]
    exact hP.choice (List.forall_mem_map.mpr h)
  | opt p => exact hP.map _ (hP.opt (h p List.mem_cons_self))
  | many p => exact hP.map _ (hP.many (h p List.mem_cons_self))
  | many1 p => exact hP.map _ (hP.many1 (h p List.mem_cons_self))
  | sepBy item separator =>
    exact hP.map _ (hP.sepBy (h item (by simp [children])) (h separator (by simp [children])))
  | manyTill item stop =>
    exact hP.map _ (hP.manyTill (h item (by simp [children])) (h stop (by simp [children])))
  | map f p | replace f p => exact hP.map _ (h p List.mem_cons_self)
  | tryMap f p => exact hP.tryMap _ (h p List.mem_cons_self)
  | filter f p => exact hP.filter _ (h p List.mem_cons_self)
  | nth n p => exact hP.tryMap _ (hP.tryMap _ (h p List.mem_cons_self))
  | select indices p => exact hP.map _ (hP.tryMap _ (hP.tryMap _ (h p List.mem_cons_self)))
  | slice part p => exact hP.map _ (hP.map _ (hP.tryMap _ (h p List.mem_cons_self)))
  | put key value p => exact hP.map _ (hP.map _ (hP.tryMap _ (h p List.mem_cons_self)))

/-- A wrapped terminal inherits what terminals have, apart from the wrapper that gives it a
message. -/
theorem denoteWrapper_of_terminal (hP : Composable P)
    (hterminal : ∀ t : Terminal Regex.Program, P (t.parser : Parser κ Text))
    {w : Wrapper (Grammar Regex.Program)} (hw : w.Forall fun g => P (g.denote resolve none))
    (hexpect : w = .expect → ∀ t : Terminal Regex.Program,
      P ((t.parser : Parser κ Text).expect "token".toList)) (t : Terminal Regex.Program) :
    P (denoteWrapper resolve w t.parser) := by
  have ht := hterminal t
  cases w with
  | skip ignored => exact hP.between hw hw ht
  | identity => exact ht
  | upper => exact hP.map _ ht
  | twice => exact hP.map _ (hP.seq (by simp [ht]))
  | expect => exact hexpect rfl t
  | quote => exact hP.between (hterminal _) (hterminal _) ht
  | nonempty => exact hP.filter _ ht
  | orStar => exact hP.choice (by simp [hterminal])
  | opt => exact hP.map _ (hP.opt ht)
  | many => exact hP.map _ (hP.many ht)

end Grammar

end Descent
