import Descent.Proofs.Grammar.Contract
import Descent.Proofs.Grammar.Simulation
import Descent.Proofs.Parser.Transcript
import Mathlib.Tactic

/-!
# No character is lost

A grammar of terminals, sequences, choices, repetitions and references has texts for values, in lists
that follow its form. If terminals are not wrapped, these texts are what was consumed: put one after
the other, with the rest behind them, they are the input again. No character is dropped or kept twice,
and none comes from an alternative that was given up.

The nodes that are left out all drop or change something: `between` drops what stands around, `sepBy`
its separators, `integer` the digits.

* `Value.Reading`: what is asked of a way to read the text off a value.
* `KeepsText`: the nodes whose values have all the text.
* `consumed_text_is_kept`: the texts of the value and the rest.
-/

namespace Descent

open Descent.Parser

/-! ## The texts inside a value -/

namespace Value

mutual
/-- All texts inside a value, in order. -/
def texts : Value → List Text
  | null | bool _ | int _ => []
  | str t => [t]
  | list vs => textsAll vs
  | record fields => textsFields fields
  | spanned v _ => texts v

/-- All texts inside several values. -/
def textsAll : List Value → List Text
  | [] => []
  | v :: vs => texts v ++ textsAll vs

/-- All texts inside the fields of a record. -/
def textsFields : List (String × Value) → List Text
  | [] => []
  | field :: fields => textsField field ++ textsFields fields

/-- All texts inside a field. -/
def textsField : String × Value → List Text
  | (_, v) => texts v
end

/-- A way to read the text off a value: a text is taken as it is, a list entry by entry, and nothing
stands for the empty text. -/
structure Reading (text : Value → Text) : Prop where
  null : text .null = []
  str : ∀ t, text (.str t) = t
  list : ∀ vs, text (.list vs) = vs.flatMap text

theorem reading_concat : Reading concat where
  null := rfl
  str _ := rfl
  list vs := by
    rw [concat]
    induction vs with
    | nil => rfl
    | cons v vs ih => rw [concatAll, ih, List.flatMap_cons]

theorem reading_texts : Reading fun v => v.texts.flatten where
  null := rfl
  str t := List.append_nil t
  list vs := by
    rw [texts]
    induction vs with
    | nil => rfl
    | cons v vs ih => rw [textsAll, List.flatten_append, ih, List.flatMap_cons]

end Value

/-! ## Grammars -/

variable {κ : Type} {text : Value → Text}

theorem Parser.Transcribes.map_list {p : Parser κ (List Value)} (htext : Value.Reading text)
    (hp : p.Transcribes (List.flatMap text)) : (p.map .list).Transcribes text :=
  hp.map htext.list

variable [Clock κ]

theorem Terminal.parser_transcribes (t : Terminal Regex.Program) :
    (t.parser : Parser κ Text).Transcribes id := by
  intro k s v rest k' h
  rcases parser_eq_some_iff.mp h with ⟨-, he⟩ | ⟨n, -, he⟩
  · cases he
  · cases he
    exact List.take_append_drop n s

namespace Grammar

/-- The node keeps all the text that its parts keep. -/
def KeepsText {ρ : Type} : Grammar ρ → Prop
  | terminal _ | bare _ | ref _ | seq _ | choice _ | opt _ | many _ | many1 _ | manyTill _ _
  | filter _ _ | expect _ _ | window _ _ => True
  | _ => False

/-- Where no value is dropped or replaced, the texts of the value are the text that was taken. -/
theorem denote_transcribes {resolve : Reference → Ambient κ → Parser κ Value}
    (htext : Value.Reading text) (hresolve : ∀ r, (resolve r none).Transcribes text)
    {g : Grammar Regex.Program} (hg : g.Everywhere KeepsText) :
    (g.denote resolve none).Transcribes text := by
  induction hg with
  | @intro g hg _ ih =>
    cases g with
    | terminal t | bare t => exact t.parser_transcribes.map htext.str
    | ref r => exact hresolve r
    | seq ps =>
      rw [denote, denoteAll_eq_map]
      exact .map_list htext (.seq (List.forall_mem_map.mpr ih))
    | choice ps =>
      rw [denote, denoteAll_eq_map]
      exact .choice (List.forall_mem_map.mpr ih)
    | opt p =>
      refine (ih p List.mem_cons_self).opt.map fun found => ?_
      cases found with
      | none => exact htext.null
      | some v => rfl
    | many p => exact .map_list htext (ih p List.mem_cons_self).many
    | many1 p => exact .map_list htext (ih p List.mem_cons_self).many1
    | manyTill item stop =>
      have hitem := ih item List.mem_cons_self
      have hstop := ih stop (by simp [children])
      exact .map_list htext (hitem.manyTill hstop)
    | filter f p => exact (ih p List.mem_cons_self).filter _
    | expect description p => exact (ih p List.mem_cons_self).expect description
    | window n p => exact (ih p List.mem_cons_self).window n
    | _ => exact hg.elim

end Grammar

theorem Rules.resolve_transcribes {rules : Rules} (htext : Value.Reading text)
    (hrules : rules.Everywhere Grammar.KeepsText) (depth : Nat) (r : Reference) :
    (rules.resolve depth r none : Parser κ Value).Transcribes text := by
  induction depth generalizing r with
  | zero => exact nofun
  | succ depth ih =>
    rw [resolve]
    cases hfind : rules.find? r with
    | none => exact .fail
    | some g => exact Grammar.denote_transcribes htext ih (hrules r g hfind)

namespace Grammar

/-- The value and the rest are the whole text. -/
theorem Replies.transcribe {rules : Rules} {g : Grammar Regex.Program} (htext : Value.Reading text)
    (hrules : rules.Everywhere KeepsText) (hg : g.Everywhere KeepsText) {k k' : κ} {s rest : Text}
    {v : Value} (h : g.Replies rules none k s ⟨.success v rest, k'⟩) : text v ++ rest = s := by
  obtain ⟨depth, hr⟩ := h
  exact denote_transcribes htext (Rules.resolve_transcribes htext hrules depth) hg hr

/-- **No character is lost or duplicated.** Where a grammar that keeps its text succeeds, all texts
inside its value, one after the other, are exactly what was consumed. -/
theorem consumed_text_is_kept {rules : Rules} {g : Grammar Regex.Program}
    (hrules : rules.Everywhere KeepsText) (hg : g.Everywhere KeepsText) {l l' : Location}
    {input rest : Text} {v : Value} (h : g.Replies rules none l input ⟨.success v rest, l'⟩) :
    input = v.concat ++ rest ∧ v.concat = v.texts.flatten := by
  have hconcat : v.concat ++ rest = input := h.transcribe Value.reading_concat hrules hg
  have htexts : v.texts.flatten ++ rest = input := h.transcribe Value.reading_texts hrules hg
  exact ⟨hconcat.symm, List.append_cancel_right (hconcat.trans htexts.symm)⟩

/-- Nested groups with a sign in front and a window behind. They are read a second time, after the
first alternative was given up behind them. -/
theorem consumed_text_is_kept_of_groups :
    let group : Grammar Regex.Program :=
      seq [literal ['('], manyTill (choice [ref (.cell "group"), any]) (literal [')'])]
    let rules : Rules := { cells := [("group", group)] }
    let signed := seq [opt (literal ['+']), opt (bare (.literal ['#'])), ref (.cell "group")]
    let g := orChain (seq [signed, literal ['?']])
      [seq [expect ['x'] signed, window 2 (many1 (filter .nonempty any)), many whitespace]]
    let input : Text := ['#', '(', 'a', '(', 'é', ')', ')', '1', '2', '3']
    let found : Value := .list [
      .list [.null, .str ['#'], .list [.str ['('], .list [.str ['a'],
        .list [.str ['('], .list [.str ['é'], .str [')']]], .str [')']]]],
      .list [.str ['1'], .str ['2']], .list [.str []]]
    (rules.Everywhere KeepsText ∧ g.Everywhere KeepsText) ∧
    g.Replies rules none Location.start input ⟨.success found ['3'], ⟨1, 17⟩⟩ ∧
    input = found.concat ++ ['3'] ∧ found.concat = found.texts.flatten := by
  intro group rules signed g input found
  have hgroup : group.Everywhere KeepsText := by
    simp [group, Everywhere.iff_children, children, KeepsText, literal, any]
  have hrules : rules.Everywhere KeepsText := Rules.everywhere_of_cell hgroup
  have hg : g.Everywhere KeepsText := by
    simp [g, signed, orChain, Everywhere.iff_children, children, KeepsText, literal, any, whitespace]
  have hread : g.Replies rules none Location.start input ⟨.success found ['3'], ⟨1, 17⟩⟩ := by
    refine ⟨3, ?_⟩
    simp only [g, signed, rules, group, input, found]
    cbv
  exact ⟨⟨hrules, hg⟩, hread, consumed_text_is_kept hrules hg hread⟩

end Grammar

end Descent
