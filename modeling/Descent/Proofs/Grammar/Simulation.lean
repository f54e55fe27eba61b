import Descent.Proofs.Grammar.Part
import Descent.Proofs.Parser.Simulation
import Descent.Grammar.Semantics

/-!
# Two runs of one grammar

The lemmas on parsers side by side, put together along a grammar: if two clocks are linked, then the
parser of a grammar with one clock is followed by its parser with the other one (`parser_follows`).
The depth to which references may be nested can grow on the way. Only the probes have to be looked
at for each link, since they can ask for the location.

With the link that relates everything to itself this says that more depth never changes an answer
(`parser_mono`). So the answer of a grammar does not depend on the depth, and `Replies` leaves it
out.
-/

namespace Descent

open Descent.Parser

variable {κ κ' : Type} [Clock κ] [Clock κ'] {L : Link κ κ'}

/-! ## Terminals and wrappers -/

theorem Terminal.parser_follows (t : Terminal Regex.Program) :
    L.Follows id t.parser t.parser := by
  intro k k' s r hk hr
  unfold parser at hr ⊢
  cases hn : t.matchLength? s with
  | none =>
    simp only [hn, Option.some.injEq] at hr
    subst hr
    exact ⟨_, rfl, .failure .none hk⟩
  | some n =>
    simp only [hn, Option.some.injEq] at hr
    subst hr
    exact ⟨_, rfl, .success rfl (L.clock_advance _ hk)⟩

/-- Two surroundings treat terminals alike. -/
def Ambient.Follows (L : Link κ κ') (a : Ambient κ) (a' : Ambient κ') : Prop :=
  a.isSome = a'.isSome ∧ ∀ t, L.Follows id (a.apply t) (a'.apply t)

theorem Ambient.Follows.none : Ambient.Follows L none none :=
  ⟨rfl, fun t => t.parser_follows⟩

/-- The values of two runs differ at most in what cannot be seen of locations. -/
abbrev Link.Values (L : Link κ κ') (p : Parser κ Value) (q : Parser κ' Value) : Prop :=
  L.Follows (Value.relocate L.view) p q

/-- A probe finds alike values with both clocks. -/
def Link.Admits (L : Link κ κ') (q : Probe) : Prop :=
  ∀ isWrapped, L.Values (q.parser isWrapped) (q.parser isWrapped)

/-- Clocks that show the same location make no difference to a probe. -/
theorem Link.admits_of_location_eq
    (hL : ∀ {k k'}, L.clock k k' → Clock.location k = Clock.location k') (q : Probe) :
    L.Admits q := by
  intro isWrapped k k' s r hk hr
  cases q with
  | location =>
    cases hr
    exact ⟨_, rfl, .success (by rw [hL hk]) hk⟩
  | wrapped =>
    cases hr
    exact ⟨_, rfl, .success rfl hk⟩
  | advance text =>
    cases hr
    exact ⟨_, rfl, .success rfl (L.clock_advance text hk)⟩
  | columnAtLeast n =>
    simp only [Probe.parser, hL hk] at hr ⊢
    by_cases hcol : n ≤ (Clock.location k').col
    · rw [if_pos hcol] at hr ⊢
      cases hr
      exact ⟨_, rfl, .success rfl hk⟩
    · rw [if_neg hcol] at hr ⊢
      cases hr
      exact ⟨_, rfl, .failure .none hk⟩
  | reject message =>
    cases hr
    exact ⟨_, rfl, .failure (.some (L.message_refl message)) hk⟩
  | rejectPast message =>
    cases hr
    exact ⟨_, rfl, .failure (.some (L.message_refl message)) hk⟩

namespace Grammar

variable {resolve : Reference → Ambient κ → Parser κ Value}
  {resolve' : Reference → Ambient κ' → Parser κ' Value}

theorem denoteWrapper_follows {w : Wrapper (Grammar Regex.Program)}
    (hw : w.Forall fun g => L.Values (g.denote resolve none) (g.denote resolve' none))
    {t : Parser κ Text} {t' : Parser κ' Text} (ht : L.Follows id t t') :
    L.Follows id (denoteWrapper resolve w t) (denoteWrapper resolve' w t') := by
  have hlit : ∀ text, L.Follows id (Terminal.literal text).parser (Terminal.literal text).parser :=
    fun text => Terminal.parser_follows _
  cases w with
  | skip ignored =>
    have hignored : L.Values (ignored.denote resolve none) (ignored.denote resolve' none) := hw
    exact hignored.between hignored ht
  | identity => exact ht
  | upper => exact ht.map fun v v' hv => congrArg (List.map Char.toUpper) hv
  | twice =>
    refine Link.Follows.map (.seq (.cons ht (.cons ht .nil))) fun v v' hv => ?_
    rw [List.map_id, List.map_id] at hv
    rw [hv]
  | expect => exact ht.expect _
  | quote => exact .between (hlit _) (hlit _) ht
  | nonempty => exact ht.filter fun v v' hv => congrArg (fun u : Text => !u.isEmpty) hv
  | orStar => exact .choice (.cons ht (.cons (hlit _) .nil))
  | opt =>
    refine ht.opt.map fun v v' hv => ?_
    rw [Option.map_id] at hv
    exact congrArg (fun u : Option Text => u.getD []) hv
  | many =>
    refine ht.many.map fun v v' hv => ?_
    rw [List.map_id, List.map_id] at hv
    rw [hv]

/-! ## Grammars -/

theorem forall₂_map {α β γ : Type} {R : β → γ → Prop} {f : α → β} {g : α → γ} {xs : List α}
    (h : ∀ x ∈ xs, R (f x) (g x)) : List.Forall₂ R (xs.map f) (xs.map g) := by
  rw [List.forall₂_map_left_iff, List.forall₂_map_right_iff, List.forall₂_same]
  exact h

theorem asList_follows {p : Parser κ Value} {q : Parser κ' Value} (h : L.Values p q) :
    L.Follows (List.map (Value.relocate L.view)) (asList p) (asList q) := by
  refine h.tryMap fun v v' hv => ?_
  rw [← Value.list?_relocate, ← Value.list?_relocate, hv]

theorem asRecord_follows {p : Parser κ Value} {q : Parser κ' Value} (h : L.Values p q) :
    L.Follows (List.map (Value.relocateField L.view)) (asRecord p) (asRecord q) := by
  refine h.tryMap fun v v' hv => ?_
  rw [← Value.record?_relocate, ← Value.record?_relocate, hv]

theorem map_list_follows {p : Parser κ (List Value)} {q : Parser κ' (List Value)}
    (h : L.Follows (List.map (Value.relocate L.view)) p q) :
    L.Values (p.map .list) (q.map .list) := by
  refine h.map fun vs vs' hvs => ?_
  rw [Value.relocate_list, Value.relocate_list, hvs]

theorem map_record_follows {p : Parser κ (Fields Value)} {q : Parser κ' (Fields Value)}
    (h : L.Follows (List.map (Value.relocateField L.view)) p q) :
    L.Values (p.map .record) (q.map .record) := by
  refine h.map fun fs fs' hfs => ?_
  rw [Value.relocate_record, Value.relocate_record, hfs]

/-- The parser of a grammar with one clock is followed by its parser with a linked one, provided
that this is so for references and for the probes in the grammar. -/
theorem denote_follows
    (hresolve : ∀ r a a', Ambient.Follows L a a' → L.Values (resolve r a) (resolve' r a'))
    (g : Grammar Regex.Program) (hg : g.Everywhere (OnProbe L.Admits)) :
    ∀ a a', Ambient.Follows L a a' → L.Values (g.denote resolve a) (g.denote resolve' a') := by
  induction g with
  | terminal t => exact fun a a' ha => (ha.2 t).map fun v v' hv => congrArg Value.str hv
  | bare t => exact fun a a' ha => t.parser_follows.map fun v v' hv => congrArg Value.str hv
  | probe q =>
    intro a a' ha
    rw [denote, denote, ha.1]
    exact hg.here _
  | ref r => exact hresolve r
  | seq ps ih =>
    intro a a' ha
    rw [denote, denote, denoteAll_eq_map, denoteAll_eq_map]
    exact map_list_follows (.seq (forall₂_map fun p hp => ih p hp (hg.child hp) a a' ha))
  | record fields ih =>
    intro a a' ha
    rw [denote, denote, denoteFields_eq_map, denoteFields_eq_map]
    refine map_record_follows (.record (forall₂_map fun f hf => ⟨rfl, ?_⟩))
    exact ih f hf (hg.child (List.mem_map_of_mem hf)) a a' ha
  | between left right inner hleft hright hinner =>
    intro a a' ha
    exact .between (hleft (hg.child (by simp [children])) a a' ha)
      (hright (hg.child (by simp [children])) a a' ha)
      (hinner (hg.child (by simp [children])) a a' ha)
  | choice ps ih =>
    intro a a' ha
    rw [denote, denote, denoteAll_eq_map, denoteAll_eq_map]
    exact .choice (forall₂_map fun p hp => ih p hp (hg.child hp) a a' ha)
  | opt p ih =>
    intro a a' ha
    refine (ih (hg.child List.mem_cons_self) a a' ha).opt.map fun v v' hv => ?_
    rw [Value.ofOption_relocate, Value.ofOption_relocate, hv]
  | many p ih =>
    exact fun a a' ha => map_list_follows (ih (hg.child List.mem_cons_self) a a' ha).many
  | many1 p ih =>
    exact fun a a' ha => map_list_follows (ih (hg.child List.mem_cons_self) a a' ha).many1
  | sepBy item separator hitem hseparator =>
    intro a a' ha
    exact map_list_follows ((hitem (hg.child (by simp [children])) a a' ha).sepBy
      (hseparator (hg.child (by simp [children])) a a' ha))
  | manyTill item stop hitem hstop =>
    intro a a' ha
    exact map_list_follows ((hitem (hg.child (by simp [children])) a a' ha).manyTill
      (hstop (hg.child (by simp [children])) a a' ha))
  | terminals w p hw ih =>
    intro a a' ha
    refine ih (hg.child List.mem_cons_self) _ _ ⟨rfl, fun t => ?_⟩
    refine denoteWrapper_follows ?_ t.parser_follows
    have hparts := hg.wrapper
    cases w with
    | skip ignored => exact hw hparts none none .none
    | _ => trivial
  | map f p ih =>
    intro a a' ha
    refine Link.Follows.map (ih (hg.child List.mem_cons_self) a a' ha) fun v v' hv => ?_
    rw [Transform.apply_relocate, Transform.apply_relocate, hv]
  | tryMap f p ih =>
    intro a a' ha
    refine (ih (hg.child List.mem_cons_self) a a' ha).tryMap fun v v' hv => ?_
    rw [Extraction.apply_relocate, Extraction.apply_relocate, hv]
  | filter f p ih =>
    intro a a' ha
    refine (ih (hg.child List.mem_cons_self) a a' ha).filter fun v v' hv => ?_
    rw [← Condition.holds_relocate L.view f v, hv, Condition.holds_relocate]
  | replace value p ih =>
    exact fun a a' ha => Link.Follows.map (ih (hg.child List.mem_cons_self) a a' ha)
      fun _ _ _ => rfl
  | nth n p ih =>
    intro a a' ha
    refine (asList_follows (ih (hg.child List.mem_cons_self) a a' ha)).tryMap fun vs vs' hvs => ?_
    rw [← List.getElem?_map, ← List.getElem?_map, hvs]
  | select indices p ih =>
    intro a a' ha
    refine map_list_follows ?_
    refine (asList_follows (ih (hg.child List.mem_cons_self) a a' ha)).tryMap fun vs vs' hvs => ?_
    rw [mapM_getElem?_map, mapM_getElem?_map, hvs]
  | slice part p ih =>
    intro a a' ha
    refine map_list_follows ?_
    refine (asList_follows (ih (hg.child List.mem_cons_self) a a' ha)).map fun vs vs' hvs => ?_
    rw [← Slice.apply_map, ← Slice.apply_map, hvs]
  | put key value p ih =>
    intro a a' ha
    refine map_record_follows ?_
    refine (asRecord_follows (ih (hg.child List.mem_cons_self) a a' ha)).map fun fs fs' hfs => ?_
    rw [Value.put_relocateField, Value.put_relocateField, hfs]
  | expect description p ih =>
    exact fun a a' ha => (ih (hg.child List.mem_cons_self) a a' ha).expect _
  | span p ih =>
    intro a a' ha
    refine (ih (hg.child List.mem_cons_self) a a' ha).span.map fun v v' hv => ?_
    simp only [Prod.mk.injEq] at hv
    obtain ⟨hvalue, hstart, hstop, htext⟩ := hv
    simp only [Value.ofSpanned, Value.relocate_spanned, hvalue, hstart, hstop, htext]
  | window n p ih => exact fun a a' ha => (ih (hg.child List.mem_cons_self) a a' ha).window n

end Grammar

/-! ## References -/

/-- A reference that may be nested more deeply follows one that may be nested less deeply. -/
theorem Rules.resolve_follows {rules : Rules}
    (hrules : rules.Everywhere (Grammar.OnProbe L.Admits)) {depth depth' : Nat}
    (hdepth : depth ≤ depth') :
    ∀ r a a', Ambient.Follows L a a' →
      L.Values (rules.resolve depth r a) (rules.resolve depth' r a') := by
  induction depth generalizing depth' with
  | zero => exact fun r a a' ha k k' s r' hk hr => nomatch hr
  | succ depth ih =>
    intro r a a' ha
    obtain ⟨depth', rfl⟩ : ∃ n, depth' = n + 1 := ⟨depth' - 1, by omega⟩
    rw [resolve, resolve]
    cases hfind : rules.find? r with
    | none => exact .fail
    | some g => exact g.denote_follows (ih (by omega)) (hrules r g hfind) a a' ha

/-- A wrapper that is there from the start is one that is installed around everything. -/
theorem Grammar.parser_under (rules : Rules) (depth : Nat) (w : Option (Wrapper (Grammar Regex.Program)))
    (g : Grammar Regex.Program) :
    ((g.under w).parser rules depth none : Parser κ Value) = g.parser rules depth w := by
  cases w <;> rfl

/-- The second run may go deeper than the first one. -/
theorem Grammar.parser_follows {rules : Rules} {w : Option (Wrapper (Grammar Regex.Program))}
    {g : Grammar Regex.Program} (hrules : rules.Everywhere (OnProbe L.Admits))
    (hg : (g.under w).Everywhere (OnProbe L.Admits)) {depth depth' : Nat}
    (hdepth : depth ≤ depth') :
    L.Values (g.parser rules depth w) (g.parser rules depth' w) := by
  have hresolve := Rules.resolve_follows hrules hdepth
  rw [← parser_under rules depth w g, ← parser_under rules depth' w g]
  exact (g.under w).denote_follows hresolve hg none none .none

/-! ## More depth -/

/-- Everything is linked to itself. -/
def Link.exact (κ : Type) [Clock κ] : Link κ κ where
  clock k k' := k = k'
  message m m' := m = m'
  view := id
  clock_advance _ hk := by rw [hk]
  view_location hk := by rw [hk]
  message_refl _ := rfl
  message_expectation _ _ hk := by rw [hk]

/-- A run that follows with the same clock gives the same answer. -/
theorem Link.Values.eq_of_exact {p q : Parser κ Value} (h : (Link.exact κ).Values p q) {k : κ}
    {s : Text} {r : Reply κ Value} (hr : p k s = some r) : q k s = some r := by
  obtain ⟨r', hr', hal⟩ := h rfl hr
  have houtcome : r.outcome = r'.outcome :=
    hal.outcome_eq (fun _ _ => Value.eq_of_relocate_id) fun _ _ hm => hm
  have hclock : r.clock = r'.clock := hal.clock
  rw [hr', show r = r' by cases r; cases r'; cases houtcome; cases hclock; rfl]

theorem Link.exact_admits (q : Probe) : (Link.exact κ).Admits q :=
  Link.admits_of_location_eq (fun hk => congrArg Clock.location hk) q

theorem Grammar.everywhere_admits (hL : ∀ q, L.Admits q) (g : Grammar Regex.Program) :
    g.Everywhere (OnProbe L.Admits) := by
  refine .of_forall (fun g => ?_) g
  cases g with
  | probe q => exact hL q
  | _ => trivial

/-- More depth never changes an answer. -/
theorem Grammar.parser_mono {rules : Rules} {w : Option (Wrapper (Grammar Regex.Program))}
    {g : Grammar Regex.Program} {depth depth' : Nat} (hdepth : depth ≤ depth') {k : κ} {s : Text}
    {r : Reply κ Value} (h : g.parser rules depth w k s = some r) :
    g.parser rules depth' w k s = some r := by
  refine Link.Values.eq_of_exact (parser_follows ?_ ?_ hdepth) h
  · exact fun r g hfind => everywhere_admits Link.exact_admits g
  · exact everywhere_admits Link.exact_admits _

/-- `g` answers `r`, for some depth. -/
def Grammar.Replies (rules : Rules) (w : Option (Wrapper (Grammar Regex.Program)))
    (g : Grammar Regex.Program) (k : κ) (s : Text) (r : Reply κ Value) : Prop :=
  ∃ depth, g.parser rules depth w k s = some r

theorem Grammar.Replies.follow {rules : Rules} {w : Option (Wrapper (Grammar Regex.Program))}
    {g : Grammar Regex.Program} (hrules : rules.Everywhere (OnProbe L.Admits))
    (hg : (g.under w).Everywhere (OnProbe L.Admits)) {k : κ} {k' : κ'} (hk : L.clock k k')
    {s : Text} {r : Reply κ Value} (h : g.Replies rules w k s r) :
    ∃ r', g.Replies rules w k' s r' ∧ L.Alike (Value.relocate L.view) r r' := by
  obtain ⟨depth, hr⟩ := h
  obtain ⟨r', hr', hal⟩ := parser_follows hrules hg (Nat.le_refl depth) hk hr
  exact ⟨r', ⟨depth, hr'⟩, hal⟩

/-- The depth at which an answer is found makes no difference to it. -/
theorem Grammar.Replies.unique {rules : Rules} {w : Option (Wrapper (Grammar Regex.Program))}
    {g : Grammar Regex.Program} {k : κ} {s : Text} {r r' : Reply κ Value}
    (h : g.Replies rules w k s r) (h' : g.Replies rules w k s r') : r = r' := by
  obtain ⟨depth, hr⟩ := h
  obtain ⟨depth', hr'⟩ := h'
  have h₁ := parser_mono (Nat.le_max_left depth depth') hr
  have h₂ := parser_mono (Nat.le_max_right depth depth') hr'
  exact Option.some.inj (h₁.symm.trans h₂)

theorem Grammar.Replies.iff_eq {rules : Rules} {w : Option (Wrapper (Grammar Regex.Program))}
    {g : Grammar Regex.Program} {k : κ} {s : Text} {r r' : Reply κ Value}
    (h : g.Replies rules w k s r) : g.Replies rules w k s r' ↔ r' = r :=
  ⟨fun h' => h'.unique h, fun heq => heq ▸ h⟩

end Descent
