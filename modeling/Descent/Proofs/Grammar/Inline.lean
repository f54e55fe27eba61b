import Descent.Proofs.Grammar.Unrolling
import Descent.Proofs.Parser.Naturality

/-!
# Grammars without wrappers

A wrapper says how the terminals below it are matched. It is not needed: a terminal can be replaced
by the grammar that matches it as the wrapper says, and the wrapper dropped. The grammar inside a
wrapper is not under any influence, so its own terminals stay as they are, and a wrapper further
inside replaces one further outside.

* `Wrapper.around`: a terminal with a wrapper, as a grammar.
* `Grammar.inline`: the grammar with all wrappers written out.
* `denote_inlineUnder`: writing them out changes nothing.
* `terminals_can_be_inlined`: the same for parsers under rules, with references unrolled.
-/

namespace Descent

variable {ρ : Type}

/-- The grammar that matches `t` as `w` says. -/
def Wrapper.around (t : Terminal ρ) : Wrapper (Grammar ρ) → Grammar ρ
  | .skip ignored => .skipAround ignored (.terminal t)
  | .identity => .terminal t
  | .upper => .map .upper (.terminal t)
  | .twice => .map .concat (.seq [.terminal t, .terminal t])
  | .expect => .expect "token".toList (.terminal t)
  | .quote => .quoted (.literal ['\'']) (.terminal t)
  | .nonempty => .filter .nonempty (.terminal t)
  | .orStar => .choice [.terminal t, .literal ['*']]
  | .opt => .map .concat (.opt (.terminal t))
  | .many => .map .concat (.many (.terminal t))

/-- A terminal that stands under a wrapper, if there is one. -/
def Terminal.inline (w : Option (Wrapper (Grammar ρ))) (t : Terminal ρ) : Grammar ρ :=
  match w with
  | none => .terminal t
  | some w => w.around t

/-- Whether terminals are wrapped is known in advance. -/
def Probe.inline (isWrapped : Bool) : Probe → Grammar ρ
  | .wrapped => .replace (.bool isWrapped) (.seq [])
  | q => .probe q

namespace Grammar

/-- The grammar installs a wrapper. -/
def IsTerminals : Grammar ρ → Prop
  | terminals _ _ => True
  | _ => False

/-- Nothing in the grammar installs a wrapper. -/
abbrev Unwrapped (g : Grammar ρ) : Prop :=
  g.Everywhere (¬ ·.IsTerminals)

/-- No reference stands under a wrapper; `isWrapped` says whether the grammar itself does. -/
inductive RefsUnwrapped : Bool → Grammar ρ → Prop
  | ref {r : Reference} : RefsUnwrapped false (ref r)
  | terminals {isWrapped : Bool} {w : Wrapper (Grammar ρ)} {p : Grammar ρ} :
      (∀ q ∈ w.grammars, RefsUnwrapped false q) → RefsUnwrapped true p →
      RefsUnwrapped isWrapped (terminals w p)
  | node {isWrapped : Bool} {g : Grammar ρ} : ¬ g.IsRef → ¬ g.IsTerminals →
      (∀ q ∈ g.children, RefsUnwrapped isWrapped q) → RefsUnwrapped isWrapped g

theorem RefsUnwrapped.child {isWrapped : Bool} {g q : Grammar ρ} (h : g.RefsUnwrapped isWrapped)
    (hg : ¬ g.IsTerminals) (hq : q ∈ g.children) : q.RefsUnwrapped isWrapped := by
  cases h with
  | ref => exact nomatch hq
  | terminals _ _ => exact absurd trivial hg
  | node _ _ hchildren => exact hchildren q hq

/-- Under a wrapper, references are wrapped; inside its own grammars they are not. -/
theorem RefsUnwrapped.of_terminals {isWrapped : Bool} {w : Wrapper (Grammar ρ)} {p : Grammar ρ}
    (h : (Grammar.terminals w p).RefsUnwrapped isWrapped) :
    (∀ q ∈ w.grammars, q.RefsUnwrapped false) ∧ p.RefsUnwrapped true := by
  cases h with
  | terminals hinside hbelow => exact ⟨hinside, hbelow⟩
  | node _ hterminals _ => exact absurd trivial hterminals

/-- Where there are no references, none stands under a wrapper. -/
theorem Everywhere.refsUnwrapped {g : Grammar ρ} (hg : g.Closed) (isWrapped : Bool) :
    g.RefsUnwrapped isWrapped := by
  induction hg generalizing isWrapped with
  | @intro g hg _ ih =>
    cases g with
    | terminals w p =>
      exact .terminals (fun q hq => ih q (List.mem_cons_of_mem p hq) false)
        (ih p List.mem_cons_self true)
    | _ => exact .node hg id fun q hq => ih q hq isWrapped

mutual
/-- Writes out the wrappers of a grammar that stands under the wrapper `w`, which is written out
itself. -/
def inlineUnder : Option (Wrapper (Grammar ρ)) → Grammar ρ → Grammar ρ
  | w, terminal t => t.inline w
  | _, bare t => bare t
  | w, probe q => q.inline w.isSome
  | _, ref r => ref r
  | w, seq ps => seq (inlineAll w ps)
  | w, record fields => record (inlineFields w fields)
  | w, between left right inner =>
    between (left.inlineUnder w) (right.inlineUnder w) (inner.inlineUnder w)
  | w, choice ps => choice (inlineAll w ps)
  | w, opt p => opt (p.inlineUnder w)
  | w, many p => many (p.inlineUnder w)
  | w, many1 p => many1 (p.inlineUnder w)
  | w, sepBy item separator => sepBy (item.inlineUnder w) (separator.inlineUnder w)
  | w, manyTill item stop => manyTill (item.inlineUnder w) (stop.inlineUnder w)
  | _, terminals w p => p.inlineUnder (some (inlineWrapper w))
  | w, map f p => map f (p.inlineUnder w)
  | w, tryMap f p => tryMap f (p.inlineUnder w)
  | w, filter f p => filter f (p.inlineUnder w)
  | w, replace value p => replace value (p.inlineUnder w)
  | w, nth n p => nth n (p.inlineUnder w)
  | w, select indices p => select indices (p.inlineUnder w)
  | w, slice part p => slice part (p.inlineUnder w)
  | w, put key value p => put key value (p.inlineUnder w)
  | w, expect description p => expect description (p.inlineUnder w)
  | w, span p => span (p.inlineUnder w)
  | w, window n p => window n (p.inlineUnder w)

/-- Writes out the wrappers of several grammars. -/
def inlineAll : Option (Wrapper (Grammar ρ)) → List (Grammar ρ) → List (Grammar ρ)
  | _, [] => []
  | w, p :: ps => p.inlineUnder w :: inlineAll w ps

/-- Writes out the wrappers of the fields of a record. -/
def inlineFields :
    Option (Wrapper (Grammar ρ)) → List (Field (Grammar ρ)) → List (Field (Grammar ρ))
  | _, [] => []
  | w, f :: fields => inlineField w f :: inlineFields w fields

/-- Writes out the wrappers of a field. -/
def inlineField : Option (Wrapper (Grammar ρ)) → Field (Grammar ρ) → Field (Grammar ρ)
  | w, ⟨key, part⟩ => ⟨key, part.inlineUnder w⟩

/-- Writes out the wrappers inside a wrapper, where nothing is wrapped to begin with. -/
def inlineWrapper : Wrapper (Grammar ρ) → Wrapper (Grammar ρ)
  | .skip g => .skip (g.inlineUnder none)
  | .identity => .identity
  | .upper => .upper
  | .twice => .twice
  | .expect => .expect
  | .quote => .quote
  | .nonempty => .nonempty
  | .orStar => .orStar
  | .opt => .opt
  | .many => .many
end

/-- The grammar `g` under the wrapper `w`, with all wrappers written out. -/
def inline (w : Option (Wrapper (Grammar ρ))) (g : Grammar ρ) : Grammar ρ :=
  g.inlineUnder (w.map inlineWrapper)

theorem inlineAll_eq_map (w : Option (Wrapper (Grammar ρ))) (ps : List (Grammar ρ)) :
    inlineAll w ps = ps.map (inlineUnder w) := by
  induction ps with
  | nil => rfl
  | cons p ps ih => rw [inlineAll, ih, List.map_cons]

theorem inlineFields_eq_map (w : Option (Wrapper (Grammar ρ)))
    (fields : List (Field (Grammar ρ))) :
    inlineFields w fields = fields.map fun f => ⟨f.key, f.part.inlineUnder w⟩ := by
  induction fields with
  | nil => rfl
  | cons f fields ih => rw [inlineFields, ih, List.map_cons, inlineField]

/-! ## No wrapper is left -/

theorem unwrapped_around {w : Wrapper (Grammar ρ)} (hw : w.Forall Unwrapped) (t : Terminal ρ) :
    (w.around t).Unwrapped := by
  have hterminal : ∀ t : Terminal ρ, (terminal t).Unwrapped := fun t => .intro id nofun
  cases w with
  | skip ignored =>
    have hignored : ignored.Unwrapped := hw
    exact .intro id (by simp [Wrapper.around, skipAround, children, hignored, hterminal])
  | identity => exact hterminal t
  | upper | expect | nonempty =>
    exact .intro id (List.forall_mem_singleton.mpr (hterminal t))
  | opt | many =>
    refine .intro id (List.forall_mem_singleton.mpr ?_)
    exact .intro id (List.forall_mem_singleton.mpr (hterminal t))
  | twice =>
    refine .intro id (List.forall_mem_singleton.mpr ?_)
    exact .intro id (by simp [children, hterminal])
  | quote => exact .intro id (by simp [Wrapper.around, quoted, literal, children, hterminal])
  | orStar => exact .intro id (by simp [Wrapper.around, literal, children, hterminal])

/-- No wrapper is left, if there was none inside the wrapper that was put in place. -/
theorem unwrapped_inlineUnder (g : Grammar ρ) {w : Option (Wrapper (Grammar ρ))}
    (hw : ∀ v ∈ w, v.Forall Unwrapped) : (g.inlineUnder w).Unwrapped := by
  induction g generalizing w with
  | terminal t =>
    cases w with
    | none => exact .intro id nofun
    | some w => exact unwrapped_around (hw w rfl) t
  | bare | ref => exact .intro id nofun
  | probe q =>
    cases q with
    | wrapped =>
      refine .intro id (List.forall_mem_singleton.mpr ?_)
      exact .intro id nofun
    | _ => exact .intro id (List.forall_mem_nil _)
  | seq ps ih | choice ps ih =>
    refine .intro id fun q hq => ?_
    rw [inlineUnder, children, inlineAll_eq_map, List.mem_map] at hq
    obtain ⟨p, hp, rfl⟩ := hq
    exact ih p hp hw
  | record fields ih =>
    refine .intro id fun q hq => ?_
    rw [inlineUnder, children, inlineFields_eq_map, List.map_map, List.mem_map] at hq
    obtain ⟨f, hf, rfl⟩ := hq
    exact ih f hf hw
  | between left right inner h₁ h₂ h₃ =>
    exact .intro id (by simp [inlineUnder, children, h₁ hw, h₂ hw, h₃ hw])
  | sepBy p q h₁ h₂ | manyTill p q h₁ h₂ =>
    exact .intro id (by simp [inlineUnder, children, h₁ hw, h₂ hw])
  | terminals v p hv ih =>
    refine ih fun u hu => ?_
    cases hu
    cases v with
    | skip ignored => exact hv fun u hu => by cases hu
    | _ => trivial
  | opt _ ih | many _ ih | many1 _ ih | map _ _ ih | tryMap _ _ ih | filter _ _ ih
  | replace _ _ ih | nth _ _ ih | select _ _ ih | slice _ _ ih | put _ _ _ ih | expect _ _ ih
  | span _ ih | window _ _ ih => exact .intro id (List.forall_mem_singleton.mpr (ih hw))

theorem unwrapped_inline (w : Option (Wrapper (Grammar ρ))) (g : Grammar ρ) :
    (g.inline w).Unwrapped := by
  refine unwrapped_inlineUnder g fun v hv => ?_
  obtain ⟨u, -, rfl⟩ := Option.map_eq_some_iff.mp hv
  cases u with
  | skip ignored => exact unwrapped_inlineUnder ignored nofun
  | _ => trivial

/-! ## Nothing has changed -/

theorem concatAll_map_str (texts : List Text) :
    Value.concatAll (texts.map .str) = texts.flatten := by
  induction texts with
  | nil => rfl
  | cons text texts ih =>
    rw [List.map_cons, Value.concatAll, ih, List.flatten_cons]
    rfl

/-- A wrapper joins texts where the grammar joins the values that hold them. -/
theorem map_concat_list {κ : Type} (p : Parser κ (List Text)) :
    Parser.map Transform.concat.apply (.map .list (.map (List.map .str) p)) =
      .map .str (.map List.flatten p) := by
  rw [Parser.map_map, Parser.map_map, Parser.map_map]
  congr 1
  funext texts
  exact congrArg Value.str (concatAll_map_str texts)

section Denote

variable {κ : Type} [Clock κ] {resolve : Reference → Ambient κ → Parser κ Value}

/-- A wrapper written out around a terminal is the wrapper of that terminal. -/
theorem denote_around (w : Wrapper (Grammar Regex.Program)) (t : Terminal Regex.Program) :
    (w.around t).denote resolve none = .map .str (denoteWrapper resolve w t.parser) := by
  have hterminal : ∀ t : Terminal Regex.Program,
      (terminal t).denote resolve none = .map .str t.parser := fun t => rfl
  cases w with
  | skip ignored => exact (Parser.map_between _ _ _ _).symm
  | identity => rfl
  | upper =>
    rw [denoteWrapper, Wrapper.around, denote, hterminal, Parser.map_map, Parser.map_map]
    rfl
  | twice =>
    rw [denoteWrapper, ← map_concat_list, Parser.map_seq]
    rfl
  | expect => exact (Parser.map_expect _ _ _).symm
  | quote =>
    rw [denoteWrapper, Parser.map_between]
    exact Parser.between_map _ _ _ _ _
  | nonempty => exact (Parser.map_filter Value.str Condition.nonempty.holds t.parser).symm
  | orStar =>
    rw [denoteWrapper, Parser.map_choice]
    rfl
  | opt =>
    rw [denoteWrapper, Wrapper.around, denote, denote, hterminal, ← Parser.map_opt,
      Parser.map_map, Parser.map_map, Parser.map_map]
    congr 1
    funext text
    cases text <;> rfl
  | many =>
    rw [denoteWrapper, ← map_concat_list, Parser.map_many]
    rfl

/-- Wrappers may be put in place inside the grammars of a wrapper, too. -/
theorem denoteWrapper_inlineWrapper {w : Wrapper (Grammar Regex.Program)}
    (hw : w.Forall fun g => (g.inlineUnder none).denote resolve none = g.denote resolve none) :
    denoteWrapper resolve (inlineWrapper w) = denoteWrapper resolve w := by
  cases w with
  | skip ignored =>
    have hignored : (ignored.inlineUnder none).denote resolve none =
      ignored.denote resolve none := hw
    funext t
    rw [inlineWrapper, denoteWrapper, denoteWrapper, hignored]
  | _ => rfl

/-- Writing out wrappers does not change the parser, as long as no reference stands under one: what
a reference leads to would be under the influence of the wrapper too. -/
theorem denote_inlineUnder {g : Grammar Regex.Program}
    {w : Option (Wrapper (Grammar Regex.Program))} (hg : g.RefsUnwrapped w.isSome) :
    (g.inlineUnder w).denote resolve none = g.denote resolve (w.map (denoteWrapper resolve)) := by
  induction g generalizing w with
  | terminal t =>
    cases w with
    | none => rfl
    | some w => exact denote_around w t
  | bare => rfl
  | probe q =>
    cases q with
    | wrapped => cases w <;> rfl
    | _ => rfl
  | ref r =>
    cases w with
    | none => rfl
    | some w =>
      cases hg with
      | node href _ _ => exact absurd trivial href
  | seq ps ih | choice ps ih =>
    have hps := List.map_congr_left fun p hp => ih p hp (hg.child id hp)
    rw [inlineUnder, denote, denote, denoteAll_eq_map, denoteAll_eq_map, inlineAll_eq_map,
      List.map_map, ← hps]
    rfl
  | record fields ih =>
    have hfields := List.map_congr_left fun f hf =>
      congrArg (Prod.mk (Field.key f)) (ih f hf (hg.child id (List.mem_map_of_mem hf)))
    rw [inlineUnder, denote, denote, denoteFields_eq_map, denoteFields_eq_map,
      inlineFields_eq_map, List.map_map, ← hfields]
    rfl
  | between left right inner h₁ h₂ h₃ =>
    rw [inlineUnder, denote, denote, h₁ (hg.child id (by simp [children])),
      h₂ (hg.child id (by simp [children])), h₃ (hg.child id (by simp [children]))]
  | sepBy p q h₁ h₂ | manyTill p q h₁ h₂ =>
    rw [inlineUnder, denote, denote, h₁ (hg.child id (by simp [children])),
      h₂ (hg.child id (by simp [children]))]
  | terminals v p hv ih =>
    obtain ⟨hinside, hbelow⟩ := hg.of_terminals
    have hwrapper : denoteWrapper resolve (inlineWrapper v) = denoteWrapper resolve v := by
      refine denoteWrapper_inlineWrapper ?_
      cases v with
      | skip ignored => exact hv (hinside ignored List.mem_cons_self)
      | _ => trivial
    have hp := @ih (some (inlineWrapper v)) hbelow
    rw [inlineUnder, denote, hp, Option.map_some, hwrapper]
  | opt _ ih | many _ ih | many1 _ ih | map _ _ ih | tryMap _ _ ih | filter _ _ ih
  | replace _ _ ih | nth _ _ ih | select _ _ ih | slice _ _ ih | put _ _ _ ih | expect _ _ ih
  | span _ ih | window _ _ ih =>
    rw [inlineUnder, denote, denote, ih (hg.child id List.mem_cons_self)]

/-- With every wrapper in place none has to be installed. -/
theorem parser_inline {rules : Rules} {w : Option (Wrapper (Grammar Regex.Program))}
    {g : Grammar Regex.Program} (hg : (g.under w).RefsUnwrapped false) (depth : Nat) :
    ((g.inline w).parser rules depth none : Parser κ Value) = g.parser rules depth w := by
  have hinline : g.inline w = (g.under w).inlineUnder none := by
    cases w <;> rfl
  rw [hinline, ← parser_under rules depth w g]
  exact denote_inlineUnder hg

/-! ## With references -/

/-- The grammar `g` under the wrapper `w`, with references unrolled `n` times and all wrappers
written out. -/
def expand (rules : Rules) (n : Nat) (w : Option (Wrapper (Grammar Regex.Program)))
    (g : Grammar Regex.Program) : Grammar Regex.Program :=
  (g.subst (rules.unroll n)).inline (w.map (substWrapper (rules.unroll n)))

theorem subst_under (σ : Reference → Grammar Regex.Program)
    (w : Option (Wrapper (Grammar Regex.Program))) (g : Grammar Regex.Program) :
    (g.under w).subst σ = (g.subst σ).under (w.map (substWrapper σ)) := by
  cases w <;> rfl

/-- What is answered within depth `n` is answered by the expanded grammar, without rules. -/
theorem parser_expand {rules : Rules} {w : Option (Wrapper (Grammar Regex.Program))}
    {g : Grammar Regex.Program} {n : Nat} {k : κ} {s : Text} {r : Reply κ Value}
    (h : g.parser rules n w k s = some r) : (g.expand rules n w).parser {} 0 none k s = some r := by
  have hclosed := closed_subst (rules.closed_unroll n) (g.under w)
  rw [← parser_under] at h
  have hunroll := denote_unroll_of_answer (Rules.resolve {} 0) h
  rw [subst_under] at hclosed hunroll
  rw [expand, parser_inline (hclosed.refsUnwrapped false), ← parser_under]
  exact hunroll

/-- Wrappers can be written out. The result installs no wrapper, and its parser is that of the grammar
under the wrapper, provided that no reference stands under a wrapper, in particular where there are
none at all. With any references, every answer of the grammar is given by what is left when they
are unrolled often enough and the wrappers are written out; this takes neither rules nor depth. -/
theorem terminals_can_be_inlined (rules : Rules) (w : Option (Wrapper (Grammar Regex.Program)))
    (g : Grammar Regex.Program) :
    (g.inline w).Unwrapped ∧
    ((g.under w).RefsUnwrapped false → ∀ depth,
      ((g.inline w).parser rules depth none : Parser κ Value) = g.parser rules depth w) ∧
    ∀ (k : κ) s r, g.Replies rules w k s r → ∃ n, ∀ m, n ≤ m →
      (g.expand rules m w).Unwrapped ∧ (g.expand rules m w).parser {} 0 none k s = some r := by
  refine ⟨unwrapped_inline w g, parser_inline, ?_⟩
  rintro k s r ⟨n, hr⟩
  refine ⟨n, fun m hm => ⟨unwrapped_inline _ _, ?_⟩⟩
  exact parser_expand (parser_mono hm hr)

/-- Spaces are skipped, but not around a letter that is under a wrapper of its own; and a list in
which such items are separated by commas refers to itself. -/
theorem terminals_can_be_inlined_of_nested :
    let g : Grammar Regex.Program :=
      choice [seq [integer, terminals .upper (literal ['x']), probe .wrapped], literal ['y']]
    let list : Grammar Regex.Program :=
      choice [seq [g, literal [','], ref (.cell "list")], g]
    let rules : Rules := ⟨[("list", list)], []⟩
    let w : Wrapper (Grammar Regex.Program) := .skip (opt (literal [' ']))
    let input : Text := ['7', ' ', 'x', ' ', ',', 'y']
    let reply : Reply Location Value := ⟨.success (.list
      [.list [.int 7, .str ['X'], .bool true], .str [','], .str ['y']]) [], ⟨1, 8⟩⟩
    ((g.inline (some w)).parser rules 0 none : Parser Location Value) =
      g.parser rules 0 (some w) ∧
    list.Replies rules (some w) Location.start input reply ∧
    ∃ n, ∀ m, n ≤ m → (list.expand rules m (some w)).parser {} 0 none Location.start input =
      some reply := by
  intro g list rules w input reply
  have hclosed : (g.under (some w)).Closed := by
    simp [g, w, Closed, under, Everywhere.iff_children, children, Wrapper.grammars, IsRef,
      literal, integer]
  have hreply : list.Replies rules (some w) Location.start input reply := ⟨2, by rfl⟩
  obtain ⟨n, hn⟩ := (terminals_can_be_inlined rules (some w) list).2.2 _ _ _ hreply
  refine ⟨?_, hreply, n, fun m hm => (hn m hm).2⟩
  exact (terminals_can_be_inlined rules (some w) g).2.1 (hclosed.refsUnwrapped false) 0

end Denote

end Grammar

end Descent
