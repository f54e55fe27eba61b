import Descent.Proofs.Grammar.Reference
import Mathlib.Data.List.Nodup
import Mathlib.Data.List.Perm.Basic

/-!
# Definitions that build

Rules come from definitions as they are written down. They can be built if and only if no name is defined
twice and every body can be built, and then cells hold the bodies in the order of the definitions. The
order does not matter to what is found under a name. To exchange references does not get in the way: a
grammar in which references were replaced by what can be built can be built itself, and what comes out is
what was built before, with references replaced.

* `Rules.ofDefinitions_eq_ok_iff`: the definitions that can be built, and the rules they give.
* `Grammar.build_subst`: to replace references before or after building.
* `Grammar.StandsFor.build`, `Grammar.UnfoldsWithin.build`: building what references were exchanged in.
* `Rules.Exchanged.build`: the rules of definitions with references exchanged.
-/

namespace Descent

/-! ## Fields with distinct keys -/

namespace Fields

variable {α : Type}

/-- Where no name comes up twice, the first entry of a name is the only one. -/
theorem find?_eq_some_iff {fields : Fields α} (hnodup : (fields.map Prod.fst).Nodup) {key : String}
    {value : α} : fields.find? key = some value ↔ (key, value) ∈ fields := by
  induction fields with
  | nil => simp [find?]
  | cons f fields ih =>
    obtain ⟨k, v⟩ := f
    rw [List.map_cons, List.nodup_cons] at hnodup
    rw [find?, List.mem_cons, Prod.mk.injEq]
    by_cases hk : k = key
    · subst hk
      have hfresh : (k, value) ∉ fields := fun hmem =>
        hnodup.1 (List.mem_map.mpr ⟨_, hmem, rfl⟩)
      rw [if_pos rfl, Option.some.injEq]
      constructor
      · exact fun h => .inl ⟨rfl, h.symm⟩
      · rintro (⟨-, h⟩ | h)
        · exact h.symm
        · exact absurd h hfresh
    · rw [if_neg hk, ih hnodup.2]
      constructor
      · exact .inr
      · rintro (⟨h, -⟩ | h)
        · exact absurd h.symm hk
        · exact h

theorem find?_eq_none_iff {fields : Fields α} {key : String} :
    fields.find? key = none ↔ key ∉ fields.map Prod.fst := by
  induction fields with
  | nil => simp [find?]
  | cons f fields ih =>
    obtain ⟨k, v⟩ := f
    rw [find?, List.map_cons, List.mem_cons]
    by_cases hk : k = key
    · simp [hk]
    · rw [if_neg hk, ih]
      simp [Ne.symm hk]

/-- A new name is put at the end. -/
theorem insert_of_not_mem {fields : Fields α} {key : String} (h : key ∉ fields.map Prod.fst) (value : α) :
    fields.insert key value = fields ++ [(key, value)] := by
  induction fields with
  | nil => rfl
  | cons f fields ih =>
    obtain ⟨k, v⟩ := f
    rw [List.map_cons, List.mem_cons, not_or] at h
    rw [insert, if_neg (Ne.symm h.1), ih h.2, List.cons_append]

/-- The order of fields does not matter to what is found. -/
theorem find?_of_perm {fields fields' : Fields α} (h : fields.Perm fields')
    (hnodup : (fields.map Prod.fst).Nodup) (key : String) :
    fields'.find? key = fields.find? key := by
  have hnodup' : (fields'.map Prod.fst).Nodup := (h.map Prod.fst).nodup_iff.mp hnodup
  refine Option.ext fun value => ?_
  rw [find?_eq_some_iff hnodup', find?_eq_some_iff hnodup, h.mem_iff]

theorem map_fst_of_forall₂ {β : Type} {R : String × α → String × β → Prop} {fields : Fields α}
    {fields' : Fields β} (h : List.Forall₂ (fun f f' => f.1 = f'.1 ∧ R f f') fields fields') :
    fields'.map Prod.fst = fields.map Prod.fst := by
  induction h with
  | nil => rfl
  | cons hf _ ih => rw [List.map_cons, List.map_cons, ih, hf.1]

end Fields

/-! ## Rules from definitions -/

theorem bind_eq_ok_iff {ε α β : Type} {x : Except ε α} {f : α → Except ε β} {b : β} :
    x >>= f = .ok b ↔ ∃ a, x = .ok a ∧ f a = .ok b := by
  cases x with
  | error e => exact ⟨nofun, fun ⟨_, h, _⟩ => nomatch h⟩
  | ok a => exact ⟨fun h => ⟨a, rfl, h⟩, fun ⟨_, ha, h⟩ => by cases ha; exact h⟩

namespace Rules

/-- The fields hold what is built from the definitions, in this order. -/
abbrev Built (defs : List (String × Grammar PatternSource)) (cells : Fields (Grammar Regex.Program)) :
    Prop :=
  List.Forall₂ (fun d c => d.1 = c.1 ∧ d.2.build = .ok c.2) defs cells

/-- A definition is stored exactly if its name is free and its grammar can be built. -/
theorem buildAndDefine_eq_ok_iff {rules rules' : Rules} {name : String} {g : Grammar PatternSource} :
    rules.buildAndDefine name g = .ok rules' ↔ name ∉ rules.cells.map Prod.fst ∧
      ∃ b, g.build = .ok b ∧ rules' = { rules with cells := rules.cells ++ [(name, b)] } := by
  unfold buildAndDefine
  cases hb : g.build with
  | error e => simp [bind, Except.bind]
  | ok b =>
    show rules.define name b = .ok rules' ↔ _
    unfold define isDefined
    by_cases hname : name ∈ rules.cells.map Prod.fst
    · have hfind : (rules.cells.find? name).isSome = true := by
        rw [Option.isSome_iff_ne_none, Ne, Fields.find?_eq_none_iff]
        exact not_not_intro hname
      rw [if_pos hfind]
      exact ⟨nofun, fun h => absurd hname h.1⟩
    · have hfind : ¬ (rules.cells.find? name).isSome = true := by
        rw [Fields.find?_eq_none_iff.mpr hname]
        exact Bool.false_ne_true
      rw [if_neg hfind, Fields.insert_of_not_mem hname, Except.ok.injEq]
      constructor
      · exact fun h => ⟨hname, b, rfl, h.symm⟩
      · rintro ⟨-, b', hb', rfl⟩
        cases hb'
        rfl

/-- Definitions are stored in their order, each with its own grammar. -/
theorem foldlM_buildAndDefine_eq_ok_iff {defs : List (String × Grammar PatternSource)}
    {rules rules' : Rules} (hnodup : (rules.cells.map Prod.fst).Nodup) :
    defs.foldlM (fun rules d => buildAndDefine rules d.1 d.2) rules = .ok rules' ↔
      ∃ cells, Built defs cells ∧ ((rules.cells ++ cells).map Prod.fst).Nodup ∧
        rules' = { rules with cells := rules.cells ++ cells } := by
  induction defs generalizing rules with
  | nil =>
    constructor
    · intro h
      cases h
      exact ⟨[], .nil, by rwa [List.append_nil], by rw [List.append_nil]⟩
    · rintro ⟨cells, hbuilt, -, rfl⟩
      cases hbuilt
      rw [List.append_nil]
      rfl
  | cons d defs ih =>
    rw [List.foldlM_cons, bind_eq_ok_iff]
    have hnext : ∀ b, d.1 ∉ rules.cells.map Prod.fst →
        ((rules.cells ++ [(d.1, b)]).map Prod.fst).Nodup := by
      intro b hname
      rw [List.map_append, List.map_singleton, List.nodup_append]
      refine ⟨hnodup, List.nodup_singleton _, fun a ha c hc => ?_⟩
      rw [List.mem_singleton.mp hc]
      exact fun heq => hname (heq ▸ ha)
    constructor
    · rintro ⟨next, hd, hrest⟩
      obtain ⟨hname, b, hb, rfl⟩ := buildAndDefine_eq_ok_iff.mp hd
      obtain ⟨cells, hbuilt, hcells, rfl⟩ := (ih (hnext b hname)).mp hrest
      rw [List.append_assoc, List.singleton_append] at hcells
      refine ⟨(d.1, b) :: cells, .cons ⟨rfl, hb⟩ hbuilt, hcells, ?_⟩
      rw [List.append_assoc, List.singleton_append]
    · rintro ⟨_, hbuilt, hcells, rfl⟩
      obtain ⟨⟨name, b⟩, cells, ⟨rfl, hb⟩, hrest, rfl⟩ := List.forall₂_cons_left_iff.mp hbuilt
      have hname : d.1 ∉ rules.cells.map Prod.fst := by
        rw [List.map_append, List.map_cons, List.nodup_append] at hcells
        exact fun hmem => hcells.2.2 _ hmem _ List.mem_cons_self rfl
      refine ⟨_, buildAndDefine_eq_ok_iff.mpr ⟨hname, b, hb, rfl⟩, ?_⟩
      rw [ih (hnext b hname)]
      refine ⟨cells, hrest, ?_, ?_⟩
      · rwa [List.append_assoc, List.singleton_append]
      · rw [List.append_assoc, List.singleton_append]

/-- A list of definitions makes rules exactly if all grammars can be built and no name comes up
twice. -/
theorem ofDefinitions_eq_ok_iff {defs : List (String × Grammar PatternSource)} {rules : Rules} :
    ofDefinitions defs = .ok rules ↔
      ∃ cells, Built defs cells ∧ (defs.map Prod.fst).Nodup ∧ rules = ⟨cells, cells⟩ := by
  have hempty : ((({} : Rules).cells).map Prod.fst).Nodup := List.nodup_nil
  unfold ofDefinitions
  rw [bind_eq_ok_iff]
  constructor
  · rintro ⟨next, hfold, hnext⟩
    obtain ⟨cells, hbuilt, hnodup, rfl⟩ := (foldlM_buildAndDefine_eq_ok_iff hempty).mp hfold
    cases hnext
    exact ⟨cells, hbuilt, Fields.map_fst_of_forall₂ hbuilt ▸ hnodup, rfl⟩
  · rintro ⟨cells, hbuilt, hnodup, rfl⟩
    have hcells : (cells.map Prod.fst).Nodup := Fields.map_fst_of_forall₂ hbuilt ▸ hnodup
    exact ⟨_, (foldlM_buildAndDefine_eq_ok_iff hempty).mpr ⟨cells, hbuilt, hcells, rfl⟩, rfl⟩

end Rules

namespace Grammar

/-! ## Building -/

section Substitution

variable {σ : Reference → Grammar PatternSource} {τ : Reference → Grammar Regex.Program}

theorem buildAll_substAll {ps : List (Grammar PatternSource)}
    (hps : ∀ p ∈ ps, (p.subst σ).build = p.build.map (subst τ)) :
    buildAll (substAll σ ps) = (buildAll ps).map (substAll τ) := by
  induction ps with
  | nil => rfl
  | cons p ps ih =>
    rw [substAll, buildAll, buildAll, hps p List.mem_cons_self,
      ih fun q hq => hps q (List.mem_cons_of_mem p hq)]
    cases p.build <;> cases buildAll ps <;> rfl

theorem buildFields_substFields {fields : List (Field (Grammar PatternSource))}
    (hfields : ∀ f ∈ fields, (f.part.subst σ).build = f.part.build.map (subst τ)) :
    buildFields (substFields σ fields) = (buildFields fields).map (substFields τ) := by
  induction fields with
  | nil => rfl
  | cons f fields ih =>
    obtain ⟨key, part⟩ := f
    have hpart : (part.subst σ).build = part.build.map (subst τ) := hfields _ List.mem_cons_self
    rw [substFields, buildFields, buildFields, substField, buildField, buildField, hpart,
      ih fun q hq => hfields q (List.mem_cons_of_mem _ hq)]
    cases part.build <;> cases buildFields fields <;> rfl

/-- It makes no difference whether references are replaced before the patterns are compiled or
behind that. -/
theorem build_subst (hσ : ∀ r, (σ r).build = .ok (τ r)) (g : Grammar PatternSource) :
    (g.subst σ).build = g.build.map (subst τ) := by
  induction g with
  | terminal t | bare t =>
    rw [subst, build]
    cases t.build <;> rfl
  | probe => rfl
  | ref r => exact hσ r
  | seq ps ih | choice ps ih =>
    rw [subst, build, build, buildAll_substAll ih]
    cases buildAll ps <;> rfl
  | record fields ih =>
    rw [subst, build, build, buildFields_substFields ih]
    cases buildFields fields <;> rfl
  | between left right inner h₁ h₂ h₃ =>
    rw [subst, build, build, h₁, h₂, h₃]
    cases left.build <;> cases right.build <;> cases inner.build <;> rfl
  | sepBy p q h₁ h₂ | manyTill p q h₁ h₂ =>
    rw [subst, build, build, h₁, h₂]
    cases p.build <;> cases q.build <;> rfl
  | terminals w p hw ih =>
    have hwrapper : buildWrapper (substWrapper σ w) = (buildWrapper w).map (substWrapper τ) := by
      cases w with
      | skip g =>
        have hg : (g.subst σ).build = g.build.map (subst τ) := hw
        rw [substWrapper, buildWrapper, buildWrapper, hg]
        cases g.build <;> rfl
      | _ => rfl
    rw [subst, build, build, hwrapper, ih]
    cases buildWrapper w <;> cases p.build <;> rfl
  | opt p ih | many p ih | many1 p ih | map _ p ih | tryMap _ p ih | filter _ p ih
  | replace _ p ih | nth _ p ih | select _ p ih | slice _ p ih | put _ _ p ih | expect _ p ih
  | span p ih | window _ p ih =>
    rw [subst, build, build, ih]
    cases p.build <;> rfl

end Substitution

/-! ## Building what references were exchanged in -/

section Unfolding

variable {sources : String → Option (Grammar PatternSource)}
  {bodies : String → Option (Grammar Regex.Program)}

/-- A grammar with marks can be built if and only if it can with references in their place. -/
theorem build_marked {marked : Grammar PatternSource} {occurrence : Reference → Reference}
    {h : Grammar Regex.Program} (hbuild : (marked.subst fun m => ref (occurrence m)).build = .ok h) :
    ∃ built, marked.build = .ok built ∧ h = built.subst fun m => ref (occurrence m) := by
  have hsubst := build_subst (σ := fun m => ref (occurrence m)) (τ := fun m => ref (occurrence m))
    (fun m => rfl) marked
  rw [hbuild] at hsubst
  cases hmarked : marked.build with
  | error e =>
    rw [hmarked] at hsubst
    cases hsubst
  | ok built =>
    rw [hmarked] at hsubst
    exact ⟨built, rfl, Except.ok.inj hsubst⟩

theorem StandsFor.build
    (hbodies : ∀ x b, sources x = some b → ∃ h, b.build = .ok h ∧ bodies x = some h)
    {n : Nat} {r : Reference} {g : Grammar PatternSource} (h : StandsFor sources n r g) :
    ∃ g', g.build = .ok g' ∧ StandsFor bodies n r g' := by
  induction h with
  | itself n r => exact ⟨ref r, rfl, .itself n r⟩
  | deferred n hx =>
    obtain ⟨b, -, hb⟩ := hbodies _ _ hx
    exact ⟨ref (.definition _), rfl, .deferred n hb⟩
  | @unfolded n x marked occurrence σ hx hσ ih =>
    obtain ⟨b, hbuild, hb⟩ := hbodies _ _ hx
    obtain ⟨built, hmarked, rfl⟩ := build_marked hbuild
    choose τ hτ hstands using ih
    refine ⟨built.subst τ, ?_, .unfolded hb hstands⟩
    rw [build_subst hτ, hmarked]
    rfl

/-- References that were unfolded in the source are unfolded in what is built from it. -/
theorem UnfoldsWithin.build
    (hbodies : ∀ x b, sources x = some b → ∃ h, b.build = .ok h ∧ bodies x = some h)
    {n : Nat} {g g' : Grammar PatternSource} (h : UnfoldsWithin sources n g g')
    {b : Grammar Regex.Program} (hg : g.build = .ok b) :
    ∃ b', g'.build = .ok b' ∧ UnfoldsWithin bodies n b b' := by
  obtain ⟨marked, occurrence, σ, rfl, rfl, hσ⟩ := h
  obtain ⟨built, hmarked, rfl⟩ := build_marked hg
  choose τ hτ hstands using fun m => (hσ m).build hbodies
  refine ⟨built.subst τ, ?_, built, occurrence, τ, rfl, rfl, hstands⟩
  rw [build_subst hτ, hmarked]
  rfl

end Unfolding

theorem build_under_eq_ok_iff {w : Option (Wrapper (Grammar PatternSource))}
    {g : Grammar PatternSource} {b : Grammar Regex.Program} :
    (g.under w).build = .ok b ↔
      ∃ h v, g.build = .ok h ∧ w.mapM buildWrapper = .ok v ∧ b = h.under v := by
  cases w with
  | none =>
    constructor
    · exact fun hg => ⟨b, none, hg, rfl, rfl⟩
    · rintro ⟨h, v, hg, hv, rfl⟩
      cases hv
      exact hg
  | some w =>
    rw [under, build, bind_eq_ok_iff]
    constructor
    · rintro ⟨v, hv, hrest⟩
      obtain ⟨h, hg, hb⟩ := bind_eq_ok_iff.mp hrest
      cases hb
      refine ⟨h, some v, hg, ?_, rfl⟩
      rw [Option.mapM_some, hv]
      rfl
    · rintro ⟨h, v, hg, hv, rfl⟩
      rw [Option.mapM_some] at hv
      obtain ⟨v, hw, rfl⟩ : ∃ u, buildWrapper w = .ok u ∧ v = some u := by
        cases hw : buildWrapper w with
        | error e =>
          rw [hw] at hv
          cases hv
        | ok u =>
          rw [hw] at hv
          cases hv
          exact ⟨u, rfl, rfl⟩
      exact ⟨v, hw, bind_eq_ok_iff.mpr ⟨h, hg, rfl⟩⟩

end Grammar

/-! ## Definitions with references exchanged -/

namespace Rules

variable {defs mid defs' : List (String × Grammar PatternSource)}
  {cells cells' : Fields (Grammar Regex.Program)}

theorem Built.find? (h : Built defs cells) {x : String} {b : Grammar PatternSource}
    (hx : Fields.find? x defs = some b) :
    ∃ b', b.build = .ok b' ∧ cells.find? x = some b' := by
  induction h with
  | nil => cases hx
  | @cons d c defs cells hd _ ih =>
    obtain ⟨name, source⟩ := d
    obtain ⟨name', body⟩ := c
    obtain ⟨hname : name = name', hbuild : source.build = .ok body⟩ := hd
    subst hname
    rw [Fields.find?] at hx ⊢
    by_cases hkey : name = x
    · rw [if_pos hkey] at hx ⊢
      cases hx
      exact ⟨body, hbuild, rfl⟩
    · rw [if_neg hkey] at hx ⊢
      exact ih hx

/-- Each definition is built by itself, so that their order makes no difference. -/
theorem Built.of_perm (h : Built mid cells) (hperm : mid.Perm defs') :
    ∃ cells', Built defs' cells' ∧ cells.Perm cells' := by
  obtain ⟨cells', hbuilt, hcells⟩ := List.perm_comp_forall₂ hperm.symm h
  exact ⟨cells', hbuilt, hcells.symm⟩

/-- `defs'` are the definitions `defs`, in any order and with references in their bodies exchanged. -/
def Exchanged (defs defs' : List (String × Grammar PatternSource)) : Prop :=
  ∃ mid, List.Forall₂ (fun d d' => d.1 = d'.1 ∧ Grammar.Unfolds (Fields.find? · defs) d.2 d'.2) defs mid ∧
    mid.Perm defs'

/-- There are finitely many bodies, so that one bound on how deeply bodies are put in is enough. -/
theorem exists_bound {body? : String → Option (Grammar PatternSource)}
    (h : List.Forall₂ (fun d d' => d.1 = d'.1 ∧ Grammar.Unfolds body? d.2 d'.2) defs mid) :
    ∃ n, List.Forall₂ (fun d d' => d.1 = d'.1 ∧ Grammar.UnfoldsWithin body? n d.2 d'.2) defs mid := by
  induction h with
  | nil => exact ⟨0, .nil⟩
  | @cons d d' defs mid hd _ ih =>
    obtain ⟨hname, n, hbody⟩ := hd
    obtain ⟨m, hrest⟩ := ih
    refine ⟨max n m, .cons ⟨hname, hbody.mono (Nat.le_max_left n m)⟩ (hrest.imp ?_)⟩
    exact fun e e' he => ⟨he.1, he.2.mono (Nat.le_max_right n m)⟩

theorem Built.unfold {sources : String → Option (Grammar PatternSource)}
    {bodies : String → Option (Grammar Regex.Program)}
    (hbodies : ∀ x b, sources x = some b → ∃ h, b.build = .ok h ∧ bodies x = some h) {n : Nat}
    (hmid : List.Forall₂ (fun d d' => d.1 = d'.1 ∧ Grammar.UnfoldsWithin sources n d.2 d'.2) defs mid)
    (h : Built defs cells) :
    ∃ cells', Built mid cells' ∧ ∀ x,
      Option.Rel (Grammar.UnfoldsWithin bodies n) (cells.find? x) (cells'.find? x) := by
  induction hmid generalizing cells with
  | nil =>
    cases h
    exact ⟨[], .nil, fun x => .none⟩
  | @cons d d' defs mid hd _ ih =>
    obtain ⟨⟨name, body⟩, cells, ⟨hname, hbuild⟩, hrest, rfl⟩ := List.forall₂_cons_left_iff.mp h
    obtain ⟨cells', hbuilt, hrel⟩ := ih hrest
    obtain ⟨body', hbuild', hbody⟩ := hd.2.build hbodies hbuild
    refine ⟨(d'.1, body') :: cells', .cons ⟨rfl, hbuild'⟩ hbuilt, fun x => ?_⟩
    have hkeys : name = d'.1 := hname.symm.trans hd.1
    rw [Fields.find?, Fields.find?, hkeys]
    by_cases hx : d'.1 = x
    · rw [if_pos hx, if_pos hx]
      exact .some hbody
    · rw [if_neg hx, if_neg hx]
      exact hrel x

/-- Rules with the definitions in another order, and with references unfolded, can be built as well.
-/
theorem Exchanged.build {rules : Rules} (h : Exchanged defs defs')
    (hrules : ofDefinitions defs = .ok rules) :
    ∃ rules' n, ofDefinitions defs' = .ok rules' ∧ rules.Unfolds n rules' := by
  obtain ⟨cells, hbuilt, hnodup, rfl⟩ := ofDefinitions_eq_ok_iff.mp hrules
  obtain ⟨mid, hmid, hperm⟩ := h
  obtain ⟨n, hwithin⟩ := exists_bound hmid
  obtain ⟨cells', hbuilt', hrel⟩ := Built.unfold (fun x b => hbuilt.find?) hwithin hbuilt
  obtain ⟨cells'', hbuilt'', hcells⟩ := hbuilt'.of_perm hperm
  have hnodup' : (mid.map Prod.fst).Nodup := Fields.map_fst_of_forall₂ hmid ▸ hnodup
  refine ⟨⟨cells'', cells''⟩, n, ?_, ?_, rfl, rfl⟩
  · exact ofDefinitions_eq_ok_iff.mpr
      ⟨cells'', hbuilt'', (hperm.map Prod.fst).nodup_iff.mp hnodup', rfl⟩
  · intro x
    show Option.Rel _ (cells.find? x) (cells''.find? x)
    rw [Fields.find?_of_perm hcells (Fields.map_fst_of_forall₂ hbuilt' ▸ hnodup')]
    exact hrel x

end Rules

end Descent
