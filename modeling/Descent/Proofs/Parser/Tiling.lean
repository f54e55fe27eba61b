import Descent.Proofs.Grammar.Accounting
import Descent.Proofs.Parser.Naturality
import Mathlib.Data.List.Chain

/-!
# Spans in a row

A span takes its text from what a parser consumed, and its two ends from the location, which runs
ahead of the text where a parser matched something and gave it back. Spans of parts that follow one
another fit together all the same. Their texts are the consumed text, since each part starts at what
the one before it left; and each span starts where the one before it ended, since nothing moves the
location between two parts. What a last, failing part does to the location comes behind all spans.

* `Span.Tiles`: the spans fit together and cover a text.
* `Rounds.tiles`, `tilesText_seq`: the spans of a repetition and of a sequence.
* `consecutive_spans_tile`: these, also for grammars in any surroundings.
-/

namespace Descent

/-! ## Tiles -/

/-- The spans cover what stands in front of `rest` in `s`, one behind the other. The first one
starts at `l`, the last one ends no later than `l'`, and none goes back. -/
structure Span.Tiles (spans : List Span) (l : Location) (s rest : Text) (l' : Location) : Prop where
  texts : (spans.map Span.text).flatten ++ rest = s
  first : ∀ place ∈ spans.head?, place.start = l
  adjacent : spans.IsChain fun a b => a.stop = b.start
  forward : ∀ place ∈ spans, place.start ≤ place.stop
  last : ∀ place ∈ spans.getLast?, place.stop ≤ l'

namespace Span.Tiles

variable {spans : List Span} {l k l' : Location} {s behind rest text : Text}

theorem nil : Tiles [] l s s l' :=
  ⟨rfl, nofun, .nil, nofun, nofun⟩

theorem cons (htext : text ++ behind = s) (hforward : l ≤ k) (hlast : k ≤ l')
    (h : Tiles spans k behind rest l') : Tiles (⟨l, k, text⟩ :: spans) l s rest l' where
  texts := by
    rw [List.map_cons, List.flatten_cons, List.append_assoc, h.texts, htext]
  first := by
    rintro place ⟨⟩
    rfl
  adjacent := by
    refine List.isChain_cons.mpr ⟨fun place hplace => ?_, h.adjacent⟩
    exact (h.first place hplace).symm
  forward := List.forall_mem_cons.mpr ⟨hforward, h.forward⟩
  last := by
    cases spans with
    | nil =>
      rintro place ⟨⟩
      exact hlast
    | cons next spans =>
      intro place hplace
      rw [List.getLast?_cons_cons] at hplace
      exact h.last place hplace

end Span.Tiles

/-! ## Parts with spans -/

namespace Parser

variable {α : Type} {p : Parser Location α} {l k l' : Location} {s behind rest : Text}
  {e : α × Span}

/-- `p` never moves the location back. -/
def MovesForward (p : Parser Location α) : Prop :=
  ∀ ⦃l s r⦄, p l s = some r → l ≤ r.clock

/-- The spans that `p` finds tile the text that it consumes. -/
def TilesText (p : Parser Location (List (α × Span))) : Prop :=
  ∀ ⦃l s items rest l'⦄, p l s = some ⟨.success items rest, l'⟩ →
    Span.Tiles (items.map Prod.snd) l s rest l'

theorem MovesForward.span (hp : p.MovesForward) : p.span.MovesForward := by
  intro l s r h
  obtain ⟨r', hr', rfl⟩ := span_eq_some_iff.mp h
  exact hp hr'

/-- The span of one part in front of those of the next ones. -/
theorem tiles_cons {spans : List Span} (hfront : p.TakesFront) (hforward : p.MovesForward)
    (h : p.span l s = some ⟨.success e behind, k⟩) (hlast : k ≤ l')
    (htiles : Span.Tiles spans k behind rest l') : Span.Tiles (e.2 :: spans) l s rest l' := by
  obtain ⟨hp, he⟩ := span_eq_success_iff.mp h
  have htext : consumed s behind ++ behind = s := consumed_append (hfront hp)
  have hmove : l ≤ k := hforward hp
  rw [he]
  exact .cons htext hmove hlast htiles

/-! ## Repetitions -/

theorem Rounds.forward {values : List α} (hp : p.MovesForward) (h : Rounds p l s values rest l') :
    l ≤ l' := by
  induction h with
  | done hfail => exact hp hfail
  | last hround _ => exact hp hround
  | next hround _ _ ih => exact Location.le_trans (hp hround) ih

theorem Rounds.tiles {items : List (α × Span)} (hfront : p.TakesFront) (hforward : p.MovesForward)
    (h : Rounds p.span l s items rest l') : Span.Tiles (items.map Prod.snd) l s rest l' := by
  induction h with
  | done _ => exact .nil
  | last hround hlen =>
    -- the last span has no text, and the location behind it is the final one
    have hrest := hfront.eq_of_idle (span_eq_success_iff.mp hround).1 hlen
    subst hrest
    exact tiles_cons hfront hforward hround (Location.le_refl _) .nil
  | next hround _ hrounds ih =>
    exact tiles_cons hfront hforward hround (hrounds.forward hforward.span) ih

theorem tilesText_many (hfront : p.TakesFront) (hforward : p.MovesForward) :
    TilesText (many p.span) := by
  intro l s items rest l' h
  exact (many_eq_success_iff.mp h).tiles hfront hforward

theorem tilesText_many1 (hfront : p.TakesFront) (hforward : p.MovesForward) :
    TilesText (many1 p.span) := by
  intro l s items rest l' h
  rw [many1_eq_andThen] at h
  obtain ⟨e, behind, k, hfirst, hmany⟩ := andThen_eq_success_iff.mp h
  obtain ⟨items, hitems, rfl⟩ := map_eq_success_iff.mp hmany
  have hrounds := many_eq_success_iff.mp hitems
  exact tiles_cons hfront hforward hfirst (hrounds.forward hforward.span)
    (hrounds.tiles hfront hforward)

/-! ## Sequences -/

theorem forward_of_seq {ps : List (Parser Location α)} (hps : ∀ p ∈ ps, p.MovesForward)
    {values : List α} (h : seq ps l s = some ⟨.success values rest, l'⟩) : l ≤ l' := by
  induction ps generalizing l s values with
  | nil =>
    cases h
    exact Location.le_refl _
  | cons p ps ih =>
    obtain ⟨hp, hps⟩ := List.forall_mem_cons.mp hps
    obtain ⟨v, behind, k, hfirst, htail⟩ := andThen_eq_success_iff.mp h
    obtain ⟨vs, hvs, -⟩ := map_eq_success_iff.mp htail
    exact Location.le_trans (hp hfirst) (ih hps hvs)

theorem tilesText_seq {ps : List (Parser Location α)}
    (hps : ∀ p ∈ ps, p.TakesFront ∧ p.MovesForward) : (seq (ps.map span)).TilesText := by
  induction ps with
  | nil =>
    intro l s items rest l' h
    cases h
    exact .nil
  | cons p ps ih =>
    obtain ⟨⟨hfront, hforward⟩, hps⟩ := List.forall_mem_cons.mp hps
    intro l s items rest l' h
    obtain ⟨e, behind, k, hfirst, htail⟩ := andThen_eq_success_iff.mp h
    obtain ⟨items, hitems, rfl⟩ := map_eq_success_iff.mp htail
    have hspans : ∀ q ∈ ps.map span, q.MovesForward :=
      List.forall_mem_map.mpr fun q hq => (hps q hq).2.span
    exact tiles_cons hfront hforward hfirst (forward_of_seq hspans hitems) (ih hps hitems)

end Parser

/-! ## Grammars -/

namespace Grammar

open Descent.Parser

theorem parser_movesForward (rules : Rules) (depth : Nat)
    (w : Option (Wrapper (Grammar Regex.Program))) (g : Grammar Regex.Program) :
    (g.parser rules depth w).MovesForward := by
  intro l s r h
  cases g.parser_noLag rules depth w h with
  | success _ _ hk => exact Location.le_trans (l.le_after _) hk
  | failure hk => exact hk

/-- The grammar is a repetition of a span, or a sequence of spans. -/
inductive IsSpanRow : Grammar Regex.Program → Prop
  | many (p : Grammar Regex.Program) : IsSpanRow (many (span p))
  | many1 (p : Grammar Regex.Program) : IsSpanRow (many1 (span p))
  | seq (ps : List (Grammar Regex.Program)) : IsSpanRow (seq (ps.map span))

/-- The list of values with a span. -/
def spannedList (items : List (Value × Span)) : Value :=
  .list (items.map Value.ofSpanned)

theorem IsSpanRow.exists_tilesText {g : Grammar Regex.Program} (hg : g.IsSpanRow) (rules : Rules)
    (depth : Nat) (w : Option (Wrapper (Grammar Regex.Program))) :
    ∃ p : Parser Location (List (Value × Span)), p.TilesText ∧
      g.parser rules depth w = p.map spannedList := by
  have hfront (g : Grammar Regex.Program) :
      (g.parser rules depth w : Parser Location Value).TakesFront :=
    (g.parser_leavesSuffix rules depth w).takesFront
  have hforward (g : Grammar Regex.Program) : (g.parser rules depth w).MovesForward :=
    g.parser_movesForward rules depth w
  cases hg with
  | many p =>
    refine ⟨_, tilesText_many (hfront p) (hforward p), ?_⟩
    show Parser.map Value.list (Parser.many (Parser.map Value.ofSpanned _)) = _
    rw [← map_many, map_map]
    rfl
  | many1 p =>
    refine ⟨_, tilesText_many1 (hfront p) (hforward p), ?_⟩
    show Parser.map Value.list (Parser.many1 (Parser.map Value.ofSpanned _)) = _
    rw [← map_many1, map_map]
    rfl
  | seq ps =>
    refine ⟨Parser.seq ((ps.map (·.parser rules depth w)).map Parser.span), tilesText_seq ?_, ?_⟩
    · exact List.forall_mem_map.mpr fun p _ => ⟨hfront p, hforward p⟩
    · show Parser.map Value.list (Parser.seq (denoteAll _ (ps.map span) _)) = _
      have hparts : denoteAll (rules.resolve depth) (ps.map span)
            (rules.ambient depth w : Ambient Location) =
          ((ps.map (·.parser rules depth w)).map Parser.span).map (Parser.map Value.ofSpanned) := by
        rw [denoteAll_eq_map, List.map_map, List.map_map, List.map_map]
        rfl
      rw [hparts, ← map_seq, map_map]
      rfl

/-- **Consecutive spans tile the consumed text.** For parts that leave the end of their text and do
not move the location back, which is all that is asked of them: the texts of the spans are the
consumed text, the first span starts at the location on entry, each of the others where the one
before it ended, none ends before it starts, and the last one does not end behind the final
location. All grammars are such parts, whatever they give back and whichever wrapper they stand
under. -/
theorem consecutive_spans_tile :
    (∀ {α : Type} (p : Parser Location α), p.TakesFront → p.MovesForward →
      TilesText (Parser.many p.span) ∧ TilesText (Parser.many1 p.span)) ∧
    (∀ {α : Type} (ps : List (Parser Location α)), (∀ p ∈ ps, p.TakesFront ∧ p.MovesForward) →
      TilesText (Parser.seq (ps.map Parser.span))) ∧
    ∀ (rules : Rules) (depth : Nat) (w : Option (Wrapper (Grammar Regex.Program)))
      (g : Grammar Regex.Program),
      ((g.parser rules depth w : Parser Location Value).TakesFront ∧
        (g.parser rules depth w).MovesForward) ∧
      (g.IsSpanRow → ∀ l s v rest l', g.parser rules depth w l s = some ⟨.success v rest, l'⟩ →
        ∃ items, v = spannedList items ∧ Span.Tiles (items.map Prod.snd) l s rest l') := by
  refine ⟨?_, ?_, ?_⟩
  · intro α p hfront hforward
    exact ⟨tilesText_many hfront hforward, tilesText_many1 hfront hforward⟩
  · intro α ps hps
    exact tilesText_seq hps
  · intro rules depth w g
    have hfront := (g.parser_leavesSuffix (κ := Location) rules depth w).takesFront
    refine ⟨⟨hfront, g.parser_movesForward rules depth w⟩, ?_⟩
    intro hg l s v rest l' h
    obtain ⟨p, htiles, hparser⟩ := hg.exists_tilesText rules depth w
    rw [hparser] at h
    obtain ⟨items, hitems, rfl⟩ := map_eq_success_iff.mp h
    exact ⟨items, rfl, htiles hitems⟩

/-- The first alternative is given up once, so that the first span ends too late, and the second one
starts there. -/
theorem consecutive_spans_tile_of_abandoned :
    let p : Grammar Regex.Program := choice [seq [literal ['x'], literal ['y']], literal ['x']]
    let w : Wrapper (Grammar Regex.Program) := .skip (opt (literal [' ']))
    let q : Parser Location Value := p.parser {} 0 (some w)
    let s : Text := ['x', ' ', 'x', 'y', '!']
    let items : List (Value × Span) :=
      [(.str ['x'], ⟨⟨2, 1⟩, ⟨2, 5⟩, ['x', ' ']⟩),
        (.list [.str ['x'], .str ['y']], ⟨⟨2, 5⟩, ⟨2, 7⟩, ['x', 'y']⟩)]
    (many (span p)).IsSpanRow ∧
    Parser.many q.span ⟨2, 1⟩ s = some ⟨.success items ['!'], ⟨2, 7⟩⟩ ∧
    Span.Tiles (items.map Prod.snd) ⟨2, 1⟩ s ['!'] ⟨2, 7⟩ ∧
    ∃ items', spannedList items = spannedList items' ∧
      Span.Tiles (items'.map Prod.snd) ⟨2, 1⟩ s ['!'] ⟨2, 7⟩ := by
  intro p w q s items
  have hmany : Parser.many q.span ⟨2, 1⟩ s = some ⟨.success items ['!'], ⟨2, 7⟩⟩ := by cbv
  have hrow : (many (span p)).parser {} 0 (some w) (⟨2, 1⟩ : Location) s =
      some ⟨.success (spannedList items) ['!'], ⟨2, 7⟩⟩ := by cbv
  obtain ⟨hparser, -, hgrammar⟩ := consecutive_spans_tile
  obtain ⟨⟨hfront, hforward⟩, -⟩ := hgrammar {} 0 (some w) p
  have hall := (hgrammar {} 0 (some w) (many (span p))).2 (.many p)
  exact ⟨.many p, hmany, (hparser _ hfront hforward).1 hmany, hall _ _ _ _ _ hrow⟩

end Grammar

end Descent
