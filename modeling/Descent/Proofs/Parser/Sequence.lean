import Descent.Parser.Projection
import Descent.Proofs.Parser.Naturality
import Descent.Proofs.Parser.Rest

/-!
# One law for all sequences

Every parser that reads several parts one after the other is made with `andThen`, which obeys the
laws of sequencing up to one point: it puts a failure at its own input, whatever the failed part
left. To go on behind `succeed` is therefore the same as to start there only for parsers that give
everything back. The difference is written down as `givingBack`, and it goes away inside another
`andThen`.

From these laws all sequences come out as `seq` with something picked from the list that it finds.

* `andThen_assoc`, `succeed_andThen`, `andThen_succeed`: the laws.
* `nth_succ_seq`, `nth_zero_seq`: a single entry of a sequence.
* `between_eq_nth_seq`, `seq_append`, `record_eq_map_seq`: what can be written as a sequence.
* `Fields.find?_insertAll`, `Fields.sorted_insertAll`: the fields of a record.
* `sequences_are_projections`: all of them, also for grammars in any surroundings.
-/

namespace Descent

namespace Parser

variable {κ α β γ : Type}

/-! ## The laws of `andThen` -/

theorem rewind_rewind (s t : Text) (r : Reply κ α) : (r.rewind t).rewind s = r.rewind s := by
  obtain ⟨⟨v, rest⟩ | ⟨rest, m⟩, k⟩ := r <;> rfl

/-- `p`, which now gives back everything where it fails. -/
def givingBack (p : Parser κ α) : Parser κ α :=
  fun k s => (p k s).map (Reply.rewind s)

/-- A parser that gives everything back by itself is not changed. -/
theorem GivesBack.givingBack_eq {p : Parser κ α} (hp : p.GivesBack) : p.givingBack = p := by
  funext k s
  unfold givingBack
  rcases h : p k s with _ | ⟨⟨v, rest⟩ | ⟨rest, m⟩, k₁⟩
  · rfl
  · rfl
  · rw [hp h]
    rfl

theorem map_id (p : Parser κ α) : map id p = p := by
  funext k s
  simp only [map]
  rcases p k s with _ | ⟨⟨v, rest⟩ | ⟨rest, m⟩, k₁⟩ <;> rfl

theorem map_givingBack (f : α → β) (p : Parser κ α) :
    map f p.givingBack = (map f p).givingBack := by
  funext k s
  simp only [givingBack, map]
  rcases p k s with _ | ⟨⟨v, rest⟩ | ⟨rest, m⟩, k₁⟩ <;> rfl

/-- What comes second may as well give back everything. -/
theorem andThen_givingBack (p : Parser κ α) (f : α → Parser κ β) :
    (p.andThen fun v => (f v).givingBack) = p.andThen f := by
  funext k s
  unfold andThen givingBack
  rcases p k s with _ | ⟨⟨v, rest⟩ | ⟨rest, m⟩, k₁⟩
  · rfl
  · show ((f v k₁ rest).map _).map _ = (f v k₁ rest).map _
    rw [Option.map_map]
    exact congrArg (Option.map · _) (funext fun r => rewind_rewind s rest r)
  · rfl

theorem succeed_andThen (v : α) (f : α → Parser κ β) :
    (succeed v).andThen f = (f v).givingBack := rfl

/-- What `succeed` adds is that failures are put at the start. -/
theorem andThen_succeed (p : Parser κ α) (f : α → β) :
    (p.andThen fun v => succeed (f v)) = (map f p).givingBack := by
  funext k s
  simp only [andThen, givingBack, map]
  rcases p k s with _ | ⟨⟨v, rest⟩ | ⟨rest, m⟩, k₁⟩ <;> rfl

/-- Failures are put at the start of the whole with either bracketing. -/
theorem andThen_assoc (p : Parser κ α) (f : α → Parser κ β) (g : β → Parser κ γ) :
    (p.andThen f).andThen g = p.andThen fun v => (f v).andThen g := by
  funext k s
  unfold andThen
  rcases p k s with _ | ⟨⟨v, rest⟩ | ⟨rest, m⟩, k₁⟩
  · rfl
  · dsimp only
    rcases f v k₁ rest with _ | ⟨⟨u, behind⟩ | ⟨behind, m⟩, k₂⟩
    · rfl
    · show (g u k₂ behind).map _ = ((g u k₂ behind).map _).map _
      rw [Option.map_map]
      exact congrArg (Option.map · _) (funext fun r => (rewind_rewind s rest r).symm)
    · rfl
  · rfl

/-! ## An entry of a sequence -/

theorem nth_andThen (n : Nat) (p : Parser κ α) (f : α → Parser κ (List β)) :
    nth n (p.andThen f) = p.andThen fun v => nth n (f v) :=
  andThen_assoc p f _

theorem nth_succ_map_cons (n : Nat) (v : α) (p : Parser κ (List α)) :
    nth (n + 1) (map (v :: ·) p) = nth n p :=
  andThen_map _ p _

theorem nth_zero_map_cons (v : α) (p : Parser κ (List α)) :
    nth 0 (map (v :: ·) p) = (map (fun _ => v) p).givingBack :=
  (andThen_map _ p _).trans (andThen_succeed p fun _ => v)

theorem nth_succ_seq (n : Nat) (p : Parser κ α) (ps : List (Parser κ α)) :
    nth (n + 1) (seq (p :: ps)) = p.andThen fun _ => nth n (seq ps) := by
  rw [seq, nth_andThen]
  simp only [nth_succ_map_cons]

theorem nth_zero_seq (p : Parser κ α) (ps : List (Parser κ α)) :
    nth 0 (seq (p :: ps)) = p.andThen fun v => map (fun _ => v) (seq ps) := by
  rw [seq, nth_andThen]
  simp only [nth_zero_map_cons, andThen_givingBack]

theorem seq_singleton (p : Parser κ α) : seq [p] = (map ([·]) p).givingBack :=
  andThen_succeed p ([·])

/-- The second of two parts. What becomes of the value of the first one does not matter. -/
theorem nth_one_seq_pair (f : β → α) (q : Parser κ β) (p : Parser κ α) :
    nth 1 (seq [map f q, p]) = q.andThen fun _ => p := by
  have hlast : nth 0 (seq [p]) = p.givingBack := by
    rw [nth_zero_seq]
    exact (andThen_succeed p id).trans (by rw [map_id])
  rw [nth_succ_seq, hlast, andThen_givingBack, andThen_map]

theorem between_eq_nth_seq (left right inner : Parser κ α) :
    between left right inner = nth 1 (seq [left, inner, right]) := by
  have hright : ∀ v : α, map (fun _ => v) (seq [right]) = (map (fun _ => v) right).givingBack := by
    intro v
    rw [seq_singleton, map_givingBack, map_map]
    rfl
  rw [nth_succ_seq, nth_zero_seq]
  simp only [hright, andThen_givingBack]
  rfl

/-! ## Two sequences in a row -/

/-- A sequence goes on behind any of its parts. -/
theorem seq_append_eq_andThen (ps qs : List (Parser κ α)) :
    seq (ps ++ qs) = (seq ps).andThen fun vs => map (vs ++ ·) (seq qs) := by
  induction ps with
  | nil =>
    rw [List.nil_append, seq, succeed_andThen]
    show seq qs = (map id (seq qs)).givingBack
    rw [map_id, (seq_givesBack qs).givingBack_eq]
  | cons p ps ih =>
    rw [List.cons_append, seq, ih, seq, andThen_assoc]
    congr 1
    funext v
    rw [map_andThen, andThen_map]
    congr 1
    funext vs
    rw [map_map]
    rfl

theorem seq_append (ps qs : List (Parser κ α)) :
    seq (ps ++ qs) = map List.flatten (seq [seq ps, seq qs]) := by
  have hlast : ∀ vs : List α, map List.flatten (map (vs :: ·) (seq [seq qs])) =
      (map (vs ++ ·) (seq qs)).givingBack := by
    intro vs
    rw [seq_singleton, map_givingBack, map_givingBack, map_map, map_map]
    congr 2
    funext ws
    simp
  rw [seq_append_eq_andThen, seq, map_andThen]
  simp only [hlast, andThen_givingBack]

theorem length_of_seq {ps : List (Parser κ α)} {k k' : κ} {s rest : Text} {values : List α}
    (h : seq ps k s = some ⟨.success values rest, k'⟩) : values.length = ps.length := by
  induction ps generalizing k s values with
  | nil =>
    cases h
    rfl
  | cons p ps ih =>
    obtain ⟨v, behind, k₁, -, htail⟩ := andThen_eq_success_iff.mp h
    obtain ⟨vs, hvs, rfl⟩ := map_eq_success_iff.mp htail
    rw [List.length_cons, List.length_cons, ih hvs]

end Parser

/-! ## Records -/

namespace Fields

variable {α : Type}

/-- Sets a field for each of the entries that has a key, one after the other. -/
def insertAll : Fields α → List (Option String × α) → Fields α
  | fields, [] => fields
  | fields, (some key, v) :: entries => insertAll (fields.put key v) entries
  | fields, (none, _) :: entries => insertAll fields entries

/-- The last entry with a key is the one that counts. -/
theorem find?_insertAll (key : String) (fields : Fields α) (entries : List (Option String × α)) :
    find? key (fields.insertAll entries) =
      (entries.reverse.lookup (some key)).or (find? key fields) := by
  induction entries generalizing fields with
  | nil => rfl
  | cons entry entries ih =>
    obtain ⟨_ | k, v⟩ := entry
    · rw [insertAll, ih, List.reverse_cons, List.lookup_append]
      simp [List.lookup_cons]
    · rw [insertAll, ih, find?_put, List.reverse_cons, List.lookup_append]
      by_cases hk : key = k
      · simp [hk]
      · have hbeq : (key == k) = false := beq_eq_false_iff_ne.mpr hk
        simp [List.lookup_cons, hk, hbeq]

/-- The keys stand in order, so that there are no two fields with the same key. -/
def Sorted (fields : Fields α) : Prop :=
  fields.Pairwise (·.1 < ·.1)

theorem Sorted.nodup {fields : Fields α} (h : fields.Sorted) : (fields.map Prod.fst).Nodup := by
  refine List.pairwise_map.mpr (h.imp ?_)
  intro e f hlt heq
  exact String.lt_irrefl f.1 (heq ▸ hlt)

theorem Sorted.put {fields : Fields α} (h : fields.Sorted) (key : String) (v : α) :
    (fields.put key v).Sorted := by
  induction fields with
  | nil => exact List.pairwise_singleton _ _
  | cons f fields ih =>
    obtain ⟨k, u⟩ := f
    obtain ⟨hfirst, hrest⟩ := List.pairwise_cons.mp h
    rw [Fields.put]
    split
    · next hlt =>
      refine List.pairwise_cons.mpr ⟨fun e he => ?_, ih hrest⟩
      rcases mem_put he with rfl | he
      · exact hlt
      · exact hfirst e he
    · next hle =>
      split
      · next heq => exact List.pairwise_cons.mpr ⟨fun e he => heq ▸ hfirst e he, hrest⟩
      · next hne =>
        have hgt : key < k := by
          refine Decidable.byContradiction fun hge => hne ?_
          exact String.le_antisymm (String.not_lt.mp hge) (String.not_lt.mp hle)
        refine List.pairwise_cons.mpr ⟨fun e he => ?_, h⟩
        rcases List.mem_cons.mp he with rfl | he
        · exact hgt
        · exact String.lt_trans hgt (hfirst e he)

/-- The fields stay in order, whatever the order in which they are set. -/
theorem sorted_insertAll {fields : Fields α} (h : fields.Sorted)
    (entries : List (Option String × α)) : (fields.insertAll entries).Sorted := by
  induction entries generalizing fields with
  | nil => exact h
  | cons entry entries ih =>
    obtain ⟨_ | key, v⟩ := entry
    · exact ih h
    · exact ih (h.put key v)

end Fields

namespace Parser

variable {κ α : Type}

/-- The values can be collected first and put under their keys behind that. -/
theorem recordFrom_eq_map_seq (captured : Fields α) (parts : List (Option String × Parser κ α)) :
    recordFrom captured parts =
      map (fun values => captured.insertAll ((parts.map Prod.fst).zip values))
        (seq (parts.map Prod.snd)) := by
  induction parts generalizing captured with
  | nil => rfl
  | cons part parts ih =>
    obtain ⟨_ | key, p⟩ := part
    all_goals
      rw [recordFrom, List.map_cons, List.map_cons, seq, map_andThen]
      congr 1
      funext v
      rw [ih, map_map]
      rfl

theorem record_eq_map_seq (parts : List (Option String × Parser κ α)) :
    record parts =
      map (fun values => Fields.insertAll [] ((parts.map Prod.fst).zip values))
        (seq (parts.map Prod.snd)) :=
  recordFrom_eq_map_seq [] parts

end Parser

/-! ## Sequences in grammars -/

namespace Grammar

variable {κ : Type} [Clock κ] {resolve : Reference → Ambient κ → Parser κ Value}

theorem denote_nth_seq (n : Nat) (ps : List (Grammar Regex.Program)) (a : Ambient κ) :
    (nth n (seq ps)).denote resolve a = .nth n (.seq (ps.map (·.denote resolve a))) := by
  have hlist : ∀ p : Parser κ (List Value), asList (.map .list p) = p.givingBack := by
    intro p
    calc asList (.map .list p) = p.andThen fun vs => .succeed (id vs) :=
          Parser.andThen_map Value.list p _
      _ = (Parser.map id p).givingBack := Parser.andThen_succeed p id
      _ = p.givingBack := by rw [Parser.map_id]
  rw [denote, denote, hlist, denoteAll_eq_map, (Parser.seq_givesBack _).givingBack_eq]

theorem denote_between (left right inner : Grammar Regex.Program) (a : Ambient κ) :
    (between left right inner).denote resolve a =
      (nth 1 (seq [left, inner, right])).denote resolve a := by
  rw [denote_nth_seq]
  exact Parser.between_eq_nth_seq _ _ _

/-- **All sequences are projections of `seq`.** This holds for any parts, whatever they leave where
they fail. A part between two others is the second entry of all three; two sequences in a row are
one; a record is a sequence whose values get the keys of their parts, where of several values for a
key the last one counts. The same is true of grammars, whatever rules and wrapper they stand under,
and also where a wrapper is what skips text around a terminal. -/
theorem sequences_are_projections :
    (∀ {α : Type} (left right inner : Parser κ α),
      Parser.between left right inner = .nth 1 (.seq [left, inner, right])) ∧
    (∀ {α : Type} (ps qs : List (Parser κ α)),
      Parser.seq (ps ++ qs) = .map List.flatten (.seq [.seq ps, .seq qs])) ∧
    (∀ {α : Type} (parts : List (Option String × Parser κ α)),
      Parser.record parts =
          .map (fun values => Fields.insertAll [] ((parts.map Prod.fst).zip values))
            (.seq (parts.map Prod.snd)) ∧
        ∀ k s values rest k',
          Parser.seq (parts.map Prod.snd) k s = some ⟨.success values rest, k'⟩ →
          values.length = parts.length) ∧
    (∀ {α : Type} (entries : List (Option String × α)),
      ((Fields.insertAll [] entries).map Prod.fst).Nodup ∧
      ∀ key, Fields.find? key (Fields.insertAll [] entries) =
        entries.reverse.lookup (some key)) ∧
    ∀ (rules : Rules) (depth : Nat) (w : Option (Wrapper (Grammar Regex.Program)))
      (left right p : Grammar Regex.Program),
      ((between left right p).parser rules depth w : Parser κ Value) =
        (nth 1 (seq [left, p, right])).parser rules depth w ∧
      ((quoted left p).parser rules depth w : Parser κ Value) =
        (between left left p).parser rules depth w ∧
      ((skipAround left p).parser rules depth w : Parser κ Value) =
        (nth 1 (seq [left, p, left])).parser rules depth w ∧
      ∀ t, ((terminal t).parser rules depth (some (.skip left)) : Parser κ Value) =
        (nth 1 (seq [left, bare t, left])).parser rules depth none := by
  refine ⟨Parser.between_eq_nth_seq, Parser.seq_append, ?_, ?_, ?_⟩
  · intro α parts
    refine ⟨Parser.record_eq_map_seq parts, ?_⟩
    intro k s values rest k' h
    rw [Parser.length_of_seq h, List.length_map]
  · intro α entries
    have hsorted : (Fields.insertAll [] entries).Sorted := Fields.sorted_insertAll .nil entries
    refine ⟨hsorted.nodup, ?_⟩
    intro key
    rw [Fields.find?_insertAll]
    exact Option.or_none
  · intro rules depth w left right p
    refine ⟨denote_between left right p _, rfl, denote_between left left p _, fun t => ?_⟩
    refine Eq.trans ?_ (denote_between left left (bare t) none)
    exact Parser.map_between _ _ _ _

/-- Three parts, of which two have the same key and one has none. -/
theorem sequences_are_projections_of_repeated_key :
    let parts : List (Option String × Parser Location Text) :=
      [(some "a", (Terminal.literal ['x']).parser), (none, (Terminal.literal [',']).parser),
        (some "a", (Terminal.literal ['y']).parser)]
    let values : List Text := [['x'], [','], ['y']]
    Parser.seq (parts.map Prod.snd) ⟨1, 1⟩ ['x', ',', 'y', 'z'] =
      some ⟨.success values ['z'], ⟨1, 4⟩⟩ ∧
    values.length = parts.length ∧
    Parser.record parts ⟨1, 1⟩ ['x', ',', 'y', 'z'] =
      some ⟨.success [("a", ['y'])] ['z'], ⟨1, 4⟩⟩ := by
  intro parts values
  have hseq : Parser.seq (parts.map Prod.snd) ⟨1, 1⟩ ['x', ',', 'y', 'z'] =
      some ⟨.success values ['z'], ⟨1, 4⟩⟩ := rfl
  obtain ⟨hrecord, hlength⟩ := (sequences_are_projections (κ := Location)).2.2.1 parts
  refine ⟨hseq, hlength _ _ _ _ _ hseq, ?_⟩
  rw [hrecord, Parser.map, hseq]
  rfl

end Grammar

end Descent
