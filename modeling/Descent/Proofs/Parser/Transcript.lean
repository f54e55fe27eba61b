import Descent.Proofs.Parser.Rest

/-!
# Parsers that keep the text they consume

A parser may keep everything that it consumes: from what it found the consumed text can be read off
again. `Transcribes text p` says so, where `text` is the way to read the text off a value. For a list
of values it is read off one entry after the other, so that a loop has to keep the value of each of
its rounds, once and in order, and nothing of what it gave up.

The three loops end in different ways. The last round of `many` may consume nothing, and its value is
kept, which does no harm since it can only stand for the empty text. In a search for a stop the stop
is the last entry. If the search fails, its items are dropped and the whole text is read again.
-/

namespace Descent.Parser

variable {κ α β : Type} {text : α → Text} {p q : Parser κ α} {k k' : κ} {s rest : Text}

/-- What `p` finds is the text that it consumes, as `text` reads it off. -/
def Transcribes (text : α → Text) (p : Parser κ α) : Prop :=
  ∀ ⦃k s v rest k'⦄, p k s = some ⟨.success v rest, k'⟩ → text v ++ rest = s

namespace Transcribes

theorem takesFront (hp : p.Transcribes text) : p.TakesFront := by
  intro k s v rest k' h
  exact ⟨text v, hp h⟩

/-- What is found without consuming anything is the empty text. -/
theorem eq_nil_of_idle (hp : p.Transcribes text) {v : α} (h : p k s = some ⟨.success v rest, k'⟩)
    (hlen : rest.byteLength = s.byteLength) : text v = [] := by
  have hrest : rest = s := hp.takesFront.eq_of_idle h hlen
  have htext : text v ++ rest = s := hp h
  rw [hrest] at htext
  exact List.append_left_eq_self.mp htext

/-! ## Parts that are used once -/

theorem fail : (fail : Parser κ α).Transcribes text := nofun

theorem map {f : α → β} {text' : β → Text} (hp : p.Transcribes text)
    (hf : ∀ v, text' (f v) = text v) : (p.map f).Transcribes text' := by
  intro k s v rest k' h
  obtain ⟨u, hu, rfl⟩ := map_eq_success_iff.mp h
  rw [hf]
  exact hp hu

theorem filter (hp : p.Transcribes text) (c : α → Bool) : (p.filter c).Transcribes text := by
  intro k s v rest k' h
  rcases filter_eq_some_iff.mp h with ⟨_, _, _, -, he⟩ | ⟨_, _, _, -, -, he⟩ | ⟨u, _, _, hu, -, he⟩
  · cases he
  · cases he
  · cases he
    exact hp hu

theorem expect [Clock κ] (hp : p.Transcribes text) (description : Text) :
    (p.expect description).Transcribes text := by
  intro k s v rest k' h
  rcases expect_eq_some_iff.mp h with ⟨_, _, _, -, he⟩ | ⟨u, _, _, hu, he⟩
  · cases he
  · cases he
    exact hp hu

theorem opt (hp : p.Transcribes text) : p.opt.Transcribes fun found => (found.map text).getD [] := by
  intro k s v rest k' h
  rcases opt_eq_some_iff.mp h with ⟨_, _, _, -, he⟩ | ⟨u, _, _, hu, he⟩
  · cases he
    rfl
  · cases he
    exact hp hu

/-- What is left of the window stands in front of the text behind it. -/
theorem window (hp : p.Transcribes text) (n : Nat) : (p.window n).Transcribes text := by
  intro k s v rest k' h
  rcases window_eq_some_iff.mp h with ⟨_, _, _, -, he⟩ | ⟨u, inside, _, hu, he⟩
  · cases he
  · cases he
    have hwindow : text v ++ inside = s.take n := hp hu
    have hlen : (s.take n).length - inside.length = (text v).length := by
      rw [← hwindow, List.length_append]
      omega
    have hfront : text v <+: s :=
      List.IsPrefix.trans ⟨inside, hwindow⟩ (List.take_prefix n s)
    rw [hlen]
    obtain ⟨behind, rfl⟩ := hfront
    rw [List.drop_left]

theorem choice {ps : List (Parser κ α)} (hps : ∀ p ∈ ps, p.Transcribes text) :
    (choice ps).Transcribes text := by
  induction ps with
  | nil => exact fail
  | cons p ps ih =>
    intro k s v rest k' h
    rcases choice_cons_eq_some_iff.mp h with ⟨_, _, _, -, hr⟩ | ⟨u, _, _, hu, he⟩
    · exact ih (fun q hq => hps q (List.mem_cons_of_mem p hq)) hr
    · cases he
      exact hps p List.mem_cons_self hu

theorem seq {ps : List (Parser κ α)} (hps : ∀ p ∈ ps, p.Transcribes text) :
    (seq ps).Transcribes (List.flatMap text) := by
  induction ps with
  | nil =>
    intro k s v rest k' h
    cases h
    rfl
  | cons p ps ih =>
    intro k s vs rest k' h
    obtain ⟨v, behind, k₁, hv, hrest⟩ := andThen_eq_success_iff.mp h
    obtain ⟨us, hus, rfl⟩ := map_eq_success_iff.mp hrest
    have hfirst : text v ++ behind = s := hps p List.mem_cons_self hv
    have hothers : us.flatMap text ++ rest = behind :=
      ih (fun q hq => hps q (List.mem_cons_of_mem p hq)) hus
    rw [List.flatMap_cons, List.append_assoc, hothers, hfirst]

end Transcribes

/-! ## Loops -/

theorem Rounds.transcribe (hp : p.Transcribes text) {values : List α}
    (h : Rounds p k s values rest k') : values.flatMap text ++ rest = s := by
  induction h with
  | done _ => rfl
  | last hround hlen =>
    rw [List.flatMap_singleton, hp.eq_nil_of_idle hround hlen, List.nil_append]
  | next hround _ _ ih => rw [List.flatMap_cons, List.append_assoc, ih, hp hround]

theorem Search.transcribe (hp : p.Transcribes text) (hq : q.Transcribes text)
    {found : Option (List α × Text)} (h : Search p q k s found k') :
    ∀ f ∈ found, f.1.flatMap text ++ f.2 = s := by
  induction h with
  | found hstop =>
    rintro f ⟨⟩
    rw [List.flatMap_singleton]
    exact hq hstop
  | stuck _ _ => exact nofun
  | idle _ _ _ => exact nofun
  | next _ hitem _ _ ih =>
    intro f hf
    obtain ⟨f', hf', rfl⟩ := Option.map_eq_some_iff.mp hf
    rw [List.flatMap_cons, List.append_assoc, ih f' hf', hp hitem]

namespace Transcribes

theorem many (hp : p.Transcribes text) : Transcribes (List.flatMap text) (many p) := by
  intro k s values rest k' h
  exact (many_eq_success_iff.mp h).transcribe hp

theorem many1 (hp : p.Transcribes text) : (many1 p).Transcribes (List.flatMap text) := by
  intro k s values rest k' h
  rw [many1_eq_andThen] at h
  obtain ⟨v, behind, k₁, hv, hrest⟩ := andThen_eq_success_iff.mp h
  obtain ⟨us, hus, rfl⟩ := map_eq_success_iff.mp hrest
  rw [List.flatMap_cons, List.append_assoc, hp.many hus, hp hv]

theorem manyTill (hp : p.Transcribes text) (hq : q.Transcribes text) :
    (manyTill p q).Transcribes (List.flatMap text) := by
  intro k s values rest k' h
  rcases manyTill_eq_some_iff.mp h with ⟨_, _, _, hsearch, he⟩ | ⟨k₁, r, -, hstop, he⟩
  · cases he
    exact hsearch.transcribe hp hq _ rfl
  · obtain ⟨⟨u, behind⟩ | ⟨behind, m⟩, k₂⟩ := r
    · cases he
      rw [List.flatMap_singleton]
      exact hq hstop
    · cases he

end Transcribes

end Descent.Parser
