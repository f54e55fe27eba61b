import Descent.Regex.Reader

/-!
# Reading inside a group

The reader looks at the innermost open group only, and it closes no group that it has not opened. So
the tokens of a whole source are read inside another group as they are read alone, and if that group
is closed behind them, it holds what the source stands for.

* `Reader.step_within`, `Reader.foldlM_step_within`: the reader with another group around all groups.
* `Reader.opening_of_finish?`: what is left at the end of a source is no group.
* `read?_anchored`: the tokens of a source in a group behind a caret.
-/

namespace Descent.Regex

namespace Reader

/-- The reader with another group around all open ones. -/
def within (l : Level) (r : Reader) : Reader :=
  { r with outer := r.outer ++ [l] }

/-- A reader that gets on does not look at the groups around the ones it has opened. -/
theorem step_within {r r' : Reader} {t : Token} (h : r.step t = some r') (l : Level) :
    (r.within l).step t = some (r'.within l) := by
  cases t with
  | literal c => cases h; rfl
  | dot => cases h; rfl
  | caret => cases h; rfl
  | dollar => cases h; rfl
  | set e => cases h; rfl
  | assertion a => cases h; rfl
  | bar => cases h; rfl
  | capture name =>
    cases name with
    | none => cases h; rfl
    | some name =>
      obtain ⟨hname, he⟩ := Option.ite_none_left_eq_some.mp h
      cases he
      exact if_neg hname
  | scope change => cases h; rfl
  | flags change => cases h; rfl
  | close =>
    -- Alone the reader refuses to close a group that it has not opened.
    obtain ⟨level, outer, captures, names⟩ := r
    cases outer with
    | nil => cases h
    | cons o outer => cases h; rfl
  | repetition rep =>
    obtain ⟨⟨opening, flags, branches, parts⟩, outer, captures, names⟩ := r
    cases parts with
    | nil => cases h
    | cons p parts =>
      obtain ⟨hp, he⟩ := Option.ite_none_right_eq_some.mp h
      cases he
      exact if_pos hp

theorem foldlM_step_within {ts : List Token} {r r' : Reader}
    (h : ts.foldlM step r = some r') (l : Level) :
    ts.foldlM step (r.within l) = some (r'.within l) := by
  induction ts generalizing r with
  | nil =>
    cases h
    rfl
  | cons t ts ih =>
    obtain ⟨r₁, hstep, hrest⟩ := Option.bind_eq_some_iff.mp (List.foldlM_cons.symm.trans h)
    rw [List.foldlM_cons, step_within hstep]
    exact ih hrest

/-- What started the open groups, from the inside to the outside. -/
def openings (r : Reader) : List Opening :=
  r.level.opening :: r.outer.map Level.opening

/-- No token changes what started the outermost group. -/
theorem getLast?_openings_step {r r' : Reader} {t : Token} (h : r.step t = some r') :
    r'.openings.getLast? = r.openings.getLast? := by
  cases t with
  | literal c => cases h; rfl
  | dot => cases h; rfl
  | caret => cases h; rfl
  | dollar => cases h; rfl
  | set e => cases h; rfl
  | assertion a => cases h; rfl
  | bar => cases h; rfl
  | capture name =>
    cases name with
    | none =>
      cases h
      exact List.getLast?_cons_cons
    | some name =>
      obtain ⟨-, he⟩ := Option.ite_none_left_eq_some.mp h
      cases he
      exact List.getLast?_cons_cons
  | scope change =>
    cases h
    exact List.getLast?_cons_cons
  | flags change => cases h; rfl
  | close =>
    obtain ⟨level, outer, captures, names⟩ := r
    cases outer with
    | nil => cases h
    | cons o outer =>
      cases h
      exact List.getLast?_cons_cons.symm
  | repetition rep =>
    obtain ⟨⟨opening, flags, branches, parts⟩, outer, captures, names⟩ := r
    cases parts with
    | nil => cases h
    | cons p parts =>
      obtain ⟨-, he⟩ := Option.ite_none_right_eq_some.mp h
      cases he
      rfl

theorem getLast?_openings_foldlM_step {ts : List Token} {r r' : Reader}
    (h : ts.foldlM step r = some r') : r'.openings.getLast? = r.openings.getLast? := by
  induction ts generalizing r with
  | nil =>
    cases h
    rfl
  | cons t ts ih =>
    obtain ⟨r₁, hstep, hrest⟩ := Option.bind_eq_some_iff.mp (List.foldlM_cons.symm.trans h)
    exact (ih hrest).trans (getLast?_openings_step hstep)

/-- What is left once all groups are closed is no group. -/
theorem opening_of_finish? {ts : List Token} {r : Reader} {p : Piece}
    (h : ts.foldlM step {} = some r) (hp : r.finish? = some p) :
    r.outer = [] ∧ r.level.opening = .plain ∧ r.level.contents = p := by
  have hlast := getLast?_openings_foldlM_step h
  obtain ⟨level, outer, captures, names⟩ := r
  cases outer with
  | nil =>
    cases hp
    exact ⟨rfl, Option.some.inj hlast, rfl⟩
  | cons o outer => cases hp

end Reader

/-- The expression of a group that starts where the text does. -/
def Piece.atTextStart (p : Piece) : Piece :=
  .sequence [{ regex := .assertion .textStart }, { regex := p.regex, depth := p.depth + 1 }]

/-- The tokens in between are read as they are alone, since they close no group but their own. -/
theorem read?_anchored {ts : List Token} {p : Piece} (h : read? ts = some p) :
    read? (.caret :: .scope ⟨[], []⟩ :: (ts ++ [.close])) = some p.atTextStart := by
  obtain ⟨r, hr, hp⟩ := Option.bind_eq_some_iff.mp h
  obtain ⟨houter, hopening, hcontents⟩ := Reader.opening_of_finish? hr hp
  let caret : Level := { parts := [{ regex := .assertion .textStart }] }
  have hinner : ts.foldlM Reader.step (Reader.within caret {}) = some (r.within caret) :=
    Reader.foldlM_step_within hr caret
  have hclose : (r.within caret).step .close =
      some { r with level := caret.push r.level.close, outer := [] } := by
    obtain ⟨level, outer, captures, names⟩ := r
    cases houter
    rfl
  have hgroup : r.level.close = { regex := p.regex, depth := p.depth + 1 } := by
    rw [Level.close, hopening, hcontents]
    rfl
  change ((ts ++ [Token.close]).foldlM Reader.step (Reader.within caret {})).bind Reader.finish? = _
  rw [List.foldlM_append, hinner]
  change (((r.within caret).step .close).bind some).bind Reader.finish? = _
  rw [hclose, hgroup]
  rfl

end Descent.Regex
