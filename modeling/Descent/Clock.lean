import Descent.Location

/-!
# Clocks

While a text is read, something is counted: a clock is moved behind every text that is matched, and
it can tell a location. Parsers work with any clock. In practice the clock is the location itself;
other clocks can remember more.
-/

namespace Descent

/-- What is counted while a text is read. -/
class Clock (κ : Type) where
  /-- the clock after a text was passed -/
  advance : κ → Text → κ
  /-- the location that the clock shows -/
  location : κ → Location

/-- A location is a clock that shows itself. -/
instance : Clock Location where
  advance := Location.after
  location := id

@[simp] theorem Clock.advance_location (l : Location) (text : Text) :
    Clock.advance l text = l.after text := rfl

@[simp] theorem Clock.location_location (l : Location) : Clock.location l = l := rfl

end Descent
