import Descent.Location

/-!
# Spans

A span says which text a parser consumed and where that text stood.
-/

namespace Descent

/-- A stretch of text with the locations before and behind it. -/
structure Span where
  /-- the location before the text -/
  start : Location
  /-- the location behind the text -/
  stop : Location
  /-- the text itself -/
  text : Text
  deriving DecidableEq

namespace Span

/-- The span of a text that is read from `start` on. -/
def covering (start : Location) (text : Text) : Span :=
  ⟨start, start.after text, text⟩

/-- The length of a span is that of its text in bytes. -/
def byteLength (s : Span) : Nat :=
  s.text.byteLength

/-- Whether a span has no text. -/
def isEmpty (s : Span) : Bool :=
  s.text.isEmpty

/-- The form that names the fields. -/
def inspect (s : Span) : Text :=
  "Span \x7b start: ".toList ++ s.start.inspect ++ ", end: ".toList ++ s.stop.inspect ++
    ", text: ".toList ++ Text.quoted s.text ++ " \x7d".toList

end Span

end Descent
