import Descent.Parser.Basic

/-!
# Error reports

What is told about a text that could not be parsed: a place in the text, what went wrong there, and
the lines around the place with a pointer below the character that is meant.

Places are byte offsets. An offset is found from the rest of the text that was left over, or from
the location that a parser had counted to; such a location may lie behind the end of the text.

* `Place.location`: the location of an offset.
* `Place.contextLines`: the lines around a place.
* `Reply.finish`: what the reply of a parser means for a text that should be parsed as a whole.
-/

namespace Descent

/-! ## Places -/

/-- A place in a text. -/
structure Place where
  /-- the text -/
  code : Text
  /-- the offset in bytes -/
  offset : Nat
  deriving DecidableEq

namespace Place

/-- The place where `rest` starts, if `rest` is the end of `code`. Only its length counts. -/
def ofRest (code rest : Text) : Place :=
  ⟨code, code.byteLength - rest.byteLength⟩

/-- The number of bytes up to the first character whose location is not before `target`, where
the text starts at `l`. If there is none, this is the length of the text. -/
def offsetOf (target l : Location) : Text → Nat
  | [] => 0
  | c :: s => if target ≤ l then 0 else c.utf8Size + offsetOf target (l.step c) s

/-- The place of a location. -/
def ofLocation (code : Text) (target : Location) : Place :=
  ⟨code, offsetOf target .start code⟩

/-- The location of a place. An offset past the end of the text or inside a character stands for the
end of the text. -/
def location (p : Place) : Location :=
  Location.start.after ((p.code.bytePrefix? p.offset).getD p.code)

/-! ## Context -/

/-- How many lines are shown on each side of a place. -/
def contextSize : Nat := 2

/-- What stands in front of a line. -/
def margin (marked : Bool) (number : Nat) : Text :=
  (if marked then "  > ".toList else "    ".toList) ++ Text.decimal number ++ " | ".toList

/-- The pointer below a column of a line with the given margin. -/
def pointer (margin : Text) (col : Nat) : Text :=
  List.replicate (margin.length + col - 1) ' ' ++ "^--- here".toList

/-- A line of the context. Below the line of the place stands the pointer. -/
def contextLine (here : Location) (number : Nat) (line : Text) : List Text :=
  if number + contextSize < here.line ∨ here.line + contextSize < number then []
  else if number = here.line then
    [margin true number ++ line, pointer (margin true number) here.col]
  else [margin false number ++ line]

/-- The lines around a place. -/
def contextLines (p : Place) : List Text :=
  let here := p.location
  (p.code.lines.zipIdx 1).flatMap fun (line, number) => contextLine here number line

/-- The form that names the fields. -/
def inspect (p : Place) : Text :=
  "CodeLoc \x7b code: ".toList ++ Text.quoted p.code ++ ", loc: ".toList ++
    Text.decimal p.offset ++ " \x7d".toList

end Place

/-! ## Errors -/

/-- Why a text could not be parsed. -/
inductive ParseError where
  /-- A parser said what it expected. -/
  | expected (message : Text) (place : Place)
  /-- No parser matched. -/
  | noMatch (place : Place)
  /-- Something was left over. -/
  | trailingInput (place : Place)
  deriving DecidableEq

namespace ParseError

/-- The place of an error. -/
def place : ParseError → Place
  | expected _ place => place
  | noMatch place => place
  | trailingInput place => place

/-- The location of an error. -/
def location (e : ParseError) : Location :=
  e.place.location

/-- A place in words. -/
def placeText (p : Place) : Text :=
  " at line ".toList ++ Text.decimal p.location.line ++ ", column ".toList ++
    Text.decimal p.location.col ++ " (absolute position: ".toList ++ Text.decimal p.offset ++
    ")".toList

/-- The first line of an error's report. -/
def headline : ParseError → Text
  | expected message _ => message
  | noMatch place => "No match".toList ++ placeText place
  | trailingInput place => "Unexpected trailing input".toList ++ placeText place

/-- The report of an error: its headline, an empty line, and the lines around its place. -/
def report (e : ParseError) : Text :=
  (e.headline :: [] :: e.place.contextLines).flatMap (· ++ ['\n'])

/-- The form that names the fields. -/
def inspect : ParseError → Text
  | expected message place =>
    "Expected \x7b message: ".toList ++ Text.quoted message ++ ", loc: ".toList ++ place.inspect ++
      " \x7d".toList
  | noMatch place => "NoMatch(".toList ++ place.inspect ++ ")".toList
  | trailingInput place => "TrailingInput(".toList ++ place.inspect ++ ")".toList

end ParseError

/-! ## Whole texts -/

/-- What the reply of a parser means for a text that should be parsed as a whole. A failure is
placed where the parser had counted to, something left over where it starts. -/
def Reply.finish {α : Type} (input : Text) (r : Reply Location α) : Except ParseError α :=
  match r.outcome with
  | .failure _ (some message) => .error (.expected message (.ofLocation input r.clock))
  | .failure _ none => .error (.noMatch (.ofLocation input r.clock))
  | .success value [] => .ok value
  | .success _ rest => .error (.trailingInput (.ofRest input rest))

end Descent
