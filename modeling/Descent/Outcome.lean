import Descent.Text

/-!
# Outcomes

What a parser answers: a value and the rest of the text, or a failure that names the place where
the text stands and perhaps says what was expected there. By construction only a success has a
value and only a failure has a message.

* `failAt`: how a failure is handed on by a parser that gives back everything it consumed.
-/

namespace Descent

/-- The outcome of a parser with values in `α`. -/
inductive Outcome (α : Type) where
  /-- The parser found `value` and left `rest`. -/
  | success (value : α) (rest : Text)
  /-- The parser found nothing. -/
  | failure (rest : Text) (message : Option Text)
  deriving DecidableEq

namespace Outcome

variable {α β : Type}

/-! ## Parts -/

/-- Whether the parser found a value. -/
def isSuccess : Outcome α → Bool
  | success _ _ => true
  | failure _ _ => false

/-- The text that is left. -/
def rest : Outcome α → Text
  | success _ rest => rest
  | failure rest _ => rest

/-- The value, if there is one. -/
def value? : Outcome α → Option α
  | success value _ => some value
  | failure _ _ => none

/-- The message, if there is one. -/
def message? : Outcome α → Option Text
  | success _ _ => none
  | failure _ message => message

/-- Whether the parser found a value and left nothing. -/
def isComplete (o : Outcome α) : Bool :=
  o.isSuccess && o.rest.isEmpty

/-! ## Operations -/

/-- Applies `f` to the value, if there is one. -/
def map (f : α → β) : Outcome α → Outcome β
  | success value rest => success (f value) rest
  | failure rest message => failure rest message

/-- The failure of a parser that was given `input`, because a part of it had this outcome. The
message is kept. -/
def failAt (input : Text) (o : Outcome α) : Outcome β :=
  failure input o.message?

@[simp] theorem failAt_failure (input rest : Text) (message : Option Text) :
    (failure rest message : Outcome α).failAt input = (failure input message : Outcome β) := rfl

@[simp] theorem rest_map (f : α → β) (o : Outcome α) : (o.map f).rest = o.rest := by
  cases o <;> rfl

@[simp] theorem isSuccess_map (f : α → β) (o : Outcome α) :
    (o.map f).isSuccess = o.isSuccess := by
  cases o <;> rfl

@[simp] theorem message?_map (f : α → β) (o : Outcome α) :
    (o.map f).message? = o.message? := by
  cases o <;> rfl

@[simp] theorem map_id (o : Outcome α) : o.map id = o := by
  cases o <;> rfl

theorem map_map {γ : Type} (f : α → β) (g : β → γ) (o : Outcome α) :
    (o.map f).map g = o.map (g ∘ f) := by
  cases o <;> rfl

/-! ## Written form -/

/-- The written form of an optional part. -/
def inspectOption (write : α → Text) : Option α → Text
  | none => "None".toList
  | some a => "Some(".toList ++ write a ++ ")".toList

/-- The form that names the fields, given how values are written. -/
def inspect (write : α → Text) (o : Outcome α) : Text :=
  "ParseResult \x7b success: ".toList ++ (toString o.isSuccess).toList ++ ", value: ".toList ++
    inspectOption write o.value? ++ ", rest: ".toList ++ Text.quoted o.rest ++
    ", message: ".toList ++ inspectOption Text.quoted o.message? ++ " \x7d".toList

end Outcome

end Descent
