/-!
# Text

Texts are lists of characters: parsers eat them from the front, and the part that is left over is
again a text. Offsets into a text are counted in bytes of its UTF-8 form, so this module has the
byte length of a text and the prefix that ends at a byte offset, besides its lines and two ways
to write values down: numerals and quoted text.

* `byteLength_append`: byte lengths add up.
* `length_lt_iff_of_suffix`: for the ends of a text, bytes and characters tell the same.
* `bytePrefix?_append`: a text can be cut at the end of each of its prefixes.
-/

namespace Descent

/-- A text is the list of its characters. -/
abbrev Text := List Char

namespace Text

/-! ## Bytes -/

/-- The number of bytes of the UTF-8 form of a text. -/
def byteLength : Text → Nat
  | [] => 0
  | c :: s => c.utf8Size + byteLength s

@[simp] theorem byteLength_nil : byteLength [] = 0 := rfl

@[simp] theorem byteLength_cons (c : Char) (s : Text) :
    byteLength (c :: s) = c.utf8Size + byteLength s := rfl

@[simp] theorem byteLength_append (s t : Text) :
    byteLength (s ++ t) = byteLength s + byteLength t := by
  induction s with
  | nil => simp
  | cons c s ih => simp [ih, Nat.add_assoc]

theorem eq_nil_of_byteLength_eq_zero {s : Text} (h : byteLength s = 0) : s = [] := by
  cases s with
  | nil => rfl
  | cons c s =>
    have hc : 0 < c.utf8Size := c.utf8Size_pos
    rw [byteLength_cons] at h
    omega

theorem byteLength_cons_ne (c : Char) (s : Text) : byteLength s ≠ byteLength (c :: s) := by
  have hc : 0 < c.utf8Size := c.utf8Size_pos
  rw [byteLength_cons]
  omega

/-- An end of a text that has fewer characters has fewer bytes. -/
theorem byteLength_lt_of_suffix {s rest : Text} (h : rest <:+ s) (hlen : rest.length < s.length) :
    byteLength rest < byteLength s := by
  obtain ⟨front, rfl⟩ := h
  have hbytes := byteLength_append front rest
  have hfront : byteLength front ≠ 0 := by
    intro hzero
    rw [eq_nil_of_byteLength_eq_zero hzero] at hlen
    exact Nat.lt_irrefl _ hlen
  omega

/-- For the end of a text it makes no difference whether bytes or characters are counted. -/
theorem length_lt_iff_of_suffix {s rest : Text} (h : rest <:+ s) :
    rest.length < s.length ↔ byteLength rest ≠ byteLength s := by
  constructor
  · intro hlen
    exact Nat.ne_of_lt (byteLength_lt_of_suffix h hlen)
  · intro hbytes
    refine Nat.lt_of_le_of_ne h.length_le fun hlen => hbytes ?_
    rw [h.eq_of_length hlen]

/-- The prefix of `s` that takes exactly `n` bytes. There is none when `n` lies past the end of
`s`, or inside one of its characters. -/
def bytePrefix? : Text → Nat → Option Text
  | _, 0 => some []
  | [], _ + 1 => none
  | c :: s, n + 1 =>
    if c.utf8Size ≤ n + 1 then (bytePrefix? s (n + 1 - c.utf8Size)).map (c :: ·) else none

@[simp] theorem bytePrefix?_zero (s : Text) : bytePrefix? s 0 = some [] := by
  cases s <;> rfl

/-- The end of a prefix is a place where the text can be cut. -/
theorem bytePrefix?_append (s t : Text) : bytePrefix? (s ++ t) (byteLength s) = some s := by
  induction s with
  | nil => simp
  | cons c s ih =>
    have hc : 0 < c.utf8Size := c.utf8Size_pos
    obtain ⟨n, hn⟩ : ∃ n, c.utf8Size + byteLength s = n + 1 :=
      ⟨c.utf8Size + byteLength s - 1, by omega⟩
    have hle : c.utf8Size ≤ n + 1 := by omega
    have hsub : n + 1 - c.utf8Size = byteLength s := by omega
    simp [hn, bytePrefix?, hle, hsub, ih]

/-! ## Lines -/

/-- The lines of a text: the parts between its newlines. There is always one more line than there
are newlines, so the empty text has one empty line. -/
def lines : Text → List Text
  | [] => [[]]
  | c :: s =>
    if c = '\n' then [] :: lines s
    else match lines s with
      | [] => [[c]]
      | line :: rest => (c :: line) :: rest

theorem lines_ne_nil (s : Text) : lines s ≠ [] := by
  cases s with
  | nil => simp [lines]
  | cons c s =>
    rw [lines]
    split
    · simp
    · split <;> simp

/-- The part of a text after its last newline; all of it if it has none. -/
def lastLine (s : Text) : Text :=
  (s.reverse.takeWhile (· ≠ '\n')).reverse

/-! ## Numerals and quotes -/

/-- The decimal numeral of a number. -/
def decimal (n : Nat) : Text :=
  Nat.toDigits 10 n

/-- The number that a text of decimal digits writes down. -/
def decimalValue (s : Text) : Nat :=
  s.foldl (fun n c => 10 * n + (c.toNat - '0'.toNat)) 0

/-- The hexadecimal numeral of a number. -/
def hexadecimal (n : Nat) : Text :=
  Nat.toDigits 16 n

/-- How a character is written between double quotes: the quote, the backslash and the common
control characters get a backslash, other control characters are written by their code. -/
def quotedChar (c : Char) : Text :=
  if c = '"' then ['\\', '"']
  else if c = '\\' then ['\\', '\\']
  else if c = '\n' then ['\\', 'n']
  else if c = '\t' then ['\\', 't']
  else if c = '\r' then ['\\', 'r']
  else if c = '\x00' then ['\\', '0']
  else if c.toNat < 32 ∨ c.toNat = 127 then
    ['\\', 'u', '\x7b'] ++ hexadecimal c.toNat ++ ['\x7d']
  else [c]

/-- A text between double quotes. -/
def quoted (s : Text) : Text :=
  '"' :: s.flatMap quotedChar ++ ['"']

end Text

end Descent
