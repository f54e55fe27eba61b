import Descent.Regex.Basic
import Std.Data.HashSet

/-!
# Programs

A regular expression is matched by a program that several threads run in lockstep. A thread is the
address of the instruction that it comes to next. The threads are in order of preference: an earlier
branch of a choice comes before a later one, and a greedy repetition starts another round before it
goes on. At each place of the text every thread is followed up to the instructions that read a
character. Of two threads that meet at an instruction the preferred one goes on, and a thread that
accepts ends all threads behind it.

The instructions refer to one another by distance, so a program does not depend on where it stands.

* `code`: the instructions of an expression, and `code_concat`: those of expressions that follow one
  another.
* `Program.matchFrom?`: the length of the preferred match at the front of a text.
* `Program.matchFrom?_le_length`: a match ends within the text.
* `Program.find?`: the leftmost match in a text.
* `Program.filter_find?`: searching for a match at the front is the same as matching there.
-/

namespace Descent.Regex

/-- An instruction of a program. -/
inductive Instr where
  /-- reads a character of a set -/
  | read (s : CharSet)
  /-- goes on where an assertion holds -/
  | check (a : Assertion)
  /-- passes over the next `n` instructions -/
  | jump (n : Nat)
  /-- goes back over the last `n` instructions -/
  | back (n : Nat)
  /-- goes on, or passes over the next `n` instructions; `greedy` tells whether rather the former -/
  | skip (greedy : Bool) (n : Nat)
  /-- goes back over the last `n` instructions, or goes on; `greedy` tells whether rather the
  former -/
  | loop (greedy : Bool) (n : Nat)
  /-- accepts what has been read -/
  | accept

/-! ## Code -/

/-- At most `n` more rounds of the instructions `round` before the instructions `rest`, whose number
is `length`. Each of these rounds can be left out together with all that stands behind it. -/
def optionalRounds (greedy : Bool) (round : List Instr) : Nat → Nat → List Instr → List Instr
  | 0, _, rest => rest
  | n + 1, length, rest =>
    optionalRounds greedy round n (round.length + length + 1)
      (.skip greedy (round.length + length) :: (round ++ rest))

/-- The instructions of a repetition, where `round` are the instructions of one round, and
`isConsuming` tells whether every round takes a character. If so, a loop comes back to where it was
entered; otherwise it has to be told apart whether a round is the first one. -/
def Repetition.code (rep : Repetition) (isConsuming : Bool) (round : List Instr) : List Instr :=
  match rep.max with
  | some n =>
    (List.replicate rep.min round).flatten ++ optionalRounds rep.greedy round (n - rep.min) 0 []
  | none =>
    if 0 < rep.min then (List.replicate rep.min round).flatten ++ [.loop rep.greedy round.length]
    else
      .skip rep.greedy (round.length + 1) ::
        (round ++ [if isConsuming then .back (round.length + 1) else .loop rep.greedy round.length])

/-- The instructions of an expression. They are entered at the first one and left behind the
last. -/
def code : Regex → List Instr
  | empty => []
  | literal s => s.map fun c => .read (.single c)
  | set s => [.read s]
  | assertion a => [.check a]
  | group _ r => code r
  | repetition rep r => rep.code r.isConsuming (code r)
  | seq a b => code a ++ code b
  | alt a b => .skip true ((code a).length + 1) :: (code a ++ .jump (code b).length :: code b)

theorem code_ofParts (rs : List Regex) : code (ofParts rs) = rs.flatMap code := by
  induction rs with
  | nil => rfl
  | cons r rs ih =>
    cases rs with
    | nil => simp [ofParts]
    | cons q rs =>
      rw [ofParts, code, ih]
      rfl

theorem flatMap_code_parts (r : Regex) : r.parts.flatMap code = code r := by
  fun_induction parts r with
  | case1 => rfl
  | case2 a b ih => rw [List.flatMap_cons, ih, code]
  | case3 r => simp

theorem flatMap_code_consPart (r : Regex) (rs : List Regex) :
    (consPart r rs).flatMap code = code r ++ rs.flatMap code := by
  unfold consPart
  split <;> simp [code, List.append_assoc]

/-- Expressions that follow one another have their instructions one after the other. -/
theorem code_concat (rs : List Regex) : code (concat rs) = rs.flatMap code := by
  have h (qs : List Regex) : (qs.foldr consPart []).flatMap code = qs.flatMap code := by
    induction qs with
    | nil => rfl
    | cons q qs ih => rw [List.foldr_cons, flatMap_code_consPart, ih, List.flatMap_cons]
  rw [concat, code_ofParts, h, List.flatMap_assoc]
  simp only [flatMap_code_parts]

/-- A program. -/
structure Program where
  /-- its instructions -/
  code : Array Instr

/-- The program of an expression. -/
def toProgram (r : Regex) : Program :=
  ⟨(code r ++ [Instr.accept]).toArray⟩

/-! ## Steps -/

namespace Instr

/-- The two addresses in order of preference. -/
def ordered (greedy : Bool) (a b : Nat) : List Nat :=
  if greedy then [a, b] else [b, a]

/-- Where the thread at the address `pc` goes without reading a character, in order of
preference. -/
def targets (g : Gap) (pc : Nat) : Instr → List Nat
  | read _ => []
  | check a => if a.holds g then [pc + 1] else []
  | jump n => [pc + 1 + n]
  | back n => [pc - n]
  | skip greedy n => ordered greedy (pc + 1) (pc + 1 + n)
  | loop greedy n => ordered greedy (pc - n) (pc + 1)
  | accept => []

/-- Where the thread at the address `pc` goes by reading the character behind the place. -/
def arrivals (g : Gap) (pc : Nat) : Instr → List Nat
  | read s => if g.behind.any s.contains then [pc + 1] else []
  | _ => []

/-- Whether the instruction accepts. -/
def accepts : Instr → Bool
  | accept => true
  | _ => false

end Instr

/-- What becomes of threads at a place of the text. -/
structure Step where
  /-- the threads that have read the next character -/
  threads : List Nat
  /-- whether a thread has accepted -/
  accepted : Bool

/-- A condition that fails for one more member of a list holds for fewer members of it. -/
theorem countP_lt_countP_of_mem {p q : Nat → Bool} {l : List Nat} {n : Nat}
    (hqp : ∀ m, q m = true → p m = true) (hn : n ∈ l) (hp : p n = true) (hq : q n = false) :
    l.countP q < l.countP p := by
  induction l with
  | nil => cases hn
  | cons m l ih =>
    have hle : l.countP q ≤ l.countP p := List.countP_mono_left fun m _ => hqp m
    rw [List.countP_cons, List.countP_cons]
    rcases List.mem_cons.mp hn with rfl | hn
    · rw [if_pos hp, if_neg (by simp [hq])]
      omega
    · have := ih hn
      by_cases hm : q m = true
      · rw [if_pos hm, if_pos (hqp m hm)]
        omega
      · rw [if_neg hm]
        omega

namespace Program

/-- The number of instructions that are not in `seen`. -/
def unseen (p : Program) (seen : Std.HashSet Nat) : Nat :=
  (List.range p.code.size).countP (· ∉ seen)

theorem unseen_insert_lt (p : Program) {seen : Std.HashSet Nat} {pc : Nat} (hs : pc ∉ seen)
    (hp : pc < p.code.size) : p.unseen (seen.insert pc) < p.unseen seen := by
  refine countP_lt_countP_of_mem (fun m hm => ?_) (List.mem_range.mpr hp) (by simpa using hs)
    (by simp)
  simp only [decide_eq_true_eq, Std.HashSet.mem_insert, not_or] at hm ⊢
  exact hm.2

/-- Follows the threads `todo` at a place of the text. The instructions in `seen` have been reached
before; `next` are the threads that have read the next character, the last one first. -/
def follow (p : Program) (g : Gap) (seen : Std.HashSet Nat) (next todo : List Nat) : Step :=
  match todo with
  | [] => ⟨next.reverse, false⟩
  | pc :: todo =>
    if hs : pc ∈ seen then p.follow g seen next todo
    else if hp : pc < p.code.size then
      let i := p.code[pc]
      if i.accepts then ⟨next.reverse, true⟩
      else
        p.follow g (seen.insert pc) (i.arrivals g pc ++ next) (i.targets g pc ++ todo)
    else p.follow g seen next todo
termination_by (p.unseen seen, todo.length)
decreasing_by
  · simp_wf; exact Prod.Lex.right _ (by simp)
  · exact Prod.Lex.left _ _ (p.unseen_insert_lt hs hp)
  · simp_wf; exact Prod.Lex.right _ (by simp)

/-- Lets the threads pass a place of the text. -/
def step (p : Program) (g : Gap) (threads : List Nat) : Step :=
  p.follow g ∅ [] threads

/-! ## Matches -/

/-- The length of the preferred match, where the threads have come `n` characters far, `before` is
the last of them, and `best` is the preferred match up to here. A thread that is preferred to the
one that accepts may still find another match. -/
def run (p : Program) (before : Option Char) (threads : List Nat) (n : Nat) (best : Option Nat) :
    Text → Option Nat
  | [] => if (p.step ⟨before, none⟩ threads).accepted then some n else best
  | c :: s =>
    let r := p.step ⟨before, some c⟩ threads
    let best := if r.accepted then some n else best
    if r.threads.isEmpty then best else p.run (some c) r.threads (n + 1) best s

/-- The length of the preferred match at the front of a text, where `before` is the character before
the text. -/
def matchFrom? (p : Program) (before : Option Char) (s : Text) : Option Nat :=
  p.run before [0] 0 none s

/-- A match ends within the text. -/
theorem run_le (p : Program) {before : Option Char} {threads : List Nat} {n m : Nat}
    {best : Option Nat} {s : Text} (hbest : ∀ k, best = some k → k ≤ n)
    (h : p.run before threads n best s = some m) : m ≤ n + s.length := by
  induction s generalizing before threads n best with
  | nil =>
    rw [run] at h
    split at h
    · exact Nat.le_of_eq (Option.some.inj h).symm
    · exact hbest m h
  | cons c s ih =>
    rw [run] at h
    have hbest' (r : Step) : ∀ k, (if r.accepted then some n else best) = some k → k ≤ n := by
      intro k hk
      split at hk
      · exact Nat.le_of_eq (Option.some.inj hk).symm
      · exact hbest k hk
    simp only [List.length_cons]
    split at h
    · have := hbest' _ m h
      omega
    · have := ih (fun k hk => Nat.le_succ_of_le (hbest' _ k hk)) h
      omega

theorem matchFrom?_le_length (p : Program) {before : Option Char} {s : Text} {n : Nat}
    (h : p.matchFrom? before s = some n) : n ≤ s.length := by
  simpa using p.run_le (by simp) h

end Program

/-- A match in a text. -/
structure Match where
  /-- the number of characters before the match -/
  start : Nat
  /-- the number of characters of the match -/
  length : Nat
  deriving DecidableEq

namespace Program

/-- The leftmost match in a text that has `before` in front of it. -/
def findFrom? (p : Program) (before : Option Char) : Text → Option Match
  | [] => (p.matchFrom? before []).map (⟨0, ·⟩)
  | c :: s =>
    match p.matchFrom? before (c :: s) with
    | some n => some ⟨0, n⟩
    | none => (p.findFrom? (some c) s).map fun m => { m with start := m.start + 1 }

/-- The leftmost match in a text, and of those that start there the preferred one. -/
def find? (p : Program) (s : Text) : Option Match :=
  p.findFrom? none s

/-- A search that accepts only matches at the front of the text finds the preferred match there: a
leftmost match starts at the front if there is any match that does. -/
theorem filter_find? (p : Program) (s : Text) :
    ((p.find? s).filter (·.start = 0)).map (·.length) = p.matchFrom? none s := by
  cases s with
  | nil => cases h : p.matchFrom? none [] <;> simp [find?, findFrom?, h, Option.filter]
  | cons c s =>
    cases h : p.matchFrom? none (c :: s) with
    | some n => simp [find?, findFrom?, h, Option.filter]
    | none => cases h' : p.findFrom? (some c) s <;> simp [find?, findFrom?, h, h', Option.filter]

end Program

end Descent.Regex
