import Descent.Regex.Compile

/-!
# Programs that start with an assertion

The instructions of an expression refer to one another by distance, and none of them goes back over
the first one. So a program runs behind another instruction as it runs alone, with every address one
further. If that instruction asserts the start of the text, the threads get past it at the start of
the text and nowhere else. Hence the program finds the match that the expression has at the front of
the text, if it has one there, and no other match.

* `staysBehind_code`: the instructions of an expression do not go back over what stands before them.
* `Program.IsTail.step`, `Program.IsTail.run`: a program behind one more instruction.
* `find?_atTextStart`: searching for an expression at the start of the text is searching for the
  expression and accepting a match at the front only.
-/

namespace Descent.Regex

/-! ## Distances -/

namespace Instr

/-- How far an instruction goes back. -/
def reach : Instr → Nat
  | back n => n
  | loop _ n => n
  | _ => 0

/-- Behind one more instruction, a jump goes one further. This is where jumps may not reach too far
back. -/
theorem targets_succ {i : Instr} {pc : Nat} (h : i.reach ≤ pc) (g : Gap) :
    i.targets g (pc + 1) = (i.targets g pc).map (· + 1) := by
  cases i with
  | read s => rfl
  | check a =>
    simp only [targets]
    split <;> rfl
  | jump n => simp only [targets, List.map_cons, List.map_nil]; congr 1; omega
  | back n =>
    have hback : pc + 1 - n = pc - n + 1 := Nat.succ_sub h
    simp only [targets, List.map_cons, List.map_nil, hback]
  | skip greedy n =>
    have hskip : pc + 1 + 1 + n = pc + 1 + n + 1 := by omega
    cases greedy <;> simp [targets, ordered, hskip]
  | loop greedy n =>
    have hback : pc + 1 - n = pc - n + 1 := Nat.succ_sub h
    cases greedy <;> simp [targets, ordered, hback]
  | accept => rfl

theorem arrivals_succ (i : Instr) (g : Gap) (pc : Nat) :
    i.arrivals g (pc + 1) = (i.arrivals g pc).map (· + 1) := by
  cases i with
  | read s =>
    simp only [arrivals]
    split <;> rfl
  | _ => rfl

end Instr

/-- Whether no instruction behind the first `n` ones goes back over the front. -/
def StaysBehind : Nat → List Instr → Prop
  | _, [] => True
  | n, i :: instrs => i.reach ≤ n ∧ StaysBehind (n + 1) instrs

theorem StaysBehind.mono {instrs : List Instr} {m n : Nat} (h : StaysBehind m instrs)
    (hmn : m ≤ n) : StaysBehind n instrs := by
  induction instrs generalizing m n with
  | nil => trivial
  | cons i instrs ih => exact ⟨Nat.le_trans h.1 hmn, ih h.2 (Nat.succ_le_succ hmn)⟩

theorem StaysBehind.append {instrs others : List Instr} {n : Nat} (h : StaysBehind n instrs)
    (hothers : StaysBehind (n + instrs.length) others) : StaysBehind n (instrs ++ others) := by
  induction instrs generalizing n with
  | nil => exact hothers
  | cons i instrs ih =>
    refine ⟨h.1, ih h.2 (hothers.mono ?_)⟩
    rw [List.length_cons]
    omega

theorem StaysBehind.getElem {instrs : List Instr} {n pc : Nat} (h : StaysBehind n instrs)
    (hpc : pc < instrs.length) : instrs[pc].reach ≤ n + pc := by
  induction instrs generalizing n pc with
  | nil => cases hpc
  | cons i instrs ih =>
    cases pc with
    | zero => exact h.1
    | succ pc =>
      have := ih h.2 (Nat.lt_of_succ_lt_succ hpc)
      rw [List.getElem_cons_succ]
      omega

theorem StaysBehind.replicate {round : List Instr} (h : StaysBehind 0 round) (n : Nat) :
    StaysBehind 0 (List.replicate n round).flatten := by
  induction n with
  | zero => trivial
  | succ n ih =>
    rw [List.replicate_succ, List.flatten_cons]
    exact h.append (ih.mono (Nat.zero_le _))

theorem StaysBehind.optionalRounds {round rest : List Instr} (hround : StaysBehind 0 round)
    (hrest : StaysBehind 0 rest) (greedy : Bool) (n length : Nat) :
    StaysBehind 0 (optionalRounds greedy round n length rest) := by
  induction n generalizing length rest with
  | zero => exact hrest
  | succ n ih =>
    have hskip : StaysBehind 0 (.skip greedy (round.length + length) :: (round ++ rest)) :=
      ⟨Nat.zero_le _, (hround.mono (Nat.zero_le _)).append (hrest.mono (Nat.zero_le _))⟩
    exact ih hskip _

theorem StaysBehind.repetition {round : List Instr} (h : StaysBehind 0 round) (rep : Repetition)
    (isConsuming : Bool) : StaysBehind 0 (rep.code isConsuming round) := by
  unfold Repetition.code
  split
  · have hrest : StaysBehind 0 [] := trivial
    exact (h.replicate _).append ((h.optionalRounds hrest _ _ _).mono (Nat.zero_le _))
  · split
    · next hmin =>
      refine (h.replicate _).append ⟨?_, trivial⟩
      have hlength : (List.replicate rep.min round).flatten.length = rep.min * round.length := by
        simp
      rw [hlength, Instr.reach, Nat.zero_add]
      exact Nat.le_mul_of_pos_left _ hmin
    · refine ⟨Nat.zero_le _, (h.mono (Nat.zero_le _)).append ⟨?_, trivial⟩⟩
      split <;> simp only [Instr.reach] <;> omega

/-- No expression has a program that goes back over what stands before it. -/
theorem staysBehind_code (r : Regex) : StaysBehind 0 (code r) := by
  induction r with
  | empty => trivial
  | literal s =>
    rw [code]
    induction s with
    | nil => trivial
    | cons c s ih => exact ⟨Nat.zero_le _, ih.mono (Nat.zero_le _)⟩
  | set s => exact ⟨Nat.zero_le _, trivial⟩
  | assertion a => exact ⟨Nat.zero_le _, trivial⟩
  | group index r ih => exact ih
  | repetition rep r ih => exact ih.repetition rep _
  | seq a b iha ihb => exact iha.append (ihb.mono (Nat.zero_le _))
  | alt a b iha ihb =>
    refine ⟨Nat.zero_le _, (iha.mono (Nat.zero_le _)).append ⟨Nat.zero_le _, ?_⟩⟩
    exact ihb.mono (Nat.zero_le _)

/-! ## Programs behind an instruction -/

/-- The threads one address further. -/
def Step.shift (r : Step) : Step :=
  { r with threads := r.threads.map (· + 1) }

namespace Program

/-- The program `q` is `p` behind one more instruction, and `p` never goes back over it. -/
structure IsTail (p q : Program) : Prop where
  size : q.code.size = p.code.size + 1
  instr (pc : Nat) (h : pc < p.code.size) : q.code[pc + 1] = p.code[pc]
  reach (pc : Nat) (h : pc < p.code.size) : p.code[pc].reach ≤ pc

variable {p q : Program}

/-- By induction as the program is followed: both runs have seen the same instructions. -/
theorem IsTail.follow (h : p.IsTail q) (g : Gap) (seen : Std.HashSet Nat) (next todo : List Nat)
    {seen' : Std.HashSet Nat} (hseen : ∀ pc, pc + 1 ∈ seen' ↔ pc ∈ seen) :
    q.follow g seen' (next.map (· + 1)) (todo.map (· + 1)) = (p.follow g seen next todo).shift := by
  fun_induction p.follow g seen next todo generalizing seen' with
  | case1 seen next =>
    rw [List.map_nil, Program.follow, ← List.map_reverse]
    rfl
  | case2 seen next pc todo hs ih =>
    rw [List.map_cons, Program.follow, dif_pos ((hseen pc).mpr hs)]
    exact ih hseen
  | case3 seen next pc todo hs hp i =>
    rename_i haccepts
    have hs' : pc + 1 ∉ seen' := fun h => hs ((hseen pc).mp h)
    have hp' : pc + 1 < q.code.size := by rw [h.size]; omega
    rw [List.map_cons, Program.follow, dif_neg hs', dif_pos hp']
    simp only [h.instr pc hp]
    rw [if_pos haccepts, ← List.map_reverse]
    rfl
  | case4 seen next pc todo hs hp i haccepts =>
    rename_i ih
    have hs' : pc + 1 ∉ seen' := fun h => hs ((hseen pc).mp h)
    have hp' : pc + 1 < q.code.size := by rw [h.size]; omega
    rw [List.map_cons, Program.follow, dif_neg hs', dif_pos hp']
    simp only [h.instr pc hp]
    rw [if_neg haccepts, Instr.targets_succ (h.reach pc hp), Instr.arrivals_succ, ← List.map_append,
      ← List.map_append]
    -- The address of the instruction in front is never asked for: no thread comes back to it.
    refine ih fun pc' => ?_
    simp only [Std.HashSet.mem_insert, hseen]
    simp
  | case5 seen next pc todo hs hp ih =>
    have hs' : pc + 1 ∉ seen' := fun h => hs ((hseen pc).mp h)
    have hp' : ¬ pc + 1 < q.code.size := by rw [h.size]; omega
    rw [List.map_cons, Program.follow, dif_neg hs', dif_neg hp']
    exact ih hseen

theorem IsTail.step (h : p.IsTail q) (g : Gap) (threads : List Nat) :
    q.step g (threads.map (· + 1)) = (p.step g threads).shift :=
  h.follow g ∅ [] threads (by simp)

/-- So a match is found by both programs, or by neither, and with the same length. -/
theorem IsTail.run (h : p.IsTail q) (before : Option Char) (threads : List Nat) (n : Nat)
    (best : Option Nat) (s : Text) :
    q.run before (threads.map (· + 1)) n best s = p.run before threads n best s := by
  induction s generalizing before threads n best with
  | nil =>
    rw [Program.run, Program.run, h.step]
    rfl
  | cons c s ih =>
    simp only [Program.run, h.step, Step.shift, List.isEmpty_map, ih]

/-- A match at the front of a text, seen as a match in the text. -/
theorem filter_find?_eq_map (p : Program) (s : Text) :
    (p.find? s).filter (·.start = 0) = (p.matchFrom? none s).map (⟨0, ·⟩) := by
  have hlength := p.filter_find? s
  rcases hm : (p.find? s).filter (·.start = 0) with _ | ⟨start, length⟩
  · rw [hm] at hlength
    rw [hm, ← hlength]
    rfl
  · have hstart : start = 0 := by simpa using (Option.filter_eq_some_iff.mp hm).2
    rw [hm] at hlength
    rw [hm, ← hlength, hstart]
    rfl

end Program

/-! ## The start of the text -/

theorem code_atTextStart (r : Regex) : code r.atTextStart = .check .textStart :: code r := by
  rw [atTextStart, code_concat]
  simp [code]

theorem toProgram_isTail_atTextStart (r : Regex) : r.toProgram.IsTail r.atTextStart.toProgram where
  size := by simp [toProgram, code_atTextStart]
  instr pc h := by simp [toProgram, code_atTextStart]
  reach pc h := by
    have haccept : StaysBehind 0 (code r ++ [.accept]) :=
      (staysBehind_code r).append ⟨Nat.zero_le _, trivial⟩
    have hpc : pc < (code r ++ [Instr.accept]).length := by simpa [toProgram] using h
    simpa [toProgram] using haccept.getElem hpc

theorem step_atTextStart (r : Regex) (g : Gap) :
    r.atTextStart.toProgram.step g [0] =
      if g.before.isNone then (r.toProgram.step g [0]).shift else ⟨[], false⟩ := by
  have hsize : 0 < r.atTextStart.toProgram.code.size := by
    rw [r.toProgram_isTail_atTextStart.size]
    omega
  have hfirst : r.atTextStart.toProgram.code[0] = .check .textStart := by
    simp [toProgram, code_atTextStart]
  rw [Program.step, Program.follow, dif_neg (by simp), dif_pos hsize]
  simp only [hfirst]
  split
  · next haccepts => cases haccepts
  · split
    · next hstart =>
      have hseen (pc : Nat) :
          pc + 1 ∈ (∅ : Std.HashSet Nat).insert 0 ↔ pc ∈ (∅ : Std.HashSet Nat) := by simp
      have htargets : (Instr.check .textStart).targets g 0 = [1] := if_pos hstart
      rw [htargets]
      exact r.toProgram_isTail_atTextStart.follow g ∅ [] [0] hseen
    · next hstart =>
      have htargets : (Instr.check .textStart).targets g 0 = [] := if_neg hstart
      rw [htargets]
      exact Program.follow.eq_1 ..

/-- Only at the start of the text the check lets the rest of the program begin. -/
theorem matchFrom?_atTextStart (r : Regex) (before : Option Char) (s : Text) :
    r.atTextStart.toProgram.matchFrom? before s =
      if before.isNone then r.toProgram.matchFrom? before s else none := by
  cases before with
  | none =>
    cases s with
    | nil =>
      simp only [Program.matchFrom?, Program.run, step_atTextStart]
      rfl
    | cons c s =>
      simp only [Program.matchFrom?, Program.run, step_atTextStart, Option.isNone_none, if_true,
        Step.shift, List.isEmpty_map, r.toProgram_isTail_atTextStart.run]
  | some b =>
    cases s with
    | nil =>
      simp only [Program.matchFrom?, Program.run, step_atTextStart]
      rfl
    | cons c s =>
      simp only [Program.matchFrom?, Program.run, step_atTextStart]
      rfl

/-- A search for matches where the text starts is a search of which only a match at the front
counts. -/
theorem find?_atTextStart (r : Regex) (s : Text) :
    r.atTextStart.toProgram.find? s = (r.toProgram.find? s).filter (·.start = 0) := by
  have hbehind (c : Char) (s : Text) : r.atTextStart.toProgram.findFrom? (some c) s = none := by
    induction s generalizing c with
    | nil =>
      rw [Program.findFrom?, matchFrom?_atTextStart]
      rfl
    | cons d s ih =>
      rw [Program.findFrom?, matchFrom?_atTextStart, ih]
      rfl
  rw [Program.filter_find?_eq_map, Program.find?]
  cases s with
  | nil =>
    rw [Program.findFrom?, matchFrom?_atTextStart]
    rfl
  | cons c s =>
    rw [Program.findFrom?, matchFrom?_atTextStart, hbehind]
    cases r.toProgram.matchFrom? none (c :: s) <;> rfl

end Descent.Regex
