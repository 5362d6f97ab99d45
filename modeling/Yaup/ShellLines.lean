import Yaup.Lib.Cells
import Yaup.ShellDispatch

set_option autoImplicit false

namespace Yaup.Shell

open Lib

-- read_line from the next character of stdin on, with what it leaves there.
def readLineLoop (junk : Nat → UInt8) : Bytes → Nat → Nat → Bytes → Except Undefined (Bytes × Bytes)
  | [], i, _, buff => do
      let buff ← putCell buff i 0
      return (buff, [])
  | c :: stdin, i, bufsiz, buff =>
      if c = 10 then do
        let buff ← putCell buff i 0
        return (buff, stdin)
      else do
        let buff ← putCell buff i c
        let i ← addInt i 1
        if i ≥ buffSz then
          let bufsiz ← addInt bufsiz buffSz
          readLineLoop junk stdin i bufsiz (resize junk buff bufsiz)
        else readLineLoop junk stdin i bufsiz buff

def readLineBuff (junk : Nat → UInt8) (stdin : Bytes) : Except Undefined (Bytes × Bytes) :=
  readLineLoop junk stdin 0 buffSz ((List.range buffSz).map junk)

def ptrSz : Nat := 8

-- split_line from the text that strtok has left on; a cell of tokens is a string or NULL.
def splitLoop (junk : Nat → Option Bytes) (line : Bytes) (i buffsize : Nat) (cells : List (Option Bytes)) :
    Except Undefined (List (Option Bytes)) :=
  match _ : strtok isBlank line with
  | none => putCell cells i none
  | some (token, rest) => do
      let cells ← putCell cells i (some token)
      let i ← addInt i 1
      if i ≥ buffsize then
        let buffsize ← addInt buffsize 64
        splitLoop junk rest i buffsize (resize junk cells (buffsize / ptrSz))
      else splitLoop junk rest i buffsize cells
termination_by line.length
decreasing_by all_goals exact strtok_shorter isBlank line token rest (by assumption)

def splitLineCells (junk : Nat → Option Bytes) (line : Bytes) : Except Undefined (List (Option Bytes)) :=
  splitLoop junk line 0 tokensSz ((List.range (tokensSz * ptrSz / ptrSz)).map junk)

def nextLine (stdin : Bytes) : Bytes := stdin.takeWhile fun c => c ≠ 10

def afterLine (stdin : Bytes) : Bytes := (stdin.dropWhile fun c => c ≠ 10).drop 1

def ReadLineRight (junk : Nat → UInt8) (stdin : Bytes) : Prop :=
  ∃ buff, readLineBuff junk stdin = .ok (buff, afterLine stdin) ∧ nextLine stdin ++ [0] <+: buff

-- The buffer grows by a block on each character from the 512th on; past this length its
-- size is no int any more.
def longestLine : Nat := 4194813

def grownSize (i : Nat) : Nat := buffSz * (1 + (i - 511))

structure Reading (written buff : Bytes) (bufsiz : Nat) : Prop where
  begins : written <+: buff
  grown : bufsiz = grownSize written.length
  sized : buff.length = bufsiz

theorem grown_room (i : Nat) : i < grownSize i := by
  unfold grownSize buffSz
  omega

theorem reading_start (junk : Nat → UInt8) : Reading [] ((List.range buffSz).map junk) buffSz where
  begins := List.nil_prefix
  grown := rfl
  sized := by simp

section
variable (junk : Nat → UInt8) (written buff : Bytes) (bufsiz : Nat) (reading : Reading written buff bufsiz)

include reading

theorem reading_room : written.length < buff.length := by
  rw [reading.sized, reading.grown]
  exact grown_room written.length

theorem read_line_step (c : UInt8) (stdin : Bytes) (other : c ≠ 10) (short : written.length + 1 ≤ longestLine) :
    ∃ buff' bufsiz', readLineLoop junk (c :: stdin) written.length bufsiz buff =
      readLineLoop junk stdin (written ++ [c]).length bufsiz' buff' ∧ Reading (written ++ [c]) buff' bufsiz' := by
  have room := reading_room written buff bufsiz reading
  obtain ⟨stored, put, begins, same⟩ := put_cell_extends buff written c reading.begins room
  have counted : addInt written.length 1 = .ok (written.length + 1) :=
    add_int_fits _ _ (short.trans (by decide))
  have longer : (written ++ [c]).length = written.length + 1 := by simp
  have size := reading.grown
  rw [readLineLoop, if_neg other, put]
  simp only [bind, Except.bind, counted]
  by_cases full : written.length + 1 ≥ buffSz
  · have next : bufsiz + buffSz = grownSize (written.length + 1) := by
      rw [size]
      unfold grownSize buffSz at *
      omega
    have fits : bufsiz + buffSz ≤ intMax := by
      rw [next]
      unfold grownSize buffSz longestLine intMax at *
      omega
    rw [if_pos full, add_int_fits _ _ fits, longer]
    refine ⟨_, _, rfl, ⟨?_, by rw [longer]; exact next, resize_length _ _ _⟩⟩
    refine resize_keeps junk stored _ _ begins ?_
    rw [longer, next]
    exact (grown_room _).le
  · rw [if_neg full, longer]
    refine ⟨_, _, rfl, ⟨begins, ?_, same.trans reading.sized⟩⟩
    rw [longer, size]
    unfold grownSize buffSz at *
    omega

theorem read_line_overflows (c : UInt8) (stdin : Bytes) (other : c ≠ 10) (long : written.length = longestLine) :
    readLineLoop junk (c :: stdin) written.length bufsiz buff = .error .overflow := by
  obtain ⟨stored, put, -⟩ := put_cell_extends buff written c reading.begins (reading_room written buff bufsiz reading)
  have counted : addInt written.length 1 = .ok (written.length + 1) := add_int_fits _ _ (by rw [long]; decide)
  have full : written.length + 1 ≥ buffSz := by
    rw [long]
    decide
  have large : intMax < bufsiz + buffSz := by
    rw [reading.grown, long]
    decide
  rw [readLineLoop, if_neg other, put]
  simp only [bind, Except.bind, counted, if_pos full, add_int_overflows _ _ large]

theorem terminator_fits : ∃ after, putCell buff written.length 0 = .ok after ∧ written ++ [0] <+: after := by
  have room := reading_room written buff bufsiz reading
  obtain ⟨stored, put, begins, -⟩ := put_cell_extends buff written 0 reading.begins room
  exact ⟨stored, put, begins⟩

end

theorem read_line_run (junk : Nat → UInt8) (written buff stdin : Bytes) (bufsiz : Nat) (reading : Reading written buff bufsiz)
    (fits : written.length + (nextLine stdin).length ≤ longestLine) :
    ∃ after, readLineLoop junk stdin written.length bufsiz buff = .ok (after, afterLine stdin) ∧
      written ++ nextLine stdin ++ [0] <+: after := by
  induction stdin generalizing written buff bufsiz with
  | nil =>
      obtain ⟨after, put, begins⟩ := terminator_fits written buff bufsiz reading
      refine ⟨after, ?_, by simpa [nextLine] using begins⟩
      rw [readLineLoop, put]
      rfl
  | cons c rest ih =>
      by_cases newline : c = 10
      · obtain ⟨after, put, begins⟩ := terminator_fits written buff bufsiz reading
        refine ⟨after, ?_, by simpa [nextLine, newline] using begins⟩
        rw [readLineLoop, if_pos newline, put]
        simp [bind, Except.bind, afterLine, newline, pure, Except.pure]
      · have line : nextLine (c :: rest) = c :: nextLine rest := by simp [nextLine, newline]
        have left : afterLine (c :: rest) = afterLine rest := by simp [afterLine, newline]
        rw [line, List.length_cons] at fits
        obtain ⟨buff', bufsiz', step, further⟩ := read_line_step junk written buff bufsiz reading c rest newline (by omega)
        obtain ⟨after, run, begins⟩ := ih (written ++ [c]) buff' bufsiz' further (by simp; omega)
        refine ⟨after, ?_, ?_⟩
        · rw [step, run, left]
        · rw [line]
          simpa using begins

theorem read_line_long (junk : Nat → UInt8) (written buff stdin : Bytes) (bufsiz : Nat)
    (reading : Reading written buff bufsiz)
    (room : written.length ≤ longestLine) (long : longestLine < written.length + (nextLine stdin).length) :
    readLineLoop junk stdin written.length bufsiz buff = .error .overflow := by
  induction stdin generalizing written buff bufsiz with
  | nil => exact absurd room (Nat.not_le.mpr (by simpa [nextLine] using long))
  | cons c rest ih =>
      have other : c ≠ 10 := by
        rintro rfl
        exact absurd room (Nat.not_le.mpr (by simpa [nextLine] using long))
      have line : nextLine (c :: rest) = c :: nextLine rest := by simp [nextLine, other]
      rw [line, List.length_cons] at long
      rcases Nat.lt_or_eq_of_le room with short | last
      · obtain ⟨buff', bufsiz', step, further⟩ := read_line_step junk written buff bufsiz reading c rest other short
        rw [step]
        exact ih (written ++ [c]) buff' bufsiz' further (by simp; omega) (by simp; omega)
      · exact read_line_overflows junk written buff bufsiz reading c rest other last

theorem read_line_too_long (junk : Nat → UInt8) (stdin : Bytes) (long : longestLine < (nextLine stdin).length) :
    readLineBuff junk stdin = .error .overflow :=
  read_line_long junk [] _ stdin buffSz (reading_start junk) (Nat.zero_le _) (by simpa using long)

theorem read_line_right_iff (junk : Nat → UInt8) (stdin : Bytes) :
    ReadLineRight junk stdin ↔ (nextLine stdin).length ≤ longestLine := by
  constructor
  · rintro ⟨buff, done, -⟩
    by_contra long
    cases (read_line_too_long junk stdin (Nat.not_le.mp long)).symm.trans done
  · intro fits
    obtain ⟨after, done, begins⟩ := read_line_run junk [] _ stdin buffSz (reading_start junk) (by simpa using fits)
    exact ⟨after, done, begins⟩

-- A line of a character more: with its last one the size of the buffer comes to 2 ^ 31.
theorem long_line_overflows : ¬ReadLineRight (fun _ => 0) (List.replicate 4194814 97) := by
  rintro ⟨buff, done, -⟩
  have whole : (nextLine (List.replicate 4194814 97)).length = 4194814 := by
    rw [nextLine, List.takeWhile_replicate]
    exact List.length_replicate
  have long : longestLine < (nextLine (List.replicate 4194814 97)).length := by
    rw [whole]
    decide
  cases (read_line_too_long (fun _ => 0) _ long).symm.trans done

theorem read_line_string (junk : Nat → UInt8) (stdin : Bytes) (right : ReadLineRight junk stdin) :
    ∃ buff, readLineBuff junk stdin = .ok (buff, afterLine stdin) ∧ (buff.takeWhile fun c => c ≠ 0) = readLine stdin := by
  obtain ⟨buff, done, after, rfl⟩ := right
  refine ⟨_, done, ?_⟩
  rw [readLine, List.append_assoc]
  change (nextLine stdin ++ ([0] ++ after)).takeWhile _ = (nextLine stdin).takeWhile _
  rw [List.takeWhile_append]
  split
  · rename_i whole
    rw [(List.takeWhile_prefix _).eq_of_length whole]
    exact List.append_nil _
  · rfl

def runs (line : Bytes) : List Bytes := (line.splitOnP isBlank).filter fun run => run ≠ []

def SplitRight (junk : Nat → Option Bytes) (line : Bytes) : Prop :=
  ∃ cells, splitLineCells junk line = .ok cells ∧ (runs line).map some ++ [none] <+: cells

-- Where the loop stands after the tokens `stored`, as long as its block is the first one.
structure Splitting (stored : List Bytes) (cells : List (Option Bytes)) : Prop where
  begins : stored.map some <+: cells
  sized : cells.length = tokensSz
  room : stored.length < tokensSz

theorem split_outside (junk : Nat → Option Bytes) (line : Bytes) (i buffsize : Nat) (cells : List (Option Bytes))
    (beyond : cells.length ≤ i) : splitLoop junk line i buffsize cells = .error .outside := by
  rw [splitLoop]
  split
  · exact put_cell_outside cells i none beyond
  · rename_i token rest _
    rw [put_cell_outside cells i (some token) beyond]
    rfl

theorem split_end (junk : Nat → Option Bytes) (line : Bytes) (i buffsize : Nat) (cells : List (Option Bytes))
    (ended : strtok isBlank line = none) : splitLoop junk line i buffsize cells = putCell cells i none := by
  rw [splitLoop]
  split
  · rfl
  · rename_i called
    cases ended.symm.trans called

section
variable (junk : Nat → Option Bytes) (line token rest : Bytes) (stored : List Bytes) (cells : List (Option Bytes))
  (splitting : Splitting stored cells)

include splitting

theorem splitting_store (cell : Option Bytes) :
    ∃ after, putCell cells stored.length cell = .ok after ∧ stored.map some ++ [cell] <+: after ∧
      after.length = tokensSz := by
  have room : (stored.map some).length < cells.length := by
    rw [List.length_map, splitting.sized]
    exact splitting.room
  obtain ⟨after, put, begins, same⟩ := put_cell_extends cells (stored.map some) cell splitting.begins room
  rw [List.length_map] at put
  exact ⟨after, put, begins, same.trans splitting.sized⟩

theorem splitting_counted : addInt stored.length 1 = .ok (stored.length + 1) :=
  add_int_fits _ _ (Nat.le_trans splitting.room (by decide))

theorem split_step (called : strtok isBlank line = some (token, rest)) (more : stored.length + 1 < tokensSz) :
    ∃ after, splitLoop junk line stored.length tokensSz cells =
      splitLoop junk rest (stored ++ [token]).length tokensSz after ∧ Splitting (stored ++ [token]) after := by
  obtain ⟨after, put, begins, size⟩ := splitting_store stored cells splitting (some token)
  have longer : (stored ++ [token]).length = stored.length + 1 := by simp
  refine ⟨after, ?_, ⟨by simpa using begins, size, by rw [longer]; exact more⟩⟩
  rw [splitLoop, longer]
  split
  · rename_i ended
    cases ended.symm.trans called
  · rename_i found
    cases found.symm.trans called
    simp only [bind, Except.bind, put, splitting_counted stored cells splitting, if_neg (Nat.not_le.mpr more), ge_iff_le]

theorem split_full (called : strtok isBlank line = some (token, rest)) (last : stored.length + 1 = tokensSz) :
    splitLoop junk line stored.length tokensSz cells = .error .outside := by
  obtain ⟨after, put, -⟩ := splitting_store stored cells splitting (some token)
  have grown : addInt tokensSz 64 = .ok 128 := by decide
  rw [splitLoop]
  split
  · rename_i ended
    cases ended.symm.trans called
  · rename_i found
    cases found.symm.trans called
    simp only [bind, Except.bind, put, splitting_counted stored cells splitting, last, ge_iff_le, le_refl, if_true, grown]
    refine split_outside junk _ _ _ _ ?_
    rw [resize_length]
    decide

end

theorem split_loop_run (junk : Nat → Option Bytes) (line : Bytes) (stored : List Bytes) (cells : List (Option Bytes))
    (splitting : Splitting stored cells) (few : stored.length + (words line).length < tokensSz) :
    ∃ after, splitLoop junk line stored.length tokensSz cells = .ok after ∧
      (stored ++ words line).map some ++ [none] <+: after := by
  have unfolded := tokens_strtok isBlank line
  match called : strtok isBlank line with
  | none =>
      rw [called] at unfolded
      obtain ⟨after, put, begins, -⟩ := splitting_store stored cells splitting none
      refine ⟨after, ?_, ?_⟩
      · rw [split_end junk line _ _ cells called, put]
      · rw [words, unfolded, List.append_nil]
        exact begins
  | some (token, rest) =>
      rw [called] at unfolded
      have count : (words line).length = (words rest).length + 1 := by
        rw [words, unfolded]
        rfl
      obtain ⟨next, step, further⟩ := split_step junk line token rest stored cells splitting called (by omega)
      obtain ⟨after, run, begins⟩ := split_loop_run junk rest (stored ++ [token]) next further (by simp; omega)
      refine ⟨after, step.trans run, ?_⟩
      rw [words, unfolded]
      simpa [words] using begins
termination_by line.length
decreasing_by exact strtok_shorter isBlank line token rest called

theorem split_loop_many (junk : Nat → Option Bytes) (line : Bytes) (stored : List Bytes) (cells : List (Option Bytes))
    (splitting : Splitting stored cells) (many : tokensSz ≤ stored.length + (words line).length) :
    splitLoop junk line stored.length tokensSz cells = .error .outside := by
  have unfolded := tokens_strtok isBlank line
  have room := splitting.room
  match called : strtok isBlank line with
  | none =>
      rw [called] at unfolded
      rw [words, unfolded, List.length_nil] at many
      omega
  | some (token, rest) =>
      rw [called] at unfolded
      have count : (words line).length = (words rest).length + 1 := by
        rw [words, unfolded]
        rfl
      rcases Nat.lt_or_eq_of_le (Nat.succ_le_of_lt room) with more | last
      · obtain ⟨next, step, further⟩ := split_step junk line token rest stored cells splitting called more
        rw [step]
        exact split_loop_many junk rest (stored ++ [token]) next further (by simp; omega)
      · exact split_full junk line token rest stored cells splitting called last
termination_by line.length
decreasing_by exact strtok_shorter isBlank line token rest called

theorem splitting_start (junk : Nat → Option Bytes) : Splitting [] ((List.range (tokensSz * ptrSz / ptrSz)).map junk) where
  begins := List.nil_prefix
  sized := by simp [tokensSz, ptrSz]
  room := by decide

theorem words_runs (line : Bytes) : words line = runs line := tokens_runs isBlank line

theorem split_many_outside (junk : Nat → Option Bytes) (line : Bytes) (many : tokensSz ≤ (words line).length) :
    splitLineCells junk line = .error .outside :=
  split_loop_many junk line [] _ (splitting_start junk) (by simpa using many)

theorem split_right_iff (junk : Nat → Option Bytes) (line : Bytes) :
    SplitRight junk line ↔ (runs line).length < tokensSz := by
  rw [SplitRight, ← words_runs]
  constructor
  · rintro ⟨cells, done, -⟩
    by_contra many
    cases (split_many_outside junk line (Nat.not_lt.mp many)).symm.trans done
  · intro few
    obtain ⟨after, done, begins⟩ := split_loop_run junk line [] _ (splitting_start junk) (by simpa using few)
    exact ⟨after, done, begins⟩

-- "a " 64 times: the NULL behind the words is stored past the 16 cells that realloc left.
theorem sixty_four_words_outside : ¬SplitRight (fun _ => none) (List.replicate 64 [97, 32]).flatten := by
  rintro ⟨cells, done, -⟩
  cases (split_many_outside (fun _ => none) _ (by decide)).symm.trans done

theorem split_line_cells (junk : Nat → Option Bytes) (line : Bytes) (s : State) :
    (splitLine line).run s =
      match splitLineCells junk line with
      | .ok _ => .ok (runs line) s
      | .error _ => .error .fault s := by
  rw [← words_runs, split_line_run]
  by_cases many : tokensSz ≤ (words line).length
  · rw [split_many_outside junk line many, if_pos many]
  · obtain ⟨after, done, -⟩ := split_loop_run junk line [] _ (splitting_start junk) (by simpa using many)
    change splitLineCells junk line = .ok after at done
    rw [done, if_neg many]

end Yaup.Shell
