import Mathlib.Data.List.Basic
import Mathlib.Data.List.TakeWhile

set_option autoImplicit false

namespace Yaup.Lib

abbrev Bytes := List UInt8

-- strcmp(left, right) == 0 over two buffers; none is a read past the end of one of them.
def sameString : Bytes → Bytes → Option Bool
  | [], _ => none
  | _ :: _, [] => none
  | a :: left, b :: right =>
      if a ≠ b then some false else if a = 0 then some true else sameString left right

-- A buffer that holds the string `text`: the text, its NUL and whatever lies after it.
def Holds (buffer text : Bytes) : Prop := ∃ after, buffer = text ++ 0 :: after

theorem holds_text (text after : Bytes) : Holds (text ++ 0 :: after) text := ⟨after, rfl⟩

theorem holds_shown (text after : Bytes) : Holds (text ++ 0 :: after) (text.takeWhile fun byte => byte ≠ 0) := by
  induction text with
  | nil => exact ⟨after, rfl⟩
  | cons byte rest ih =>
      by_cases nul : byte = 0
      · subst nul
        exact ⟨rest ++ 0 :: after, by simp⟩
      · obtain ⟨more, whole⟩ := ih
        refine ⟨more, ?_⟩
        rw [List.takeWhile_cons_of_pos (by simpa using nul), List.cons_append, List.cons_append, whole]

theorem take_while_plain (text : Bytes) (byte : UInt8) : byte ∉ text.takeWhile fun other => other ≠ byte := by
  intro member
  simpa using List.mem_takeWhile_imp member

theorem take_while_whole (text : Bytes) (byte : UInt8) (plain : byte ∉ text) :
    (text.takeWhile fun other => other ≠ byte) = text :=
  List.takeWhile_eq_self_iff.mpr fun _ member => decide_eq_true fun same => plain (same ▸ member)

theorem take_while_until (text more : Bytes) (byte : UInt8) (plain : byte ∉ text) :
    ((text ++ byte :: more).takeWhile fun other => other ≠ byte) = text := by
  induction text with
  | nil => exact List.takeWhile_cons_of_neg (by simp)
  | cons first rest ih =>
      have other : first ≠ byte := fun same => plain (same ▸ List.mem_cons_self)
      rw [List.cons_append, List.takeWhile_cons_of_pos (by simpa using other), ih (List.not_mem_of_not_mem_cons plain)]

theorem same_string_texts (left right a b : Bytes) (leftPlain : 0 ∉ a) (rightPlain : 0 ∉ b)
    (leftHolds : Holds left a) (rightHolds : Holds right b) : sameString left right = some (decide (a = b)) := by
  obtain ⟨leftAfter, rfl⟩ := leftHolds
  obtain ⟨rightAfter, rfl⟩ := rightHolds
  induction a generalizing b with
  | nil =>
      cases b with
      | nil => simp [sameString]
      | cons byte rest =>
          have plain : 0 ≠ byte := fun same => rightPlain (same ▸ List.mem_cons_self)
          simp [sameString, plain]
  | cons first tail ih =>
      have firstPlain : first ≠ 0 := fun same => leftPlain (same ▸ List.mem_cons_self)
      cases b with
      | nil => simp [sameString, firstPlain]
      | cons byte rest =>
          by_cases same : first = byte
          · subst same
            have deeper := ih rest (List.not_mem_of_not_mem_cons leftPlain)
              (List.not_mem_of_not_mem_cons rightPlain)
            simpa [sameString, firstPlain] using deeper
          · simp [sameString, same]

-- An open file: the bytes still to read, and the flag that feof looks at.
structure Stream where
  rest : Bytes
  eof : Bool

def readLine : Nat → Bytes → Bytes × Bytes × Bool
  | 0, rest => ([], rest, false)
  | _ + 1, [] => ([], [], true)
  | n + 1, byte :: rest =>
      if byte = 10 then ([byte], rest, false)
      else
        let line := readLine n rest
        (byte :: line.1, line.2)

-- fgets(buffer, n, file): at the end of the file it leaves the buffer as it was.
def fgets (n : Nat) (file : Stream) (buffer : Bytes) : Stream × Bytes :=
  let line := readLine (n - 1) file.rest
  ({ rest := line.2.1, eof := file.eof || line.2.2 },
    if line.1 = [] then buffer else line.1 ++ 0 :: buffer.drop (line.1.length + 1))

theorem read_line_rest (n : Nat) (rest : Bytes) :
    (readLine n rest).2.1.length + (readLine n rest).1.length = rest.length := by
  induction rest generalizing n with
  | nil => cases n <;> rfl
  | cons byte tail ih =>
      cases n with
      | zero => rfl
      | succ n =>
          rw [readLine]
          by_cases newline : byte = 10
          · rw [if_pos newline]
            rfl
          · have deeper := ih n
            rw [if_neg newline]
            simp only [List.length_cons]
            omega

theorem read_line_empty (n : Nat) (rest : Bytes) (some : 0 < n) (empty : (readLine n rest).1 = []) :
    (readLine n rest).2.2 = true := by
  cases n with
  | zero => omega
  | succ n =>
      cases rest with
      | nil => rfl
      | cons byte tail =>
          rw [readLine] at empty
          split at empty <;> cases empty

def Stream.left (file : Stream) : Nat := file.rest.length + if file.eof then 0 else 1

theorem fgets_left (n : Nat) (file : Stream) (buffer : Bytes) (room : 1 < n) (more : file.eof = false) :
    (fgets n file buffer).1.left < file.left := by
  have total := read_line_rest (n - 1) file.rest
  have stopped := read_line_empty (n - 1) file.rest (by omega)
  simp only [fgets, Stream.left, more, Bool.false_or]
  cases read : (readLine (n - 1) file.rest).1 with
  | nil =>
      rw [read] at total stopped
      rw [stopped rfl]
      simp only [List.length_nil] at total
      simp only [if_pos, Bool.false_eq_true, if_false]
      omega
  | cons byte tail =>
      rw [read] at total
      simp only [List.length_cons] at total
      split <;> simp <;> omega

theorem fgets_empty (n : Nat) (buffer : Bytes) (room : 1 < n) :
    fgets n { rest := [], eof := false } buffer = ({ rest := [], eof := true }, buffer) := by
  obtain ⟨m, rfl⟩ := Nat.exists_eq_add_of_le' (Nat.succ_le_of_lt room)
  rfl

theorem read_line_newline (n : Nat) (body rest : Bytes) (plain : 10 ∉ body) (fits : body.length < n) :
    readLine n (body ++ 10 :: rest) = (body ++ [10], rest, false) := by
  induction body generalizing n with
  | nil =>
      cases n with
      | zero => simp at fits
      | succ n => simp [readLine]
  | cons byte tail ih =>
      have other : byte ≠ 10 := fun same => plain (same ▸ List.mem_cons_self)
      cases n with
      | zero => simp at fits
      | succ n =>
          have deeper := ih n (List.not_mem_of_not_mem_cons plain) (Nat.lt_of_succ_lt_succ fits)
          rw [List.cons_append, readLine, if_neg other, deeper]
          rfl

theorem read_line_end (n : Nat) (body : Bytes) (plain : 10 ∉ body) (fits : body.length ≤ n) :
    readLine n body = (body, [], decide (body.length < n)) := by
  induction body generalizing n with
  | nil => cases n <;> simp [readLine]
  | cons byte tail ih =>
      have other : byte ≠ 10 := fun same => plain (same ▸ List.mem_cons_self)
      cases n with
      | zero => simp at fits
      | succ n =>
          have deeper := ih n (List.not_mem_of_not_mem_cons plain) (Nat.le_of_succ_le_succ fits)
          rw [readLine, if_neg other, deeper]
          simp

theorem read_line_full (line rest : Bytes) (plain : 10 ∉ line) :
    readLine line.length (line ++ rest) = (line, rest, false) := by
  induction line with
  | nil => rfl
  | cons byte tail ih =>
      have other : byte ≠ 10 := fun same => plain (same ▸ List.mem_cons_self)
      rw [List.cons_append, List.length_cons, readLine, if_neg other, ih (List.not_mem_of_not_mem_cons plain)]

theorem plain_not_last (line : Bytes) (plain : 10 ∉ line.dropLast) (other : line.getLast? ≠ some 10) : 10 ∉ line := by
  intro member
  obtain ⟨body, last, rfl⟩ : ∃ body last, line = body ++ [last] := by
    rcases List.eq_nil_or_concat line with rfl | ⟨body, last, same⟩
    · cases member
    · exact ⟨body, last, by simpa using same⟩
  rw [List.dropLast_concat] at plain
  rw [List.getLast?_concat] at other
  rcases List.mem_append.mp member with inside | final
  · exact plain inside
  · exact other (congrArg some (List.mem_singleton.mp final).symm)

def Closes (n : Nat) (line : Bytes) : Prop := line.getLast? = some 10 ∨ line.length = n

theorem read_line_closed (n : Nat) (line rest : Bytes) (short : line.length ≤ n) (plain : 10 ∉ line.dropLast)
    (closed : Closes n line) : readLine n (line ++ rest) = (line, rest, false) := by
  by_cases newline : line.getLast? = some 10
  · obtain ⟨body, rfl⟩ := List.getLast?_eq_some_iff.mp newline
    rw [List.dropLast_concat] at plain
    rw [List.append_assoc]
    exact read_line_newline n body rest plain (by simp at short; omega)
  · have full := closed.resolve_left newline
    subst full
    exact read_line_full line rest (plain_not_last line plain newline)

theorem read_line_open (n : Nat) (line rest : Bytes) (byte : UInt8) (plain : 10 ∉ line) (short : line.length < n) :
    ∃ more, (readLine n (line ++ byte :: rest)).1 = line ++ byte :: more := by
  induction line generalizing n with
  | nil =>
      cases n with
      | zero => cases short
      | succ n =>
          rw [List.nil_append, readLine]
          split
          · exact ⟨[], rfl⟩
          · exact ⟨_, rfl⟩
  | cons first tail ih =>
      have other : first ≠ 10 := fun same => plain (same ▸ List.mem_cons_self)
      cases n with
      | zero => cases short
      | succ n =>
          obtain ⟨more, read⟩ := ih n (List.not_mem_of_not_mem_cons plain) (Nat.lt_of_succ_lt_succ short)
          refine ⟨more, ?_⟩
          rw [List.cons_append, readLine, if_neg other]
          exact congrArg (first :: ·) read

theorem read_line_plain (n : Nat) (rest : Bytes) : 10 ∉ (readLine n rest).1.dropLast := by
  induction rest generalizing n with
  | nil =>
      cases n with
      | zero => simp [readLine]
      | succ n => simp [readLine]
  | cons byte tail ih =>
      cases n with
      | zero => simp [readLine]
      | succ n =>
          rw [readLine]
          by_cases newline : byte = 10
          · rw [if_pos newline]
            simp
          · rw [if_neg newline]
            intro member
            cases read : (readLine n tail).1 with
            | nil => simp [read] at member
            | cons next more =>
                simp only [read, List.dropLast_cons_cons] at member
                rcases List.mem_cons.mp member with same | deeper
                · exact newline same.symm
                · exact ih n (read ▸ deeper)

theorem read_line_parts (n : Nat) (rest : Bytes) : (readLine n rest).1 ++ (readLine n rest).2.1 = rest := by
  induction rest generalizing n with
  | nil => cases n <;> rfl
  | cons byte tail ih =>
      cases n with
      | zero => rfl
      | succ n =>
          rw [readLine]
          by_cases newline : byte = 10
          · rw [if_pos newline]
            rfl
          · rw [if_neg newline]
            exact congrArg (byte :: ·) (ih n)

theorem read_line_short (n : Nat) (rest : Bytes) : (readLine n rest).1.length ≤ n := by
  induction rest generalizing n with
  | nil => cases n <;> exact Nat.zero_le _
  | cons byte tail ih =>
      cases n with
      | zero => exact Nat.le_refl 0
      | succ n =>
          rw [readLine]
          by_cases newline : byte = 10
          · rw [if_pos newline]
            exact Nat.succ_le_succ (Nat.zero_le n)
          · rw [if_neg newline]
            exact Nat.succ_le_succ (ih n)

def Starts (before : Bytes) : Prop := before = [] ∨ before.getLast? = some 10

theorem starts_behind (before piece : Bytes) (starts : Starts (piece ++ before)) : Starts before := by
  cases before with
  | nil => exact .inl rfl
  | cons byte rest =>
      rcases starts with empty | last
      · simp at empty
      · rw [List.getLast?_append_of_ne_nil _ (List.cons_ne_nil byte rest)] at last
        exact .inr last

theorem read_line_before (n : Nat) (before rest : Bytes) (room : 0 < n) (some : before ≠ []) (starts : Starts before) :
    ∃ piece later, before = piece ++ later ∧ piece ≠ [] ∧
      readLine n (before ++ rest) = (piece, later ++ rest, false) := by
  have ended : before.getLast? = Option.some 10 := starts.resolve_left some
  have member : 10 ∈ before := List.mem_of_getLast? ended
  obtain ⟨line, later, rfl, plain⟩ := List.eq_append_cons_of_mem member
  by_cases fits : line.length < n
  · refine ⟨line ++ [10], later, by simp, by simp, ?_⟩
    rw [List.append_assoc, List.cons_append]
    exact read_line_newline n line (later ++ rest) plain fits
  · have full : (line.take n).length = n := List.length_take_of_le (Nat.not_lt.mp fits)
    refine ⟨line.take n, line.drop n ++ 10 :: later, ?_, ?_, ?_⟩
    · rw [← List.append_assoc, List.take_append_drop]
    · exact List.ne_nil_of_length_pos (full.symm ▸ room)
    · have read := read_line_full (line.take n) (line.drop n ++ 10 :: later ++ rest) fun inside =>
        plain (List.mem_of_mem_take inside)
      rw [full, ← List.append_assoc, ← List.append_assoc, List.take_append_drop] at read
      exact read

theorem fgets_length (n : Nat) (file : Stream) (buffer : Bytes) (room : 0 < n) (size : buffer.length = n) :
    (fgets n file buffer).2.length = n := by
  have short := read_line_short (n - 1) file.rest
  unfold fgets
  dsimp only
  split
  · exact size
  · simp only [List.length_append, List.length_cons, List.length_drop]
    omega

end Yaup.Lib
