import Yaup.Lib.Cells
import Yaup.Lib.Ctype
import Yaup.Lib.Lines
import Yaup.Lib.Outcome

set_option autoImplicit false

namespace Yaup.Busybox

open Lib

-- The pointer is moved on before the character is looked at.
def isBlank : Bytes → Option Bool
  | [] => none
  | c :: line =>
      if c = 0 then some true
      else
        match line with
        | [] => none
        | next :: _ => if isblank next then isBlank line else some false

-- A read of a whole line, into a buffer that grows with it. At the end of the file there is
-- none, and the buffer stays as it was.
def getline (file : Stream) (buff : Option Bytes) : Stream × Option Bytes :=
  let line := readLine (file.rest.length + 1) file.rest
  ({ rest := line.2.1, eof := file.eof || line.2.2 }, if line.1 = [] then buff else some (line.1 ++ [0]))

inductive NlPrint where
  | numbered (n : Nat) (line : Bytes)
  | empty
deriving DecidableEq

-- *buff, or none where it is not a string.
def nlTurn (n : Nat) (buff : Option Bytes) : Except Undefined (NlPrint × Nat) :=
  match buff with
  | none => .error .outside
  | some buff =>
      match isBlank buff with
      | none => .error .outside
      | some true => .ok (.empty, n)
      | some false => do
          let n ← addInt n 1
          if 0 ∈ buff then return (.numbered n (buff.takeWhile fun c => c ≠ 0), n) else .error .outside

theorem getline_left (file : Stream) (buff : Option Bytes) (more : file.eof = false) :
    (getline file buff).1.left < file.left :=
  fgets_left (file.rest.length + 2) file [] (by omega) more

def nlLoop (n : Nat) (fp : Stream) (buff : Option Bytes) : Except Undefined (List NlPrint) :=
  if _more : fp.eof = false then do
    let (print, n) ← nlTurn n (getline fp buff).2
    let prints ← nlLoop n (getline fp buff).1 (getline fp buff).2
    return print :: prints
  else .ok []
termination_by fp.left
decreasing_by exact getline_left fp buff _more

-- `first` is what the block has in its first cell before the first getline, NULL or a block.
def nl (first : Option Bytes) (contents : Bytes) : Except Undefined (List NlPrint) :=
  nlLoop 0 { rest := contents, eof := false } first

def HasText (line : Bytes) : Prop := ∃ c ∈ line, isblank c = false ∧ c ≠ 10

instance (line : Bytes) : Decidable (HasText line) :=
  inferInstanceAs (Decidable (∃ c ∈ line, isblank c = false ∧ c ≠ 10))

def numberLines : Nat → List Bytes → List NlPrint
  | _, [] => []
  | n, line :: later =>
      if HasText line then .numbered (n + 1) line :: numberLines (n + 1) later else .empty :: numberLines n later

def NlRight (first : Option Bytes) (contents : Bytes) : Prop :=
  nl first contents = .ok (numberLines 0 (fullLines contents))

structure NlLine (n : Nat) (line : Bytes) : Prop where
  plain : 0 ∉ line
  text : HasText line
  fits : n + 1 ≤ Lib.intMax

structure NlGuard (n : Nat) (contents : Bytes) : Prop where
  begun : contents ≠ []
  ended : contents.getLast? ≠ some 10
  plain : 0 ∉ contents
  text : ∀ line ∈ fullLines contents, HasText line
  fits : n + (fullLines contents).length ≤ Lib.intMax

theorem is_blank_string (line : Bytes) : isBlank (line ++ [0]) = some (decide ((line ++ [0]).head? = some 0)) := by
  induction line with
  | nil => rfl
  | cons c line ih =>
      by_cases nul : c = 0
      · subst nul
        cases line <;> rfl
      · have head : decide ((c :: line ++ [0]).head? = some 0) = false := by simpa using nul
        rw [head]
        cases line with
        | nil =>
            rw [List.singleton_append, isBlank, if_neg nul]
            rfl
        | cons next line =>
            rw [List.cons_append, List.cons_append, isBlank, if_neg nul]
            by_cases blank : isblank next = true
            · have other : next ≠ 0 := by
                rintro rfl
                cases blank
              have tail : decide ((next :: line ++ [0]).head? = some 0) = false := by simpa using other
              rw [if_pos blank, ← List.cons_append, ih, tail]
            · rw [if_neg blank]

theorem nl_turn_numbers (n : Nat) (line : Bytes) (begun : line ≠ []) (right : NlLine n line) :
    nlTurn n (some (line ++ [0])) = .ok (.numbered (n + 1) line, n + 1) := by
  have head : decide ((line ++ [0]).head? = some 0) = false := by
    cases line with
    | nil => exact absurd rfl begun
    | cons c line =>
        have other : c ≠ 0 := fun same => right.plain (same ▸ List.mem_cons_self)
        simpa using other
  have member : (0 : UInt8) ∈ line ++ [0] := List.mem_append_right _ (List.mem_singleton_self 0)
  rw [nlTurn, is_blank_string, head]
  simp only [add_int_fits n 1 right.fits, if_pos member, take_while_until line [] 0 right.plain]
  rfl

theorem nl_turn_right (n m : Nat) (line : Bytes) (print : NlPrint) (begun : line ≠ [])
    (done : nlTurn n (some (line ++ [0])) = .ok (print, m))
    (right : print = if HasText line then .numbered (n + 1) line else .empty) : NlLine n line := by
  rw [nlTurn, is_blank_string] at done
  by_cases nul : (line ++ [0]).head? = some 0
  · simp only [decide_eq_true nul] at done
    cases done
    have text : HasText line := by
      cases line with
      | nil => exact absurd rfl begun
      | cons c line =>
          cases nul
          exact ⟨0, List.mem_cons_self, by decide, by decide⟩
    rw [if_pos text] at right
    cases right
  · have member : (0 : UInt8) ∈ line ++ [0] := List.mem_append_right _ (List.mem_singleton_self 0)
    simp only [decide_eq_false nul, if_pos member] at done
    by_cases fits : n + 1 ≤ Lib.intMax
    · rw [add_int_fits n 1 fits] at done
      cases done
      by_cases text : HasText line
      · rw [if_pos text] at right
        have whole := (NlPrint.numbered.inj right).2
        refine ⟨fun inside => ?_, text, fits⟩
        obtain ⟨before, behind, parts, plain⟩ := List.eq_append_cons_of_mem inside
        rw [parts, List.append_assoc, List.cons_append, take_while_until before _ 0 plain] at whole
        simpa using congrArg List.length whole
      · rw [if_neg text] at right
        cases right
    · rw [add_int_overflows n 1 (Nat.not_le.mp fits)] at done
      cases done

theorem number_lines_cons (n : Nat) (line : Bytes) (later : List Bytes) :
    numberLines n (line :: later) =
      (if HasText line then .numbered (n + 1) line else .empty) ::
        numberLines (if HasText line then n + 1 else n) later := by
  rw [numberLines]
  split <;> rfl

theorem nl_loop_end (n : Nat) (rest : Bytes) (buff : Option Bytes) :
    nlLoop n { rest, eof := true } buff = .ok [] := by
  rw [nlLoop, dif_neg (by simp)]

theorem nl_loop_turn (n : Nat) (fp : Stream) (buff : Option Bytes) (prints : List NlPrint) (more : fp.eof = false) :
    nlLoop n fp buff = .ok prints ↔
      ∃ print m later, nlTurn n (getline fp buff).2 = .ok (print, m) ∧
        nlLoop m (getline fp buff).1 (getline fp buff).2 = .ok later ∧ prints = print :: later := by
  rw [nlLoop, dif_pos more, except_bind_ok]
  constructor
  · rintro ⟨⟨print, m⟩, turn, rest⟩
    obtain ⟨later, behind, done⟩ := (except_bind_ok _ _ _).mp rest
    cases done
    exact ⟨print, m, later, turn, behind, rfl⟩
  · rintro ⟨print, m, later, turn, behind, rfl⟩
    exact ⟨(print, m), turn, (except_bind_ok _ _ _).mpr ⟨later, behind, rfl⟩⟩

theorem getline_last (line : Bytes) (buff : Option Bytes) (begun : line ≠ []) (plain : 10 ∉ line) :
    getline { rest := line, eof := false } buff = ({ rest := [], eof := true }, some (line ++ [0])) := by
  have read := read_line_end (line.length + 1) line plain (Nat.le_succ _)
  rw [decide_eq_true (Nat.lt_succ_self _)] at read
  simp only [getline, read, if_neg begun, Bool.or_true]

theorem getline_next (line rest : Bytes) (buff : Option Bytes) (plain : 10 ∉ line) :
    getline { rest := line ++ 10 :: rest, eof := false } buff =
      ({ rest, eof := false }, some (line ++ [10] ++ [0])) := by
  have read := read_line_newline ((line ++ 10 :: rest).length + 1) line rest plain
    (by rw [List.length_append, List.length_cons]; omega)
  simp only [getline, read, Bool.or_false, if_neg (show line ++ [10] ≠ [] by simp)]

theorem nl_guard_last (n : Nat) (line : Bytes) (begun : line ≠ []) (plain : 10 ∉ line) :
    NlGuard n line ↔ NlLine n line := by
  have whole := full_lines_last line begun plain
  constructor
  · intro guard
    have fits := guard.fits
    rw [whole] at fits
    exact ⟨guard.plain, guard.text line (whole ▸ List.mem_singleton_self line), fits⟩
  · intro right
    refine ⟨begun, fun last => plain (List.mem_of_getLast? last), right.plain, ?_, ?_⟩
    · rw [whole]
      intro other member
      rw [List.mem_singleton.mp member]
      exact right.text
    · rw [whole]
      exact right.fits

theorem nl_guard_next (n : Nat) (line rest : Bytes) (plain : 10 ∉ line) :
    NlGuard n (line ++ 10 :: rest) ↔ NlLine n (line ++ [10]) ∧ NlGuard (n + 1) rest := by
  have parts := full_lines_next line rest plain
  have whole : line ++ 10 :: rest = line ++ [10] ++ rest := by simp
  constructor
  · intro guard
    have ⟨_, ended, clear, text, fits⟩ := guard
    rw [parts, List.length_cons] at fits
    rw [parts] at text
    rw [whole] at ended clear
    have begun : rest ≠ [] := by
      rintro rfl
      simp at ended
    refine ⟨⟨fun inside => clear (List.mem_append_left _ inside), text _ List.mem_cons_self, by omega⟩,
      begun, ?_, fun inside => clear (List.mem_append_right _ inside),
      fun other member => text other (List.mem_cons_of_mem _ member), by omega⟩
    rwa [List.getLast?_append_of_ne_nil _ begun] at ended
  · rintro ⟨right, guard⟩
    refine ⟨by simp, ?_, ?_, ?_, ?_⟩
    · rw [whole, List.getLast?_append_of_ne_nil _ guard.begun]
      exact guard.ended
    · rw [whole]
      intro inside
      rcases List.mem_append.mp inside with first | later
      · exact right.plain first
      · exact guard.plain later
    · rw [parts]
      intro other member
      rcases List.mem_cons.mp member with rfl | later
      · exact right.text
      · exact guard.text other later
    · have fits := guard.fits
      rw [parts, List.length_cons]
      omega

-- By induction on the file, a line a turn. Behind a newline at its end the loop takes one
-- turn too many.
theorem nl_loop_right (n : Nat) (contents : Bytes) (buff : Option Bytes) :
    nlLoop n { rest := contents, eof := false } buff = .ok (numberLines n (fullLines contents)) ↔ NlGuard n contents := by
  induction contents using lines_induction generalizing n buff with
  | last contents plain =>
      rw [nl_loop_turn n _ buff _ rfl]
      by_cases begun : contents = []
      · subst begun
        constructor
        · rintro ⟨print, m, later, -, -, same⟩
          cases same
        · exact fun guard => absurd rfl guard.begun
      · rw [getline_last contents buff begun plain, nl_guard_last n contents begun plain,
          full_lines_last contents begun plain, number_lines_cons]
        constructor
        · rintro ⟨print, m, later, turn, -, same⟩
          exact nl_turn_right n m contents print begun turn (List.cons.inj same).1.symm
        · intro right
          rw [if_pos right.text, if_pos right.text]
          exact ⟨_, _, [], nl_turn_numbers n contents begun right, nl_loop_end _ _ _, rfl⟩
  | next line rest plain ih =>
      have begun : line ++ [10] ≠ [] := by simp
      rw [nl_loop_turn n _ buff _ rfl, getline_next line rest buff plain, nl_guard_next n line rest plain,
        full_lines_next line rest plain, number_lines_cons]
      constructor
      · rintro ⟨print, m, later, turn, behind, same⟩
        have right := nl_turn_right n m _ print begun turn (List.cons.inj same).1.symm
        rw [nl_turn_numbers n _ begun right] at turn
        cases turn
        rw [← (List.cons.inj same).2, if_pos right.text] at behind
        exact ⟨right, (ih (n + 1) _).mp behind⟩
      · rintro ⟨right, guard⟩
        rw [if_pos right.text, if_pos right.text]
        exact ⟨_, _, _, nl_turn_numbers n _ begun right, (ih (n + 1) _).mpr guard, rfl⟩

theorem nl_right_iff (first : Option Bytes) (contents : Bytes) : NlRight first contents ↔ NlGuard 0 contents :=
  nl_loop_right 0 contents first

-- "a" and a newline: the line comes out again behind itself.
theorem nl_repeats_last : ¬NlRight none [97, 10] := by
  intro right
  exact ((nl_right_iff none _).mp right).ended rfl

end Yaup.Busybox
