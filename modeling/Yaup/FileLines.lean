import Yaup.Lib.Ctype
import Yaup.Session

set_option autoImplicit false

namespace Yaup.Busybox

open Lib

-- while (fgetc(stdin) != ' '); which does not end where no blank is left.
def waitBlank (stdin : Bytes) : Option Bytes :=
  if 32 ∈ stdin then some ((stdin.dropWhile fun c => c ≠ 32).drop 1) else none

-- The loop of head, where c is the first byte of fp, with what it prints and leaves in stdin.
def headLoop (lines maxLines i : Int) (stdin : Bytes) : Bytes → Option (Bytes × Bytes)
  | [] => some ([], stdin)
  | c :: fp =>
      if i < lines then do
        let i := if fp.head? = some 10 then i + 1 else i
        let stdin ← if i ≥ maxLines then waitBlank stdin else some stdin
        let (out, stdin) ← headLoop lines maxLines i stdin fp
        return (c :: out, stdin)
      else some ([], stdin)

def head (columns : Bytes) (fp : Bytes) (lines : Int) (stdin : Bytes) : Option (Bytes × Bytes) :=
  headLoop lines (atoi columns) 0 stdin fp

structure FirstLines (n : Nat) (fp out : Bytes) : Prop where
  start : out <+: fp
  lines : n ≤ out.count 10 ∨ out = fp
  shortest : ∀ other, other <+: fp → n ≤ other.count 10 → out.length ≤ other.length

def HeadRight (columns : Bytes) (n : Nat) (fp stdin : Bytes) : Prop :=
  ∃ out, head columns fp n stdin = some (out, stdin) ∧ FirstLines n fp out

-- No newline is asked for, or there are not enough, or the first byte is one and the n-th
-- has the end of the file or another newline behind it.
def HeadGuard (n : Nat) (fp : Bytes) : Prop :=
  n = 0 ∨ fp.count 10 < n ∨
    (fp.head? = some 10 ∧ ∀ before behind, fp = before ++ 10 :: behind → before.count 10 + 1 = n →
      behind = [] ∨ behind.head? = some 10)

def headPrints : Nat → Bytes → Bytes
  | 0, _ => []
  | _, [] => []
  | k + 1, c :: fp => c :: headPrints (if fp.head? = some 10 then k else k + 1) fp

theorem head_prints_none (fp : Bytes) : headPrints 0 fp = [] := by rw [headPrints]

theorem head_prints_end (k : Nat) : headPrints k [] = [] := by
  cases k with
  | zero => exact head_prints_none []
  | succ k => simp [headPrints]

theorem head_loop_prints (lines maxLines i : Int) (stdin fp : Bytes) (wide : lines < maxLines) (begun : i ≤ lines) :
    headLoop lines maxLines i stdin fp = some (headPrints (lines - i).toNat fp, stdin) := by
  induction fp generalizing i with
  | nil => rw [headLoop, head_prints_end]
  | cons c fp ih =>
      by_cases more : i < lines
      · obtain ⟨k, left⟩ : ∃ k, (lines - i).toNat = k + 1 := ⟨(lines - i).toNat - 1, by omega⟩
        rw [headLoop, if_pos more, left, headPrints]
        by_cases newline : fp.head? = some 10
        · have next := ih (i + 1) (by omega)
          rw [show (lines - (i + 1)).toNat = k by omega] at next
          simp only [if_pos newline, if_neg (show ¬i + 1 ≥ maxLines by omega),
            Option.bind_eq_bind, Option.bind_some, next]
          rfl
        · have next := ih i begun
          rw [left] at next
          simp only [if_neg newline, if_neg (show ¬i ≥ maxLines by omega),
            Option.bind_eq_bind, Option.bind_some, next]
          rfl
      · rw [headLoop, if_neg more, show (lines - i).toNat = 0 by omega, head_prints_none]

theorem head_prints_all (k : Nat) (c : UInt8) (fp : Bytes) (few : fp.count 10 ≤ k) : headPrints (k + 1) (c :: fp) = c :: fp := by
  induction fp generalizing k c with
  | nil => rw [headPrints, head_prints_end]
  | cons next fp ih =>
      rw [headPrints]
      by_cases newline : next = 10
      · subst newline
        rw [List.count_cons_self] at few
        obtain ⟨j, rfl⟩ := Nat.exists_eq_add_of_le' (Nat.one_le_of_lt few)
        rw [List.head?_cons, if_pos rfl, ih j 10 (Nat.le_of_succ_le_succ few)]
      · rw [List.count_cons_of_ne newline] at few
        rw [List.head?_cons, if_neg (by simpa using newline), ih k next few]

theorem head_prints_stops (k : Nat) (c : UInt8) (shown behind : Bytes) (count : shown.count 10 = k) :
    headPrints (k + 1) (c :: (shown ++ 10 :: behind)) = c :: shown := by
  induction shown generalizing k c with
  | nil =>
      subst count
      rw [headPrints, List.nil_append, List.head?_cons, if_pos rfl]
      exact congrArg (c :: ·) (head_prints_none _)
  | cons next shown ih =>
      rw [headPrints]
      by_cases newline : next = 10
      · subst newline
        rw [List.count_cons_self] at count
        subst count
        rw [List.cons_append, List.head?_cons, if_pos rfl, ih _ 10 rfl]
      · rw [List.count_cons_of_ne newline] at count
        rw [List.cons_append, List.head?_cons, if_neg (by simpa using newline), ih k next count]

theorem first_lines_all (n : Nat) (fp : Bytes) (few : fp.count 10 < n) : FirstLines n fp fp where
  start := List.prefix_rfl
  lines := .inr rfl
  shortest := fun _ start enough => absurd enough (Nat.not_le.mpr (Nat.lt_of_le_of_lt (start.sublist.count_le 10) few))

theorem first_lines_none (fp : Bytes) : FirstLines 0 fp [] where
  start := List.nil_prefix
  lines := .inl (Nat.zero_le _)
  shortest := fun _ _ _ => Nat.zero_le _

theorem first_lines_split (n : Nat) (before behind : Bytes) (count : before.count 10 + 1 = n) :
    FirstLines n (before ++ 10 :: behind) (before ++ [10]) where
  start := ⟨behind, by simp⟩
  lines := .inl (by simp [count])
  shortest := by
    intro other start enough
    rw [List.length_append, List.length_singleton]
    by_contra short
    have inside : other <+: before :=
      List.prefix_of_prefix_length_le start (List.prefix_append before _) (Nat.lt_succ_iff.mp (Nat.not_le.mp short))
    have fewer := inside.sublist.count_le 10
    omega

theorem first_lines_unique (n : Nat) (fp a b : Bytes) (first : FirstLines n fp a) (second : FirstLines n fp b) : a = b := by
  have enough : ∀ out, FirstLines n fp out → n ≤ fp.count 10 → n ≤ out.count 10 := by
    intro out right many
    rcases right.lines with lines | rfl
    · exact lines
    · exact many
  by_cases many : n ≤ fp.count 10
  · have length : a.length = b.length := Nat.le_antisymm
      (first.shortest b second.start (enough b second many)) (second.shortest a first.start (enough a first many))
    exact (List.prefix_of_prefix_length_le first.start second.start length.le).eq_of_length length
  · have whole : ∀ out, FirstLines n fp out → out = fp := fun out right =>
      right.lines.resolve_left fun lines => many (lines.trans (right.start.sublist.count_le 10))
    rw [whole a first, whole b second]

theorem count_split (n : Nat) (fp : Bytes) (many : n < fp.count 10) :
    ∃ before behind, fp = before ++ 10 :: behind ∧ before.count 10 = n := by
  induction fp generalizing n with
  | nil => cases many
  | cons c fp ih =>
      by_cases newline : c = 10
      · subst newline
        rw [List.count_cons_self] at many
        cases n with
        | zero => exact ⟨[], fp, rfl, rfl⟩
        | succ n =>
            obtain ⟨before, behind, rfl, count⟩ := ih n (Nat.lt_of_succ_lt_succ many)
            exact ⟨10 :: before, behind, rfl, by rw [List.count_cons_self, count]⟩
      · rw [List.count_cons_of_ne newline] at many
        obtain ⟨before, behind, rfl, count⟩ := ih n many
        exact ⟨c :: before, behind, rfl, by rw [List.count_cons_of_ne newline, count]⟩

theorem head_prints_newline (n : Nat) (before behind : Bytes) (starts : (before ++ 10 :: behind).head? = some 10)
    (count : before.count 10 + 1 = n) :
    headPrints n (before ++ 10 :: behind) = before ++ 10 :: behind.takeWhile fun c => c ≠ 10 := by
  have first : ∀ rest : Bytes, ∃ tail, before ++ 10 :: rest = 10 :: tail ∧ tail.count 10 + 1 = n + rest.count 10 := by
    intro rest
    have total : (before ++ 10 :: rest).count 10 = n + rest.count 10 := by
      rw [List.count_append, List.count_cons_self]
      omega
    cases before with
    | nil => exact ⟨rest, rfl, by simpa using total⟩
    | cons c before =>
        cases starts
        exact ⟨before ++ 10 :: rest, rfl, by simpa using total⟩
  by_cases last : 10 ∈ behind
  · obtain ⟨line, more, rfl, plain⟩ := List.eq_append_cons_of_mem last
    obtain ⟨tail, whole, lines⟩ := first line
    have total : tail.count 10 + 1 = n := by rw [lines, List.count_eq_zero_of_not_mem plain, Nat.add_zero]
    rw [take_while_until line more 10 plain]
    have parts : before ++ 10 :: (line ++ 10 :: more) = 10 :: (tail ++ 10 :: more) := by
      rw [← List.cons_append, ← List.append_assoc, whole, List.cons_append]
    rw [parts, ← total, head_prints_stops _ 10 tail more rfl, whole]
  · obtain ⟨tail, whole, lines⟩ := first behind
    have total : tail.count 10 + 1 = n := by rw [lines, List.count_eq_zero_of_not_mem last, Nat.add_zero]
    rw [take_while_whole behind 10 last, whole, ← total]
    exact head_prints_all _ 10 tail (Nat.le_refl _)

theorem head_right_prints (columns : Bytes) (n : Nat) (fp stdin : Bytes) (wide : (n : Int) < atoi columns) :
    HeadRight columns n fp stdin ↔ FirstLines n fp (headPrints n fp) := by
  have prints := head_loop_prints n (atoi columns) 0 stdin fp wide (Int.natCast_nonneg n)
  rw [Int.sub_zero, Int.toNat_natCast] at prints
  constructor
  · rintro ⟨out, done, right⟩
    rw [head, prints] at done
    cases done
    exact right
  · exact fun right => ⟨_, prints, right⟩

section
variable (n : Nat) (fp : Bytes)

theorem first_lines_shown (right : FirstLines n fp (headPrints n fp)) (before behind : Bytes)
    (whole : fp = before ++ 10 :: behind) (count : before.count 10 + 1 = n) : headPrints n fp = before ++ [10] :=
  first_lines_unique n fp _ _ right (whole ▸ first_lines_split n before behind count)

theorem head_starts (right : FirstLines n fp (headPrints n fp)) (before behind : Bytes)
    (whole : fp = before ++ 10 :: behind) (count : before.count 10 + 1 = n) : fp.head? = some 10 := by
  cases before with
  | nil => rw [whole]; rfl
  | cons c before =>
      by_contra other
      have plain : c ≠ 10 := fun same => other (by rw [whole, same]; rfl)
      have lines : before.count 10 + 1 = n := by rwa [List.count_cons_of_ne plain] at count
      have stops := head_prints_stops (before.count 10) c before behind rfl
      rw [lines, ← List.cons_append, ← whole, first_lines_shown n fp right (c :: before) behind whole count] at stops
      simpa using congrArg List.length stops

theorem head_guard_needed (right : FirstLines n fp (headPrints n fp)) : HeadGuard n fp := by
  by_cases none : n = 0
  · exact .inl none
  by_cases few : fp.count 10 < n
  · exact .inr (.inl few)
  obtain ⟨front, rest, parts, lines⟩ := count_split (n - 1) fp (by omega)
  have starts := head_starts n fp right front rest parts (by omega)
  refine .inr (.inr ⟨starts, fun before behind whole count => ?_⟩)
  have shown := head_prints_newline n before behind (whole ▸ starts) count
  rw [← whole, first_lines_shown n fp right before behind whole count] at shown
  have line : behind.takeWhile (fun c => c ≠ 10) = [] := by simpa using shown.symm
  cases behind with
  | nil => exact .inl rfl
  | cons c behind =>
      refine .inr ?_
      by_contra other
      rw [List.takeWhile_cons_of_pos (by simpa using other)] at line
      cases line

theorem head_prints_few (few : fp.count 10 < n) : headPrints n fp = fp := by
  cases fp with
  | nil => exact head_prints_end n
  | cons c fp =>
      have fewer := (List.sublist_cons_self c fp).count_le 10
      rw [show n = n - 1 + 1 by omega, head_prints_all (n - 1) c fp (by omega)]

theorem head_guard_enough (guard : HeadGuard n fp) : FirstLines n fp (headPrints n fp) := by
  by_cases none : n = 0
  · subst none
    rw [head_prints_none]
    exact first_lines_none fp
  by_cases few : fp.count 10 < n
  · rw [head_prints_few n fp few]
    exact first_lines_all n fp few
  obtain ⟨starts, adjacent⟩ := (guard.resolve_left none).resolve_left few
  obtain ⟨before, behind, whole, count⟩ := count_split (n - 1) fp (by omega)
  have lines : before.count 10 + 1 = n := by omega
  have empty : behind.takeWhile (fun c => c ≠ 10) = [] := by
    rcases adjacent before behind whole lines with rfl | next
    · rfl
    · obtain ⟨more, rfl⟩ := List.head?_eq_some_iff.mp next
      exact List.takeWhile_cons_of_neg (by simp)
  rw [whole, head_prints_newline n before behind (whole ▸ starts) lines, empty]
  exact first_lines_split n before behind lines

end

theorem head_right_iff (columns : Bytes) (n : Nat) (fp stdin : Bytes) (wide : (n : Int) < atoi columns) :
    HeadRight columns n fp stdin ↔ HeadGuard n fp := by
  rw [head_right_prints columns n fp stdin wide]
  exact ⟨head_guard_needed n fp, head_guard_enough n fp⟩

-- COLUMNS is 80, and one line is asked for of two bytes without a newline.
theorem head_right_short : HeadRight [56, 48] 1 [97, 98] [] :=
  (head_right_iff [56, 48] 1 [97, 98] [] (by decide)).mpr (.inr (.inl (by decide)))

theorem head_drops_newline :
    ¬∀ (columns : Bytes) (n : Nat) (fp stdin : Bytes), (n : Int) < atoi columns → HeadRight columns n fp stdin := by
  intro claim
  have wide : ((1 : Nat) : Int) < atoi [56, 48] := by decide
  rcases (head_right_iff [56, 48] 1 [97, 10] [] wide).mp (claim [56, 48] 1 [97, 10] [] wide) with none | few | ⟨starts, -⟩
  · cases none
  · exact absurd few (by decide)
  · exact absurd starts (by decide)

end Yaup.Busybox
