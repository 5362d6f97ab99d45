import Yaup.Lib.Cells
import Yaup.Lib.Ctype
import Yaup.Lib.Outcome
import Yaup.Lib.Text

set_option autoImplicit false

namespace Yaup.Busybox

open Lib

structure Counts where
  bytes : Nat
  words : Nat
  lines : Nat
deriving DecidableEq

def countIf (test : Bool) (n : Nat) : Except Undefined Nat := if test then addInt n 1 else .ok n

def wcTurn (n : Counts) (c : UInt8) : Except Undefined Counts := do
  let bytes ← countIf (isalnum c || ispunct c) n.bytes
  let words ← countIf (isblank c) n.words
  let lines ← countIf (c = 10) n.lines
  return ⟨bytes, words, lines⟩

def wc (fp : Bytes) : Except Undefined Counts := fp.foldlM wcTurn ⟨0, 0, 0⟩

def wordRuns (fp : Bytes) : List Bytes := (fp.splitOnP fun c => isblank c || c = 10).filter fun run => run ≠ []

def WcRight (fp : Bytes) : Prop := wc fp = .ok ⟨fp.length, (wordRuns fp).length, fp.count 10⟩

theorem count_if_done (test : Bool) (n m : Nat) (done : countIf test n = .ok m) : m = n + test.toNat := by
  cases test with
  | false => exact (Except.ok.inj done).symm
  | true =>
      rw [countIf, if_pos rfl, addInt] at done
      split at done
      · exact (Except.ok.inj done).symm
      · cases done

theorem wc_turn_counts (n m : Counts) (c : UInt8) (done : wcTurn n c = .ok m) :
    m.bytes = n.bytes + (isgraph c).toNat ∧ m.words = n.words + (isblank c).toNat ∧
      m.lines = n.lines + (decide (c = 10)).toNat := by
  rw [wcTurn] at done
  obtain ⟨b, bytes, done⟩ := (except_bind_ok _ _ _).mp done
  obtain ⟨w, words, done⟩ := (except_bind_ok _ _ _).mp done
  obtain ⟨l, lines, done⟩ := (except_bind_ok _ _ _).mp done
  cases done
  exact ⟨count_if_done _ _ _ bytes, count_if_done _ _ _ words, count_if_done _ _ _ lines⟩

theorem wc_counts (fp : Bytes) (n m : Counts) (done : fp.foldlM wcTurn n = .ok m) :
    m.bytes = n.bytes + fp.countP isgraph ∧ m.words = n.words + fp.countP isblank ∧ m.lines = n.lines + fp.count 10 := by
  induction fp generalizing n with
  | nil =>
      cases done
      exact ⟨rfl, rfl, rfl⟩
  | cons c fp ih =>
      rw [List.foldlM_cons] at done
      obtain ⟨next, turn, behind⟩ := (except_bind_ok _ _ _).mp done
      obtain ⟨bytes, words, lines⟩ := wc_turn_counts n next c turn
      obtain ⟨moreBytes, moreWords, moreLines⟩ := ih next behind
      rw [List.countP_cons, List.countP_cons, List.count_cons, moreBytes, moreWords, moreLines, bytes, words, lines]
      have ones : ∀ b : Bool, b.toNat = if b = true then 1 else 0 := fun b => by cases b <;> rfl
      simp only [ones, decide_eq_true_eq, beq_iff_eq]
      omega

theorem wc_right_iff (fp : Bytes) : WcRight fp ↔ fp = [] := by
  constructor
  · intro right
    obtain ⟨bytes, words, -⟩ := wc_counts fp _ _ right
    dsimp only at bytes words
    rw [Nat.zero_add] at bytes words
    have graph := List.countP_eq_length.mp bytes.symm
    have blanks : fp.countP isblank = 0 := by
      rw [List.countP_eq_zero]
      intro c member
      simp [(graph_no_blank c (graph c member)).1]
    have single : fp.splitOnP (fun c => isblank c || c = 10) = [fp] := by
      apply List.splitOnP_eq_singleton
      intro c member
      obtain ⟨blank, newline⟩ := graph_no_blank c (graph c member)
      simp [blank, newline]
    rw [blanks, wordRuns, single] at words
    by_contra some
    simp [some] at words
  · rintro rfl
    rfl

-- "a b" and a newline: two bytes, one word.
theorem wc_counts_blanks : ¬WcRight [97, 32, 98, 10] := by
  intro right
  cases (wc_right_iff _).mp right

inductive OdPrint where
  | offset (n : UInt32)
  | octal (c : UInt8)
deriving DecidableEq

def odLoop : Bytes → Nat → UInt32 → List OdPrint
  | [], _, _ => []
  | c :: fp, cnt, offset =>
      .octal c ::
        if cnt + 1 = 8 then .offset (offset + 16) :: odLoop fp 0 (offset + 16) else odLoop fp (cnt + 1) offset

def od (fp : Bytes) : List OdPrint := .offset 0 :: odLoop fp 0 0

def OdPrint.byte : OdPrint → Option UInt8
  | .offset _ => none
  | .octal c => some c

def dumped (prints : List OdPrint) : Bytes := prints.filterMap OdPrint.byte

structure OdRight (fp : Bytes) : Prop where
  bytes : dumped (od fp) = fp
  offsets : ∀ before n behind, od fp = before ++ .offset n :: behind → n.toNat = (dumped before).length

theorem od_loop_bytes (fp : Bytes) (cnt : Nat) (offset : UInt32) : dumped (odLoop fp cnt offset) = fp := by
  induction fp generalizing cnt offset with
  | nil => rfl
  | cons c fp ih =>
      rw [odLoop]
      split
      · exact congrArg (c :: ·) (ih 0 (offset + 16))
      · exact congrArg (c :: ·) (ih (cnt + 1) offset)

-- By induction on the file: where cnt bytes of the line are out, its offset is twice the
-- number of the bytes before it.
theorem od_loop_offsets (fp : Bytes) (cnt before : Nat) (offset : UInt32) (prints behind : List OdPrint) (n : UInt32)
    (line : cnt < 8) (twice : offset = UInt32.ofNat (2 * before))
    (printed : odLoop fp cnt offset = prints ++ .offset n :: behind) :
    n = UInt32.ofNat (2 * (before + cnt + (dumped prints).length)) := by
  induction fp generalizing cnt before offset prints with
  | nil => simp [odLoop] at printed
  | cons c fp ih =>
      rw [odLoop] at printed
      cases prints with
      | nil => cases printed
      | cons first prints =>
          obtain ⟨rfl, later⟩ := List.cons.inj printed
          have count : (dumped (.octal c :: prints)).length = (dumped prints).length + 1 := rfl
          rw [count]
          by_cases full : cnt + 1 = 8
          · rw [if_pos full] at later
            have next : offset + 16 = UInt32.ofNat (2 * (before + 8)) := by
              rw [twice, Nat.mul_add, UInt32.ofNat_add]
              rfl
            cases prints with
            | nil =>
                cases later
                rw [next]
                congr 2
                simp [dumped]
                omega
            | cons second prints =>
                obtain ⟨rfl, rest⟩ := List.cons.inj later
                have deeper := ih 0 (before + 8) (offset + 16) prints (by decide) next rest
                rw [deeper]
                congr 2
                have same : dumped (.offset (offset + 16) :: prints) = dumped prints := rfl
                rw [same]
                omega
          · rw [if_neg full] at later
            have deeper := ih (cnt + 1) before offset prints (by omega) twice later
            rw [deeper]
            congr 2
            omega

theorem od_offsets (fp : Bytes) (before behind : List OdPrint) (n : UInt32)
    (printed : od fp = before ++ .offset n :: behind) : n = UInt32.ofNat (2 * (dumped before).length) := by
  cases before with
  | nil =>
      cases printed
      rfl
  | cons first before =>
      obtain ⟨rfl, later⟩ := List.cons.inj printed
      have same : dumped (.offset 0 :: before) = dumped before := rfl
      rw [same]
      simpa using od_loop_offsets fp 0 0 0 before behind n (by decide) rfl later

theorem od_loop_short (fp : Bytes) (cnt : Nat) (offset : UInt32) (short : fp.length + cnt < 8) :
    odLoop fp cnt offset = fp.map .octal := by
  induction fp generalizing cnt with
  | nil => rfl
  | cons c fp ih =>
      rw [List.length_cons] at short
      rw [odLoop, if_neg (by omega), ih (cnt + 1) (by omega)]
      rfl

theorem od_loop_line (line fp : Bytes) (cnt : Nat) (offset : UInt32) (some : line ≠ []) (full : line.length + cnt = 8) :
    odLoop (line ++ fp) cnt offset = line.map .octal ++ .offset (offset + 16) :: odLoop fp 0 (offset + 16) := by
  induction line generalizing cnt with
  | nil => exact absurd rfl some
  | cons c line ih =>
      rw [List.length_cons] at full
      rw [List.cons_append, odLoop]
      by_cases last : line = []
      · subst last
        rw [if_pos (by simpa [Nat.add_comm] using full)]
        rfl
      · have more := List.length_pos_iff.mpr last
        rw [if_neg (by omega), ih (cnt + 1) last (by omega)]
        rfl

theorem octals_bytes (fp : Bytes) : dumped (fp.map .octal) = fp := by
  induction fp with
  | nil => rfl
  | cons c fp ih => exact congrArg (c :: ·) ih

theorem od_right_iff (fp : Bytes) : OdRight fp ↔ fp.length < 8 := by
  constructor
  · rintro ⟨-, offsets⟩
    by_contra long
    have eight : (fp.take 8).length = 8 := List.length_take_of_le (Nat.not_lt.mp long)
    have printed := od_loop_line (fp.take 8) (fp.drop 8) 0 0 (List.ne_nil_of_length_pos (by omega)) eight
    rw [List.take_append_drop] at printed
    have right := offsets (.offset 0 :: (fp.take 8).map .octal) _ _
      (congrArg (OdPrint.offset 0 :: ·) printed)
    have bytes : dumped (.offset 0 :: (fp.take 8).map .octal) = fp.take 8 := octals_bytes _
    rw [bytes, eight] at right
    cases right
  · intro short
    refine ⟨od_loop_bytes fp 0 0, fun before n behind printed => ?_⟩
    cases before with
    | nil =>
        cases printed
        rfl
    | cons first before =>
        obtain ⟨rfl, later⟩ := List.cons.inj printed
        rw [od_loop_short fp 0 0 short] at later
        have member : OdPrint.offset n ∈ fp.map .octal := later ▸ List.mem_append_right before List.mem_cons_self
        obtain ⟨c, -, other⟩ := List.mem_map.mp member
        cases other

theorem od_counts_twice : ¬OdRight [1, 2, 3, 4, 5, 6, 7, 8, 9] := by
  rintro ⟨-, offsets⟩
  have right := offsets [.offset 0, .octal 1, .octal 2, .octal 3, .octal 4, .octal 5, .octal 6, .octal 7, .octal 8] 16
    [.octal 9] rfl
  cases right

end Yaup.Busybox
