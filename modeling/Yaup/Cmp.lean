import Yaup.Cksum
import Yaup.Lib.Cells
import Yaup.Lib.Lists

set_option autoImplicit false

namespace Yaup.Busybox

open Lib

inductive Report where
  | differ (char line : Nat)
  | same
deriving DecidableEq

def report (c1 c2 : Option UInt8) (byte line : Nat) : Report := if c1 ≠ c2 then .differ byte line else .same

theorem fgetc_left (file : Stream) (more : file.eof = false) : (fgetc file).2.left < file.left := by
  obtain ⟨rest, eof⟩ := file
  subst more
  cases rest with
  | nil => simp [fgetc, Stream.left]
  | cons byte rest => simp [fgetc, Stream.left]

-- while (!feof(f1) && !feof(f2)), and the test behind it; byte and line are ints.
def cmpLoop (f1 f2 : Stream) (byte line : Nat) (c1 c2 : Option UInt8) : Except Undefined Report :=
  if _ : f1.eof = false ∧ f2.eof = false then do
    let c1 := (fgetc f1).1
    let c2 := (fgetc f2).1
    let byte ← addInt byte 1
    if c1 ≠ c2 then return report c1 c2 byte line
    let line ← if c1 = some 10 ∨ c2 = some 10 then addInt line 1 else pure line
    cmpLoop (fgetc f1).2 (fgetc f2).2 byte line c1 c2
  else return report c1 c2 byte line
termination_by f1.left
decreasing_by exact fgetc_left f1 (And.left (by assumption))

-- c1 and c2 are not set before the loop.
def cmp (c1 c2 : Option UInt8) (f1 f2 : Bytes) : Except Undefined Report := cmpLoop ⟨f1, false⟩ ⟨f2, false⟩ 0 0 c1 c2

def CmpRight (c1 c2 : Option UInt8) (f1 f2 : Bytes) : Prop :=
  ∃ answer, cmp c1 c2 f1 f2 = .ok answer ∧ (answer = .same ↔ f1 = f2) ∧
    ∀ char line, answer = .differ char line →
      char = 1 + (commonPrefix f1 f2).length ∧ line = (commonPrefix f1 f2).count 10

section
variable (f1 f2 : Bytes) (byte line : Nat) (c1 c2 : Option UInt8)

theorem cmp_loop_ends (same : c1 = c2) :
    cmpLoop ⟨[], true⟩ ⟨[], true⟩ byte line c1 c2 = .ok .same := by
  rw [cmpLoop, dif_neg (by simp)]
  simp [report, same, pure, Except.pure]

theorem cmp_loop_differ (apart : f1.head? ≠ f2.head?) (fits : byte + 1 ≤ Lib.intMax) :
    cmpLoop ⟨f1, false⟩ ⟨f2, false⟩ byte line c1 c2 = .ok (.differ (byte + 1) line) := by
  have first : ∀ f : Bytes, (fgetc ⟨f, false⟩).1 = f.head? := by
    intro f
    cases f <;> rfl
  rw [cmpLoop, dif_pos ⟨rfl, rfl⟩]
  simp only [first, add_int_fits _ _ fits, bind, Except.bind, if_pos apart]
  simp [report, apart, pure, Except.pure]

theorem cmp_loop_turn (c : UInt8) (fits : byte + 1 ≤ Lib.intMax) (few : line ≤ byte) :
    cmpLoop ⟨c :: f1, false⟩ ⟨c :: f2, false⟩ byte line c1 c2 =
      cmpLoop ⟨f1, false⟩ ⟨f2, false⟩ (byte + 1) (line + [c].count 10) (some c) (some c) := by
  rw [cmpLoop, dif_pos ⟨rfl, rfl⟩]
  simp only [fgetc, add_int_fits _ _ fits, bind, Except.bind, ne_eq, not_true_eq_false, if_false, or_self]
  by_cases newline : c = 10
  · subst newline
    rw [if_pos rfl, add_int_fits _ _ (by omega)]
    rfl
  · rw [if_neg (by simpa using newline), List.count_singleton, if_neg (by simpa using newline)]
    rfl

end

theorem common_prefix_turn (c : UInt8) (f1 f2 : Bytes) : commonPrefix (c :: f1) (c :: f2) = c :: commonPrefix f1 f2 := if_pos rfl

theorem common_prefix_empty (f1 f2 : Bytes) (apart : f1.head? ≠ f2.head?) : commonPrefix f1 f2 = [] := by
  cases f1 with
  | nil => rfl
  | cons a f1 =>
      cases f2 with
      | nil => rfl
      | cons b f2 => exact if_neg fun same => apart (congrArg some same)

theorem heads_cases (f1 f2 : Bytes) :
    (f1 = [] ∧ f2 = []) ∨ (∃ c rest1 rest2, f1 = c :: rest1 ∧ f2 = c :: rest2) ∨ f1.head? ≠ f2.head? := by
  cases f1 with
  | nil =>
      cases f2 with
      | nil => exact .inl ⟨rfl, rfl⟩
      | cons b f2 => exact .inr (.inr (by simp))
  | cons a f1 =>
      cases f2 with
      | nil => exact .inr (.inr (by simp))
      | cons b f2 =>
          by_cases same : a = b
          · subst same
            exact .inr (.inl ⟨a, f1, f2, rfl, rfl⟩)
          · exact .inr (.inr (by simpa using same))

theorem cmp_loop_end (byte line : Nat) (c1 c2 : Option UInt8) (fits : byte + 1 ≤ Lib.intMax) :
    cmpLoop ⟨[], false⟩ ⟨[], false⟩ byte line c1 c2 = .ok .same := by
  rw [cmpLoop, dif_pos ⟨rfl, rfl⟩]
  simp only [fgetc, add_int_fits _ _ fits, bind, Except.bind, ne_eq, not_true_eq_false, if_false]
  exact cmp_loop_ends (byte + 1) line none none rfl

-- By induction on the common prefix: `byte` counts it, and the turn that ends it.
theorem cmp_loop_run (f1 f2 : Bytes) (byte line : Nat) (c1 c2 : Option UInt8) (few : line ≤ byte)
    (fits : byte + (commonPrefix f1 f2).length + 1 ≤ Lib.intMax) :
    cmpLoop ⟨f1, false⟩ ⟨f2, false⟩ byte line c1 c2 =
      .ok (if f1 = f2 then .same
        else .differ (byte + (commonPrefix f1 f2).length + 1) (line + (commonPrefix f1 f2).count 10)) := by
  induction f1 generalizing f2 byte line c1 c2 with
  | nil =>
      cases f2 with
      | nil => exact cmp_loop_end byte line c1 c2 fits
      | cons b f2 => exact cmp_loop_differ [] (b :: f2) byte line c1 c2 (by simp) fits
  | cons a f1 ih =>
      rcases heads_cases (a :: f1) f2 with ⟨empty, -⟩ | ⟨c, rest1, rest2, whole, rfl⟩ | apart
      · cases empty
      · cases whole
        rw [common_prefix_turn] at fits ⊢
        rw [List.length_cons] at fits ⊢
        have counted : [a].count 10 ≤ 1 := List.count_le_length
        rw [cmp_loop_turn f1 rest2 byte line c1 c2 a (by omega) few,
          ih rest2 (byte + 1) (line + [a].count 10) (some a) (some a) (by omega) (by omega)]
        have step : byte + 1 + (commonPrefix f1 rest2).length = byte + ((commonPrefix f1 rest2).length + 1) := by omega
        have lines : ([a] ++ commonPrefix f1 rest2).count 10 = [a].count 10 + (commonPrefix f1 rest2).count 10 :=
          List.count_append
        rw [List.singleton_append] at lines
        rw [step, lines, Nat.add_assoc line]
        simp only [List.cons.injEq, true_and]
      · have none := common_prefix_empty (a :: f1) f2 apart
        have other : a :: f1 ≠ f2 := fun same => apart (same ▸ rfl)
        rw [none] at fits ⊢
        rw [if_neg other]
        exact cmp_loop_differ (a :: f1) f2 byte line c1 c2 apart fits

theorem cmp_loop_overflows (contents : Bytes) (byte line : Nat) (c1 c2 : Option UInt8) (few : line ≤ byte)
    (long : byte + contents.length = Lib.intMax) :
    cmpLoop ⟨contents, false⟩ ⟨contents, false⟩ byte line c1 c2 = .error .overflow := by
  induction contents generalizing byte line c1 c2 with
  | nil =>
      rw [cmpLoop, dif_pos ⟨rfl, rfl⟩, add_int_overflows byte 1 (by simp at long; omega)]
      rfl
  | cons c contents ih =>
      rw [List.length_cons] at long
      have counted : [c].count 10 ≤ 1 := List.count_le_length
      rw [cmp_loop_turn contents contents byte line c1 c2 c (by omega) few]
      exact ih (byte + 1) _ _ _ (by omega) (by omega)

theorem common_prefix_fits (f1 f2 : Bytes) (first : f1.length ≤ Lib.intMax) (second : f2.length ≤ Lib.intMax)
    (counted : f1 = f2 → f1.length < Lib.intMax) : (commonPrefix f1 f2).length + 1 ≤ Lib.intMax := by
  have left := (common_prefix_left f1 f2).length_le
  have other : commonPrefix f1 f2 <+: f2 := common_prefix_comm f2 f1 ▸ common_prefix_left f2 f1
  have right := other.length_le
  by_cases whole : (commonPrefix f1 f2).length = Lib.intMax
  · have same : f1 = f2 := by
      rw [← (common_prefix_left f1 f2).eq_of_length (by omega), other.eq_of_length (by omega)]
    have less := counted same
    omega
  · omega

theorem cmp_right (c1 c2 : Option UInt8) (f1 f2 : Bytes) (first : f1.length ≤ Lib.intMax) (second : f2.length ≤ Lib.intMax)
    (counted : f1 = f2 → f1.length < Lib.intMax) : CmpRight c1 c2 f1 f2 := by
  have fits := common_prefix_fits f1 f2 first second counted
  have answer := cmp_loop_run f1 f2 0 0 c1 c2 (Nat.le_refl 0) (by omega)
  refine ⟨_, answer, ?_, ?_⟩
  · by_cases same : f1 = f2
    · simp [same]
    · simp [same]
  · intro char line differ
    by_cases same : f1 = f2
    · rw [if_pos same] at differ
      cases differ
    · rw [if_neg same] at differ
      cases differ
      exact ⟨by omega, by omega⟩

-- "ab" and "abc": they differ at the third byte, which the first file does not have.
theorem cmp_right_start : CmpRight none none [97, 98] [97, 98, 99] :=
  cmp_right none none [97, 98] [97, 98, 99] (by decide) (by decide) (fun same => by cases same)

theorem longest_files_overflow :
    ¬∀ (c1 c2 : Option UInt8) (f1 f2 : Bytes), f1.length ≤ Lib.intMax → f2.length ≤ Lib.intMax → CmpRight c1 c2 f1 f2 := by
  intro claim
  have length : (List.replicate Lib.intMax (0 : UInt8)).length = Lib.intMax := List.length_replicate
  obtain ⟨answer, done, -⟩ := claim none none _ _ length.le length.le
  rw [cmp, cmp_loop_overflows _ 0 0 none none (Nat.le_refl 0) (by rw [length]; exact Nat.zero_add Lib.intMax)] at done
  cases done

end Yaup.Busybox
