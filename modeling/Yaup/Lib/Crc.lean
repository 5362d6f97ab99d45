import Mathlib.Logic.Function.Iterate

set_option autoImplicit false

namespace Yaup.Lib

section
variable {w : Nat} (poly : BitVec w)

-- A register that is shifted right by one; the bit that falls out decides on the polynomial.
def shiftOut (crc : BitVec w) : BitVec w := if crc.getLsbD 0 then crc >>> 1 ^^^ poly else crc >>> 1

def shiftsOut (n : Nat) : BitVec w → BitVec w := (shiftOut poly)^[n]

theorem shift_out_xor (a b : BitVec w) : shiftOut poly (a ^^^ b) = shiftOut poly a ^^^ shiftOut poly b := by
  have cancel : ∀ x y : BitVec w, (x ^^^ poly) ^^^ (y ^^^ poly) = x ^^^ y := by
    intro x y
    rw [BitVec.xor_comm y poly, BitVec.xor_assoc, ← BitVec.xor_assoc poly poly y, BitVec.xor_self, BitVec.zero_xor]
  rw [shiftOut, shiftOut, shiftOut, BitVec.getLsbD_xor, BitVec.ushiftRight_xor_distrib]
  cases a.getLsbD 0 with
  | false =>
      cases b.getLsbD 0 with
      | false => rfl
      | true => exact BitVec.xor_assoc _ _ _
  | true =>
      cases b.getLsbD 0 with
      | false => exact (BitVec.xor_assoc _ _ _).trans ((congrArg _ (BitVec.xor_comm _ _)).trans (BitVec.xor_assoc _ _ _).symm)
      | true => exact (cancel _ _).symm

theorem shifts_out_xor (n : Nat) (a b : BitVec w) :
    shiftsOut poly n (a ^^^ b) = shiftsOut poly n a ^^^ shiftsOut poly n b := by
  induction n generalizing a b with
  | zero => rfl
  | succ n ih =>
      have step : ∀ x : BitVec w, shiftsOut poly (n + 1) x = shiftsOut poly n (shiftOut poly x) := fun _ => rfl
      rw [step, step, step, shift_out_xor, ih]

theorem shifts_out_clear (n : Nat) (a : BitVec w) (clear : ∀ i < n, a.getLsbD i = false) : shiftsOut poly n a = a >>> n := by
  induction n with
  | zero => exact (BitVec.ushiftRight_zero a).symm
  | succ n ih =>
      have shifted := ih fun i low => clear i (Nat.lt_succ_of_lt low)
      have low : (a >>> n).getLsbD 0 = false := by
        rw [BitVec.getLsbD_ushiftRight, Nat.add_zero]
        exact clear n (Nat.lt_succ_self n)
      change (shiftOut poly)^[n + 1] a = _
      rw [Function.iterate_succ_apply']
      change shiftOut poly (shiftsOut poly n a) = _
      rw [shifted, shiftOut, low, BitVec.shiftRight_add]
      rfl

def LowMask (n : Nat) (mask : BitVec w) : Prop := ∀ i < w, mask.getLsbD i = decide (i < n)

theorem masked_bit (n : Nat) (mask a : BitVec w) (masks : LowMask n mask) (i : Nat) :
    (a &&& mask).getLsbD i = (a.getLsbD i && decide (i < n)) := by
  rw [BitVec.getLsbD_and]
  by_cases inside : i < w
  · rw [masks i inside]
  · rw [BitVec.getLsbD_of_ge a i (Nat.not_lt.mp inside), Bool.false_and, Bool.false_and]

-- Steps as many as the mask is wide: the low bits by themselves, and the others moved down.
theorem shifts_out_split (n : Nat) (mask a : BitVec w) (masks : LowMask n mask) :
    shiftsOut poly n a = a >>> n ^^^ shiftsOut poly n (a &&& mask) := by
  have high : ∀ i, (a ^^^ (a &&& mask)).getLsbD i = (a.getLsbD i && !decide (i < n)) := by
    intro i
    rw [BitVec.getLsbD_xor, masked_bit n mask a masks]
    cases a.getLsbD i with
    | false => rfl
    | true => simp
  have moved : (a ^^^ (a &&& mask)) >>> n = a >>> n := by
    refine BitVec.eq_of_getLsbD_eq fun i _ => ?_
    rw [BitVec.getLsbD_ushiftRight, BitVec.getLsbD_ushiftRight, high]
    simp
  have parts : a = (a ^^^ (a &&& mask)) ^^^ (a &&& mask) := by
    rw [BitVec.xor_assoc, BitVec.xor_self, BitVec.xor_zero]
  have clear : shiftsOut poly n (a ^^^ (a &&& mask)) = a >>> n := by
    rw [shifts_out_clear poly n _ fun i low => by rw [high, decide_eq_true low]; exact Bool.and_false _, moved]
  calc shiftsOut poly n a = shiftsOut poly n ((a ^^^ (a &&& mask)) ^^^ (a &&& mask)) := by rw [← parts]
    _ = shiftsOut poly n (a ^^^ (a &&& mask)) ^^^ shiftsOut poly n (a &&& mask) := shifts_out_xor poly n _ _
    _ = a >>> n ^^^ shiftsOut poly n (a &&& mask) := by rw [clear]

-- One look at a table of the low bits is as many steps of the register. Above its low bits
-- the input to the table may have any.
theorem table_step (n : Nat) (mask crc input wide : BitVec w) (masks : LowMask n mask)
    (narrow : input &&& mask = input) (low : wide &&& mask = input) :
    crc >>> n ^^^ shiftsOut poly n ((crc ^^^ wide) &&& mask) = shiftsOut poly n (crc ^^^ input) := by
  have fallen : input >>> n = 0#w := by
    refine BitVec.eq_of_getLsbD_eq fun i _ => ?_
    rw [BitVec.getLsbD_ushiftRight, ← narrow, masked_bit n mask input masks, BitVec.getLsbD_zero]
    simp
  have same : (crc ^^^ wide) &&& mask = (crc ^^^ input) &&& mask := by
    refine BitVec.eq_of_getLsbD_eq fun i _ => ?_
    have bits := congrArg (fun x => BitVec.getLsbD x i) (low.trans narrow.symm)
    simp only [masked_bit n mask _ masks, BitVec.getLsbD_xor] at bits ⊢
    rw [Bool.and_xor_distrib_right, bits, ← Bool.and_xor_distrib_right]
  rw [shifts_out_split poly n mask (crc ^^^ input) masks, BitVec.ushiftRight_xor_distrib, fallen, BitVec.xor_zero, same]

end

end Yaup.Lib
