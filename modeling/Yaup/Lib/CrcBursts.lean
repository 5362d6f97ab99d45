import Mathlib.Data.List.GetD
import Yaup.Lib.Crc
import Yaup.Lib.Lists

set_option autoImplicit false

namespace Yaup.Lib

-- Two bit strings of one length, the same but in one place of at most n bits.
structure Burst (n : Nat) (a b : List Bool) : Prop where
  parts : ∃ before x y after : List Bool, a = before ++ x ++ after ∧ b = before ++ y ++ after ∧
    x.length = y.length ∧ x.length ≤ n ∧ x ≠ y

section
variable {w : Nat} (poly : BitVec w)

def bitIn (bit : Bool) : BitVec w := if bit then 1#w else 0#w

def pushBit (crc : BitVec w) (bit : Bool) : BitVec w := shiftOut poly (crc ^^^ bitIn bit)

def pushBits (crc : BitVec w) (bits : List Bool) : BitVec w := bits.foldl (pushBit poly) crc

-- The bits as a number, the first one lowest.
def pack : List Bool → BitVec w
  | [] => 0#w
  | bit :: rest => pack rest <<< 1 ^^^ bitIn bit

theorem bit_in_bit (bit : Bool) (i : Nat) (inside : i < w) : (bitIn bit : BitVec w).getLsbD i = (bit && decide (i = 0)) := by
  cases bit with
  | false => simp [bitIn]
  | true =>
      rw [bitIn, if_pos rfl, BitVec.getLsbD_one]
      simp
      omega

theorem pack_bit (bits : List Bool) (i : Nat) (inside : i < w) : (pack bits : BitVec w).getLsbD i = bits.getD i false := by
  induction bits generalizing i with
  | nil => simp [pack]
  | cons bit rest ih =>
      rw [pack, BitVec.getLsbD_xor, BitVec.getLsbD_shiftLeft, bit_in_bit bit i inside]
      cases i with
      | zero => simp [inside]
      | succ i =>
          rw [Nat.add_sub_cancel, ih i (Nat.lt_of_succ_lt inside)]
          simp [inside]

theorem pack_injective (a b : List Bool) (same_length : a.length = b.length) (fits : a.length ≤ w)
    (same : (pack a : BitVec w) = pack b) : a = b := by
  refine List.ext_getElem same_length fun i left right => ?_
  have inside : i < w := Nat.lt_of_lt_of_le left fits
  have bit := congrArg (fun x => BitVec.getLsbD x i) same
  simp only [pack_bit a i inside, pack_bit b i inside] at bit
  rwa [List.getD_eq_getElem _ _ left, List.getD_eq_getElem _ _ right] at bit

theorem shift_out_pack (bits : List Bool) (fits : bits.length < w) : shiftOut poly (pack bits <<< 1) = pack bits := by
  have low : (pack bits <<< 1 : BitVec w).getLsbD 0 = false := by
    rw [BitVec.getLsbD_shiftLeft]
    simp
  rw [shiftOut, low]
  refine BitVec.eq_of_getLsbD_eq fun i inside => ?_
  change ((pack bits <<< 1 : BitVec w) >>> 1).getLsbD i = _
  rw [BitVec.getLsbD_ushiftRight, BitVec.getLsbD_shiftLeft, Nat.add_sub_cancel_left]
  by_cases top : 1 + i < w
  · simp [top]
  · have above : bits.length ≤ i := by omega
    rw [pack_bit bits i inside, List.getD_eq_default _ _ above]
    simp

theorem push_bits_pack (crc : BitVec w) (bits : List Bool) (fits : bits.length ≤ w) :
    pushBits poly crc bits = shiftsOut poly bits.length (crc ^^^ pack bits) := by
  induction bits generalizing crc with
  | nil => exact (BitVec.xor_zero).symm
  | cons bit rest ih =>
      have step : ∀ x : BitVec w, shiftsOut poly (rest.length + 1) x = shiftsOut poly rest.length (shiftOut poly x) :=
        fun _ => rfl
      have apart : crc ^^^ pack (bit :: rest) = (crc ^^^ bitIn bit) ^^^ pack rest <<< 1 := by
        rw [pack, BitVec.xor_comm (pack rest <<< 1), ← BitVec.xor_assoc]
      calc pushBits poly crc (bit :: rest) = pushBits poly (shiftOut poly (crc ^^^ bitIn bit)) rest := rfl
        _ = shiftsOut poly rest.length (shiftOut poly (crc ^^^ bitIn bit) ^^^ pack rest) := ih _ (Nat.le_of_succ_le fits)
        _ = shiftsOut poly (rest.length + 1) (crc ^^^ pack (bit :: rest)) := by
            rw [step, apart, shift_out_xor poly (crc ^^^ bitIn bit), shift_out_pack poly rest fits]

section
variable (top : poly.getLsbD (w - 1) = true)

include top

theorem shift_out_zero (a : BitVec w) (gone : shiftOut poly a = 0#w) : a = 0#w := by
  have wide : 0 < w := by
    by_contra none
    rw [BitVec.getLsbD_of_ge poly (w - 1) (by omega)] at top
    cases top
  have bits := fun i => congrArg (fun x => BitVec.getLsbD x i) gone
  have even : a.getLsbD 0 = false := by
    cases odd : a.getLsbD 0 with
    | false => rfl
    | true =>
        have highest := bits (w - 1)
        rw [shiftOut, odd] at highest
        simp [top, show 1 + (w - 1) = w by omega] at highest
  refine BitVec.eq_of_getLsbD_eq fun i inside => ?_
  cases i with
  | zero => simpa using even
  | succ i =>
      have moved := bits i
      rw [shiftOut, even] at moved
      simpa [Nat.add_comm 1 i] using moved

theorem shift_out_injective : Function.Injective (shiftOut poly) := by
  intro a b same
  have gone : shiftOut poly (a ^^^ b) = 0#w := by rw [shift_out_xor, same, BitVec.xor_self]
  exact BitVec.xor_eq_zero_iff.mp (shift_out_zero poly top _ gone)

theorem shifts_out_injective (n : Nat) : Function.Injective (shiftsOut poly n) := (shift_out_injective poly top).iterate n

theorem push_bit_injective (bit : Bool) : Function.Injective fun crc => pushBit poly crc bit :=
  fun _ _ same => (BitVec.xor_left_inj _).mp (shift_out_injective poly top same)

-- A polynomial with its constant term tells apart what differs in no more bits than it has.
theorem burst_detected (crc : BitVec w) (a b : List Bool) (burst : Burst w a b) :
    pushBits poly crc a ≠ pushBits poly crc b := by
  obtain ⟨before, x, y, after, rfl, rfl, length, short, other⟩ := burst.parts
  intro same
  simp only [pushBits, List.foldl_append] at same
  have inner := foldl_injective (pushBit poly) (push_bit_injective poly top) after same
  change pushBits poly (pushBits poly crc before) x = pushBits poly (pushBits poly crc before) y at inner
  rw [push_bits_pack poly _ x short, push_bits_pack poly _ y (length ▸ short), length] at inner
  have packed := (BitVec.xor_right_inj _).mp (shifts_out_injective poly top _ inner)
  exact other (pack_injective x y length short packed)

end

end

end Yaup.Lib
