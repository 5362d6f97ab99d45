import Mathlib.Data.List.Basic
import Mathlib.Data.Nat.Init

set_option autoImplicit false

namespace Yaup.Lib

variable {w : Nat}

-- A bitmap as its words of w bits, the low bit of a word first; past its end it reads as clear.
def bit (words : List (BitVec w)) (p : Nat) : Bool := (words.getD (p / w) 0).getLsbD (p % w)

def orAt (words : List (BitVec w)) (i : Nat) (mask : BitVec w) : List (BitVec w) :=
  words.set i (words.getD i 0 ||| mask)

theorem or_at_length (words : List (BitVec w)) (i : Nat) (mask : BitVec w) :
    (orAt words i mask).length = words.length := List.length_set

theorem or_at_word (words : List (BitVec w)) (i n : Nat) (mask : BitVec w) (within : i < words.length) :
    (orAt words i mask).getD n 0 = if n = i then words.getD i 0 ||| mask else words.getD n 0 := by
  rw [orAt, List.getD_eq_getElem?_getD, List.getElem?_set]
  by_cases same : n = i
  · rw [if_pos same.symm, if_pos within, if_pos same, Option.getD_some]
  · rw [if_neg (Ne.symm same), if_neg same, List.getD_eq_getElem?_getD]

theorem bit_or_at (words : List (BitVec w)) (i p : Nat) (mask : BitVec w) (within : i < words.length) :
    bit (orAt words i mask) p = (bit words p || (decide (p / w = i) && mask.getLsbD (p % w))) := by
  rw [bit, bit, or_at_word words i (p / w) mask within]
  by_cases same : p / w = i
  · rw [if_pos same, BitVec.getLsbD_or, decide_eq_true same, Bool.true_and, same]
  · rw [if_neg same, decide_eq_false same, Bool.false_and, Bool.or_false]

theorem bit_at (words : List (BitVec w)) (i j : Nat) (small : j < w) :
    bit words (w * i + j) = (words.getD i 0).getLsbD j := by
  have width : 0 < w := Nat.lt_of_le_of_lt (Nat.zero_le j) small
  rw [bit, Nat.mul_add_div width, Nat.div_eq_of_lt small, Nat.add_zero, Nat.mul_add_mod, Nat.mod_eq_of_lt small]

theorem place_inside (len i j : Nat) (within : i < len) (small : j < w) : w * i + j < w * len := by
  calc w * i + j < w * i + w := Nat.add_lt_add_left small _
    _ = w * (i + 1) := by rw [Nat.mul_succ]
    _ ≤ w * len := Nat.mul_le_mul_left _ within

theorem words_ext (words others : List (BitVec w)) (same : words.length = others.length)
    (agree : ∀ p < w * words.length, bit words p = bit others p) : words = others := by
  refine List.ext_getElem same fun i within otherWithin => BitVec.eq_of_getLsbD_eq fun j small => ?_
  have at_p := agree (w * i + j) (place_inside words.length i j within small)
  rw [bit_at words i j small, bit_at others i j small] at at_p
  simpa [List.getD_eq_getElem?_getD, within, otherWithin] using at_p

theorem or_at_comm (words : List (BitVec w)) (i n : Nat) (mask other : BitVec w)
    (within : i < words.length) (otherWithin : n < words.length) :
    orAt (orAt words i mask) n other = orAt (orAt words n other) i mask := by
  refine words_ext _ _ (by simp only [or_at_length]) fun p _ => ?_
  rw [bit_or_at _ _ _ _ (by rwa [or_at_length]), bit_or_at _ _ _ _ within, bit_or_at _ _ _ _ (by rwa [or_at_length]),
    bit_or_at _ _ _ _ otherWithin, Bool.or_assoc, Bool.or_assoc, Bool.or_comm (decide _ && _)]

theorem all_clear (words : List (BitVec w)) (zeros : ∀ word ∈ words, word = 0) (p : Nat) : bit words p = false := by
  rw [bit, List.getD_eq_getElem?_getD]
  cases found : words[p / w]? with
  | none => exact BitVec.getLsbD_zero
  | some word =>
      rw [Option.getD_some, zeros word (List.mem_of_getElem? found)]
      exact BitVec.getLsbD_zero

theorem word_with_bit (words : List (BitVec w)) (word : BitVec w) (here : word ∈ words) (nonzero : word ≠ 0) :
    ∃ p < w * words.length, bit words p = true := by
  obtain ⟨i, within, found⟩ := List.getElem_of_mem here
  obtain ⟨j, small, set⟩ : ∃ j < w, word.getLsbD j = true := by
    by_contra none
    refine nonzero (BitVec.eq_of_getLsbD_eq fun j small => ?_)
    exact (Bool.eq_false_iff.mpr fun set => none ⟨j, small, set⟩).trans BitVec.getLsbD_zero.symm
  refine ⟨w * i + j, place_inside words.length i j within small, ?_⟩
  rw [bit_at words i j small, List.getD_eq_getElem?_getD, List.getElem?_eq_getElem within, found, Option.getD_some]
  exact set

end Yaup.Lib
