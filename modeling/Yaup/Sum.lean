import Yaup.Lib.Lists
import Yaup.Lib.Text

set_option autoImplicit false

namespace Yaup.Busybox

open Lib

def sumTurn (checksum : Nat) (c : UInt8) : Nat :=
  ((checksum >>> 1) + ((checksum &&& 1) <<< 15) + c.toNat) &&& 0xffff

def sum (contents : Bytes) : Nat := contents.foldl sumTurn 0

def rotateAdd (checksum : BitVec 16) (byte : UInt8) : BitVec 16 := checksum.rotateRight 1 + byte.toBitVec.setWidth 16

def rotatingSum (contents : Bytes) : BitVec 16 := contents.foldl rotateAdd 0

theorem rotate_one (checksum : BitVec 16) :
    (checksum.rotateRight 1).toNat = checksum.toNat % 2 * 32768 + checksum.toNat / 2 := by
  have small : checksum.toNat < 65536 := checksum.isLt
  have half : checksum.toNat / 2 < 2 ^ 15 := by omega
  have top : checksum.toNat <<< 15 % 2 ^ 16 = (checksum.toNat % 2) <<< 15 := by
    rw [Nat.shiftLeft_eq, Nat.shiftLeft_eq]
    omega
  calc (checksum.rotateRight 1).toNat = checksum.toNat >>> 1 ||| checksum.toNat <<< 15 % 2 ^ 16 := BitVec.toNat_rotateRight
    _ = (checksum.toNat % 2) <<< 15 ||| checksum.toNat / 2 := by rw [top, Nat.or_comm, Nat.shiftRight_eq_div_pow, Nat.pow_one]
    _ = (checksum.toNat % 2) <<< 15 + checksum.toNat / 2 := (Nat.shiftLeft_add_eq_or_of_lt half _).symm
    _ = checksum.toNat % 2 * 32768 + checksum.toNat / 2 := by rw [Nat.shiftLeft_eq]

theorem rotate_add_nat (checksum : BitVec 16) (byte : UInt8) :
    (rotateAdd checksum byte).toNat = (checksum.toNat % 2 * 32768 + checksum.toNat / 2 + byte.toNat) % 65536 := by
  have small : byte.toNat < 256 := byte.toNat_lt
  rw [rotateAdd, BitVec.toNat_add, rotate_one, BitVec.toNat_setWidth, UInt8.toNat_toBitVec]
  omega

theorem sum_turn_rotates (checksum : BitVec 16) (c : UInt8) : sumTurn checksum.toNat c = (rotateAdd checksum c).toNat := by
  have mask : ∀ n, n &&& 0xffff = n % 65536 := fun n => Nat.and_two_pow_sub_one_eq_mod n 16
  rw [rotate_add_nat, sumTurn, mask, Nat.and_one_is_mod, Nat.shiftRight_eq_div_pow, Nat.shiftLeft_eq,
    Nat.add_comm (_ / _)]

theorem sum_rotates (checksum : BitVec 16) (contents : Bytes) :
    contents.foldl sumTurn checksum.toNat = (contents.foldl rotateAdd checksum).toNat := by
  induction contents generalizing checksum with
  | nil => rfl
  | cons c contents ih => rw [List.foldl_cons, List.foldl_cons, sum_turn_rotates, ih]

theorem same_addend (m n c : Nat) (first : m < 65536) (second : n < 65536) (same : (m + c) % 65536 = (n + c) % 65536) :
    m = n := by omega

theorem rotate_add_keeps (byte : UInt8) : Function.Injective fun checksum => rotateAdd checksum byte := by
  intro a b same
  have equal := congrArg BitVec.toNat same
  dsimp only at equal
  have left : a.toNat < 65536 := a.isLt
  have right : b.toNat < 65536 := b.isLt
  rw [rotate_add_nat, rotate_add_nat] at equal
  have turned := same_addend _ _ byte.toNat (by omega) (by omega) equal
  apply BitVec.eq_of_toNat_eq
  clear equal
  omega

theorem rotate_add_tells (checksum : BitVec 16) : Function.Injective (rotateAdd checksum) := by
  intro a b same
  have equal := congrArg BitVec.toNat same
  have left : a.toNat < 256 := a.toNat_lt
  have right : b.toNat < 256 := b.toNat_lt
  rw [rotate_add_nat, rotate_add_nat] at equal
  apply UInt8.toNat_inj.mp
  omega

theorem sum_right (contents : Bytes) :
    sum contents = (rotatingSum contents).toNat ∧ sum contents ≤ 65535 ∧
      ∀ other, OneDiffers contents other → sum contents ≠ sum other := by
  have value : ∀ bytes, sum bytes = (rotatingSum bytes).toNat := sum_rotates 0
  refine ⟨value contents, ?_, fun other one same => ?_⟩
  · rw [value]
    exact Nat.le_of_lt_succ (rotatingSum contents).isLt
  · rw [value, value] at same
    exact foldl_detects rotateAdd rotate_add_keeps rotate_add_tells 0 contents other one (BitVec.eq_of_toNat_eq same)

end Yaup.Busybox
