import Mathlib.Data.Nat.ModEq

set_option autoImplicit false

namespace Yaup.Lib

def leBytes : Nat → Nat → List UInt8
  | 0, _ => []
  | width + 1, value => UInt8.ofNat value :: leBytes width (value / 256)

def leNat : List UInt8 → Nat
  | [] => 0
  | byte :: rest => byte.toNat + 256 * leNat rest

@[simp] theorem le_bytes_length (width value : Nat) : (leBytes width value).length = width := by
  induction width generalizing value with
  | zero => rfl
  | succ width ih => simp [leBytes, ih]

theorem le_nat_bytes (width value : Nat) : leNat (leBytes width value) = value % 256 ^ width := by
  induction width generalizing value with
  | zero => simp [leBytes, leNat, Nat.mod_one]
  | succ width ih =>
      rw [leBytes, leNat, ih, Nat.pow_succ, Nat.mul_comm (256 ^ width) 256, Nat.mod_mul]
      simp

def leField (off width : Nat) (bytes : List UInt8) : Nat := leNat ((bytes.drop off).take width)

theorem le_field_append (left right : List UInt8) (off width : Nat) (past : left.length ≤ off) :
    leField off width (left ++ right) = leField (off - left.length) width right := by
  rw [leField, leField, List.drop_append, List.drop_eq_nil_of_le past, List.nil_append]

theorem le_field_cons (byte : UInt8) (rest : List UInt8) (off width : Nat) :
    leField (off + 1) width (byte :: rest) = leField off width rest := by
  rw [leField, leField, List.drop_succ_cons]

theorem le_field_bytes (width value : Nat) (rest : List UInt8) :
    leField 0 width (leBytes width value ++ rest) = value % 256 ^ width := by
  have fields : (leBytes width value ++ rest).take width = leBytes width value :=
    List.take_left' (le_bytes_length width value)
  rw [leField, List.drop_zero, fields, le_nat_bytes]

theorem le_field_whole (width value : Nat) :
    leField 0 width (leBytes width value) = value % 256 ^ width := by
  have alone := le_field_bytes width value []
  rwa [List.append_nil] at alone

theorem le_field_flat_map {α : Type} (width : Nat) (word : α → Nat) (items : List α) (rest : List UInt8)
    (index : Nat) (inside : index < items.length) :
    leField (width * index) width (items.flatMap (fun a => leBytes width (word a)) ++ rest) =
      word items[index] % 256 ^ width := by
  induction items generalizing index with
  | nil => cases inside
  | cons head tail ih =>
      rw [List.flatMap_cons, List.append_assoc]
      cases index with
      | zero => exact le_field_bytes width (word head) _
      | succ index =>
          rw [le_field_append _ _ _ _ (by simp [Nat.mul_succ])]
          have shifted : width * (index + 1) - (leBytes width (word head)).length = width * index := by
            simp [Nat.mul_succ]
          rw [shifted]
          exact ih index (Nat.lt_of_succ_lt_succ inside)

end Yaup.Lib
