import Mathlib.Data.List.Basic

set_option autoImplicit false

namespace Yaup.Lib

variable {α : Type}

-- What C leaves undefined: a store outside its block, and a sum that does not fit its int.
inductive Undefined where
  | outside
  | overflow
deriving DecidableEq

def intMax : Nat := 2147483647

def addInt (a b : Nat) : Except Undefined Nat := if a + b ≤ intMax then .ok (a + b) else .error .overflow

def putCell (cells : List α) (i : Nat) (a : α) : Except Undefined (List α) :=
  if i < cells.length then .ok (cells.set i a) else .error .outside

-- realloc to n cells; the cells that are new hold junk.
def resize (junk : Nat → α) (cells : List α) (n : Nat) : List α :=
  cells.take n ++ (List.range (n - cells.length)).map junk

theorem add_int_fits (a b : Nat) (fits : a + b ≤ intMax) : addInt a b = .ok (a + b) := if_pos fits

theorem add_int_overflows (a b : Nat) (large : intMax < a + b) : addInt a b = .error .overflow :=
  if_neg (Nat.not_le.mpr large)

theorem put_cell_outside (cells : List α) (i : Nat) (a : α) (beyond : cells.length ≤ i) :
    putCell cells i a = .error .outside :=
  if_neg (Nat.not_lt.mpr beyond)

@[simp] theorem resize_length (junk : Nat → α) (cells : List α) (n : Nat) : (resize junk cells n).length = n := by
  rw [resize, List.length_append, List.length_take, List.length_map, List.length_range]
  omega

theorem put_cell_extends (cells written : List α) (a : α) (begins : written <+: cells)
    (room : written.length < cells.length) :
    ∃ after, putCell cells written.length a = .ok after ∧ written ++ [a] <+: after ∧ after.length = cells.length := by
  obtain ⟨rest, rfl⟩ := begins
  refine ⟨_, if_pos room, ?_, List.length_set⟩
  cases rest with
  | nil => simp at room
  | cons old rest => exact ⟨rest, by simp⟩

theorem put_cell_front (front rest : List α) (old a : α) :
    putCell (front ++ old :: rest) front.length a = .ok (front ++ a :: rest) := by
  have inside : front.length < (front ++ old :: rest).length := by simp
  rw [putCell, if_pos inside]
  simp

theorem resize_keeps (junk : Nat → α) (cells written : List α) (n : Nat) (begins : written <+: cells)
    (fits : written.length ≤ n) : written <+: resize junk cells n := by
  have kept : written <+: cells.take n := List.prefix_take_iff.mpr ⟨begins, fits⟩
  exact kept.trans (List.prefix_append _ _)

end Yaup.Lib
