import Mathlib.Data.List.Basic
import Mathlib.Data.List.GetD

set_option autoImplicit false

namespace Yaup.Lib

variable {α : Type} {n : Nat}

-- The entries of a table from `off` on; a position past its end reads `past`.
def window (data : Fin n → α) (past : Nat → α) (off size : Nat) : List α :=
  (List.range size).map fun j =>
    if inside : off + j < n then data ⟨off + j, inside⟩ else past (off + j)

def overlay (data : Fin n → α) (off : Nat) (items : List α) : Fin n → α :=
  fun k => if off ≤ k.val then items.getD (k.val - off) (data k) else data k

@[simp] theorem window_length (data : Fin n → α) (past : Nat → α) (off size : Nat) :
    (window data past off size).length = size := by
  simp [window]

theorem window_inside (data : Fin n → α) (past other : Nat → α) (off size : Nat) (fits : off + size ≤ n) :
    window data past off size = window data other off size := by
  apply List.map_congr_left
  intro j member
  have bound := List.mem_range.mp member
  rw [dif_pos (by omega), dif_pos (by omega)]

theorem overlay_inside (data : Fin n → α) (off : Nat) (items : List α) (k : Fin n)
    (low : off ≤ k.val) (high : k.val - off < items.length) :
    overlay data off items k = items[k.val - off] := by
  rw [overlay, if_pos low, List.getD_eq_getElem _ _ high]

theorem overlay_outside (data : Fin n → α) (off : Nat) (items : List α) (k : Fin n)
    (outside : k.val < off ∨ off + items.length ≤ k.val) : overlay data off items k = data k := by
  by_cases low : off ≤ k.val
  · rw [overlay, if_pos low, List.getD_eq_default]
    omega
  · rw [overlay, if_neg low]

@[simp] theorem overlay_nil (data : Fin n → α) (off : Nat) : overlay data off [] = data := by
  funext k
  simp [overlay]

theorem overlay_cons (data : Fin n → α) (off : Fin n) (item : α) (rest : List α) :
    overlay data off.val (item :: rest) = overlay (Function.update data off item) (off.val + 1) rest := by
  funext k
  by_cases same : k = off
  · subst same
    have above : ¬ k.val + 1 ≤ k.val := by omega
    simp [overlay, above]
  · have apart : k.val ≠ off.val := fun equal => same (Fin.ext equal)
    by_cases low : off.val ≤ k.val
    · obtain ⟨j, place⟩ : ∃ j, k.val - off.val = j + 1 := ⟨k.val - off.val - 1, by omega⟩
      have above : off.val + 1 ≤ k.val := by omega
      have left : k.val - (off.val + 1) = j := by omega
      simp [overlay, low, above, place, left, same]
    · have below : ¬ off.val + 1 ≤ k.val := by omega
      simp [overlay, low, below, same]

theorem window_cons (data : Fin n → α) (past : Nat → α) (off : Fin n) (size : Nat) :
    window data past off.val (size + 1) = data off :: window data past (off.val + 1) size := by
  rw [window, List.range_succ_eq_map, List.map_cons, List.map_map]
  refine congrArg₂ List.cons (by simp) (List.map_congr_left fun j _ => ?_)
  have shift : off.val + (j + 1) = off.val + 1 + j := by omega
  exact congrArg (fun m => if inside : m < n then data ⟨m, inside⟩ else past m) shift

theorem window_overlay (data : Fin n → α) (past : Nat → α) (off : Nat) (items : List α)
    (fits : off + items.length ≤ n) :
    window (overlay data off items) past off items.length = items := by
  apply List.ext_getElem
  · simp
  · intro j left right
    have inside : off + j < n := by omega
    have placed := overlay_inside data off items ⟨off + j, inside⟩ (by simp) (by simpa using right)
    simp only [window, List.getElem_map, List.getElem_range, dif_pos inside, placed]
    simp

theorem window_overlay_apart (data : Fin n → α) (past : Nat → α) (off size other : Nat)
    (items : List α) (apart : off + size ≤ other ∨ other + items.length ≤ off) :
    window (overlay data other items) past off size = window data past off size := by
  apply List.map_congr_left
  intro j member
  have bound := List.mem_range.mp member
  by_cases inside : off + j < n
  · rw [dif_pos inside, dif_pos inside, overlay_outside]
    change off + j < other ∨ other + items.length ≤ off + j
    omega
  · rw [dif_neg inside, dif_neg inside]

theorem window_overlay_clash (data : Fin n → α) (past : Nat → α) (off size other width : Nat)
    (value : α) (shared : Nat) (low : off ≤ shared) (high : shared < off + size)
    (otherLow : other ≤ shared) (otherHigh : shared < other + width) (inside : shared < n)
    (changes : data ⟨shared, inside⟩ ≠ value) :
    window (overlay data other (List.replicate width value)) past off size ≠
      window data past off size := by
  intro same
  have entry := congrArg (fun items : List α => items[shared - off]?) same
  have bound : shared - off < size := by omega
  have position : off + (shared - off) = shared := by omega
  simp only [window, List.getElem?_map, List.getElem?_range bound, Option.map_some, position,
    dif_pos inside, Option.some.injEq] at entry
  rw [overlay_inside data other _ ⟨shared, inside⟩ otherLow (by simp; omega)] at entry
  apply changes
  simpa using entry.symm

end Yaup.Lib
