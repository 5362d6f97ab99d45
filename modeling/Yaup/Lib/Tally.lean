import Mathlib.Data.Fintype.Card

set_option autoImplicit false

namespace Yaup.Lib

variable {α β : Type} [Fintype α] [DecidableEq β]

-- How many entries of a table point to a target.
def tally (table : α → Option β) (target : β) : Nat := (Finset.univ.filter fun entry => table entry = some target).card

theorem tally_pos (table : α → Option β) (entry : α) (target : β) (points : table entry = some target) :
    0 < tally table target := by
  rw [tally, Finset.card_pos]
  exact ⟨entry, by simpa using points⟩

theorem tally_zero (table : α → Option β) (target : β) :
    tally table target = 0 ↔ ∀ entry, table entry ≠ some target := by
  simp [tally, Finset.filter_eq_empty_iff]

theorem tally_given [DecidableEq α] (table grown : α → Option β) (entry : α) (target : β)
    (empty : table entry = none) (given : grown entry = some target)
    (others : ∀ e, e ≠ entry → grown e = table e) :
    tally grown target = tally table target + 1 ∧ ∀ t, t ≠ target → tally grown t = tally table t := by
  have apart : ∀ e t, grown e = some t ↔ (e = entry ∧ t = target) ∨ table e = some t := by
    intro e t
    by_cases same : e = entry
    · subst same
      simp [given, empty, eq_comm]
    · simp [others e same, same]
  constructor
  · have fresh : entry ∉ Finset.univ.filter fun e => table e = some target := by simp [empty]
    rw [tally, tally, ← Finset.card_insert_of_notMem fresh]
    congr 1
    ext e
    simp [apart]
  · intro t other
    simp [tally, apart, other]

end Yaup.Lib
