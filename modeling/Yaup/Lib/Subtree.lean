import Mathlib.Data.List.Nodup
import Yaup.Lib.FileTree

set_option autoImplicit false

namespace Yaup.Lib

variable {Name Attr : Type} (t : Tree Name Attr) (opens : List Name → Bool)

-- The entries below a place down to a depth, and in directories that open only.
def Tree.below : Nat → List Name → List (List Name)
  | 0, _ => []
  | k + 1, p =>
      (t.entries p).flatMap fun e =>
        (e.1 :: p) :: if e.2 = .dir ∧ opens (e.1 :: p) = true then Tree.below k (e.1 :: p) else []

theorem beneath_next (n : Name) (p : List Name) : Beneath p (n :: p) := ⟨n, List.suffix_rfl⟩

theorem beneath_or_same (p q : List Name) (above : p <:+ q) : q = p ∨ Beneath p q := by
  obtain ⟨front, rfl⟩ := above
  rcases List.eq_nil_or_concat front with rfl | ⟨first, m, rfl⟩
  · exact .inl rfl
  · exact .inr ⟨m, first, by simp⟩

end Yaup.Lib
