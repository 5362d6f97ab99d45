import Mathlib.Data.UInt

set_option autoImplicit false

namespace Yaup.Lib

-- ctype.h in the C locale.
def isspace (c : UInt8) : Bool := c = 32 || 9 ≤ c && c ≤ 13

def isblank (c : UInt8) : Bool := c = 32 || c = 9

def isalnum (c : UInt8) : Bool := 48 ≤ c && c ≤ 57 || 65 ≤ c && c ≤ 90 || 97 ≤ c && c ≤ 122

def ispunct (c : UInt8) : Bool :=
  33 ≤ c && c ≤ 47 || 58 ≤ c && c ≤ 64 || 91 ≤ c && c ≤ 96 || 123 ≤ c && c ≤ 126

def isgraph (c : UInt8) : Bool := isalnum c || ispunct c

theorem graph_no_blank (c : UInt8) (graph : isgraph c = true) : isblank c = false ∧ c ≠ 10 := by
  constructor
  · by_contra blank
    rw [Bool.not_eq_false, isblank, Bool.or_eq_true, decide_eq_true_eq, decide_eq_true_eq] at blank
    rcases blank with rfl | rfl
    · cases graph
    · cases graph
  · rintro rfl
    cases graph

end Yaup.Lib
