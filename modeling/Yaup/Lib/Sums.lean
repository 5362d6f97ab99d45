import Mathlib.Algebra.BigOperators.ModEq
import Mathlib.Algebra.Order.BigOperators.Group.List
import Mathlib.Algebra.Order.Group.Int

set_option autoImplicit false

namespace Yaup.Lib

variable {α : Type}

end Yaup.Lib
