import Mathlib.Algebra.BigOperators.ModEq
import Mathlib.Algebra.BigOperators.Group.List.Basic
import Yaup.CwdKept
import Yaup.Lib.Subtree
import Yaup.Lib.Sums

set_option autoImplicit false

namespace Yaup.Busybox

open Lib

section
variable (sys : System) (t : Tree Name Stat)

def stSize (q : Place) : Nat := ((t.node q).map fun entry => entry.attr.data.length).getD 0

-- The path in the call for a directory, the first call being for `p`.
def callPath (p : Place) (path : Bytes) (r : Place) : Bytes :=
  if r = p then path else (r.head?.map Subtype.val).getD path

def foundSize (p : Place) (path : Bytes) : Option Nat := (Fs.stat ⟨t, p⟩ path).map fun st => st.data.length

def turnFound (p : Place) (path : Bytes) (q : Place) : Option Nat := foundSize t q.tail (callPath p path q.tail)

def Locked (q : Place) : Prop := t.IsDir q ∧ ¬sys.opendir q = true

instance (q : Place) : Decidable (Locked sys t q) := inferInstanceAs (Decidable (_ ∧ _))

def turnExcess (p : Place) (path : Bytes) (q : Place) : Int :=
  (turnFound t p path q).getD 0 - stSize t q - if Locked sys t q then 1 else 0

variable (junk : Place → Nat)

end

section
variable (sys : System) (t : Tree Name Stat) (junk : Place → Nat)

def excess (p : Place) (path : Bytes) : Int := ((t.below sys.opendir t.depth p).map (turnExcess sys t p path)).sum

end

section
variable (sys : System) (t : Tree Name Stat) (p : Place) (path : Bytes)

end

section
variable (sys : System) (fuel : Nat) (path : Bytes) (p : Place) (fs : Fs) (found : fs.locate path = some p)

section
variable (dir : fs.tree.IsDir p) (opens : sys.opendir p = true)
  (enters : ∀ q, p <:+ q → sys.opendir q = true → sys.chdir q = true) (enough : fs.tree.depth < fuel)
include found dir opens enters enough

end

include found

end

def sized (attr : Stat) : Stat := { attr with data := [0, 0, 0] }

end Yaup.Busybox
