import Mathlib.Algebra.Group.Int.Defs
import Yaup.Lib.Cells
import Yaup.Lib.Text

set_option autoImplicit false

namespace Yaup.Busybox

open Lib

-- while (l >= 0), with l + 1 turns to go; arg has its terminator. mode_t has 16 bits.
def parseLoop (arg : Bytes) : Nat → Nat → UInt16 → Except Undefined UInt16
  | 0, _, mode => .ok mode
  | l + 1, i, mode =>
      match arg[l]? with
      | none => .error .outside
      | some c =>
          if c < 48 ∨ 55 < c then .ok (-1)
          else if l = 0 then .error .outside
          else
            match arg[l - 1]? with
            | none => .error .outside
            | some digit => parseLoop arg l (i + 1) (mode + UInt16.ofInt (((digit.toNat : Int) - 48) * 8 ^ i))

def parseMode (arg : Bytes) : Except Undefined UInt16 := parseLoop (arg ++ [0]) (arg.length + 1) 0 0

def octalValue (arg : Bytes) : Nat := arg.foldl (fun n c => 8 * n + (c.toNat - 48)) 0

structure OctalMode (arg : Bytes) : Prop where
  some : arg ≠ []
  digits : ∀ c ∈ arg, 48 ≤ c ∧ c ≤ 55
  fits : octalValue arg < 65536

def ModeRight (arg : Bytes) : Prop :=
  ∃ mode, parseMode arg = .ok mode ∧ (OctalMode arg → mode.toNat = octalValue arg) ∧ (¬OctalMode arg → mode = -1)

theorem parse_mode_refuses (arg : Bytes) : parseMode arg = .ok (-1) := by
  have last : (arg ++ [0])[arg.length]? = some 0 := by simp
  rw [parseMode, parseLoop, last]
  rfl

theorem mode_right_iff (arg : Bytes) : ModeRight arg ↔ (OctalMode arg → octalValue arg = 65535) := by
  constructor
  · rintro ⟨mode, done, value, -⟩ octal
    rw [parse_mode_refuses] at done
    cases done
    exact (value octal).symm
  · intro largest
    exact ⟨-1, parse_mode_refuses arg, fun octal => (largest octal).symm, fun _ => rfl⟩

-- 644
theorem mode_644_refused : ¬ModeRight [54, 52, 52] := by
  intro right
  have number : octalValue [54, 52, 52] = 420 := rfl
  have octal : OctalMode [54, 52, 52] := ⟨by decide, by simp, by omega⟩
  have value := (mode_right_iff _).mp right octal
  cases value

end Yaup.Busybox
