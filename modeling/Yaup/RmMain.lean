import Yaup.CpPaths
import Yaup.RemoveTree

set_option autoImplicit false

namespace Yaup.Busybox

open Lib

def rmOperand (sys : System) (fuel : Nat) (rflag : Bool) (path : Bytes) : Kind → Cmd Unit
  | .reg => do
      let code ← remove sys path
      if code < 0 then throw .exit
  | .dir =>
      if rflag then do
        let code ← rmDir sys fuel path
        if code < 0 then throw .exit
      else throw .exit
  | .other => return ()

-- What stat does not find leaves st as it was.
def rmLoop (sys : System) (fuel : Nat) (rflag : Bool) : List Bytes → Kind → Cmd Unit
  | [], _ => return ()
  | path :: rest, st => do
      let fs ← get
      let st := fs.statKind path st
      rmOperand sys fuel rflag path st
      rmLoop sys fuel rflag rest st

def rmOperands (argv : List Bytes) : List Bytes := argv.drop (if dashed argv then 2 else 1)

-- `junk` is what st holds before the first stat.
def rmMain (sys : System) (junk : Kind) (fuel : Nat) (argv : List Bytes) : Cmd Unit := do
  if argv.length < 2 then throw .exit
  if dashed argv ∧ ¬recursive argv then throw .exit
  rmLoop sys fuel (dashed argv) (rmOperands argv) junk

theorem stat_kind_found (fs : Fs) (path : Bytes) (st : Kind) (p : Place) (found : fs.locate path = some p) :
    fs.tree.kindAt p = some (fs.statKind path st) := by
  obtain ⟨kind, here⟩ := Option.ne_none_iff_exists'.mp (located_has fs path p found)
  rw [Fs.statKind, found, Option.bind_some, here]
  rfl

theorem failed_code (holds : Fs → Prop) (code : Int) :
    Keeps holds (if code < 0 then throw .exit else pure () : Cmd Unit) := by
  split
  · exact keeps_throw _ _
  · exact keeps_pure _ _

section
variable (fs : Fs) (rflag : Bool) (operands : List Bytes)

end

end Yaup.Busybox
