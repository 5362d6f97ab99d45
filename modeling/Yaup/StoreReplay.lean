import Yaup.CallHistory
import Yaup.ReadBack

set_option autoImplicit false

namespace Yaup

open Lib

abbrev Store := Dev × Blk → Block

structure StoreWrite where
  key : Dev × Blk
  place : Nat
  data : Bytes

def StoreWrite.apply (store : Store) (write : StoreWrite) : Store :=
  Function.update store write.key (overlay (store write.key) write.place write.data)

def storeByte (store : Store) (x : Inode) (off : UInt64) : Option UInt8 :=
  (baddr x off).map fun blk => store (x.iDev, blk) (Fin.ofNat blkSz off.toNat)

def storeBytes (store : Store) (x : Inode) (off : UInt64) (n : Nat) : List (Option UInt8) :=
  (List.range n).map fun j => storeByte store x (off + UInt64.ofNat j)

def Kernel.writeAt (k : Kernel) (fd : Int) (buf : Bytes) : Option StoreWrite :=
  ((k.procs k.current).filp fd).join.bind fun f => (fileKey k f).map fun key => ⟨key, (k.files f).fOff.toNat % blkSz, buf⟩

def SysCall.written (k : Kernel) : SysCall → List StoreWrite
  | .sysWrite getFreePosAt block turns unset fd buf =>
      if Returned (Yaup.sysWrite (Yaup.ballocBuffer getFreePosAt block turns) unset fd buf) k then (k.writeAt fd buf).toList else []
  | _ => []

-- The number of bytes that a sys_read moves: what is asked for, cut off by the clamp that it
-- computes from the f it has not set yet.
def Unset.asked (unset : Unset) (buffsize : UInt64) : Option UInt64 :=
  unset.clamp.map fun (off, size) => if off + buffsize ≥ size then size - off else buffsize

def SysCall.Answers (store : Store) (k : Kernel) : SysCall → Prop
  | .sysRead unset fd buffsize => ∀ count data t, (Yaup.sysRead unset fd buffsize).run k = .ok (count, data) t →
      count = data.length ∧ ∃ n f i, unset.asked buffsize = some n ∧ (k.procs k.current).filp fd = some (some f) ∧
        (k.files f).fInode = some i ∧ data.map some = storeBytes store (k.inodes i) (k.files f).fOff n.toNat
  | .sbread dev => ∀ sb t, (Yaup.sbread dev).run k = .ok sb t →
      sb = Superblock.ofBytes (window (store (dev, 1)) (fun _ => 0) 0 sizeofSuperblock)
  | _ => True

section
variable (store : Store) (x : Inode) (i : InodeId) (f : FileId)

structure Reading (s : Kernel) (b : BufId) (off : UInt64) : Prop where
  opened : (s.files f).fInode = some i
  inode : s.inodes i = x
  cursor : (s.files f).fOff = off
  first : LiveFirst s
  contents : s.contents = store
  loose : ∀ c, s.locks (.buf c) = none
  used : (s.blocks b).bCount ≠ 0
  block : ∃ blk, baddr x off = some blk ∧ (s.blocks b).bData = store (x.iDev, blk)

end

def silent : Mode := ⟨True, False, False, False⟩

section
variable (k t : Kernel) (getFreePosAt : Kernel → UInt8 → Option UInt64) (block : Option BufId) (turns : Nat)
variable (unset : Unset) (fd : Int) (buf : Bytes)

end

def CallAct.starts (act : CallAct) (k : Kernel) : Kernel := begun k act.p act.wild

end Yaup
