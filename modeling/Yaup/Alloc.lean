import Yaup.Inode

set_option autoImplicit false

namespace Yaup

open Lib

section
variable (getFreePosAt : Kernel → UInt8 → Option UInt64)

-- b->b_data[i], where i = BLK_SZ is one byte past the array.
def dataByte (k : Kernel) (b : BufId) (i : Nat) : UInt8 :=
  if inside : i < blkSz then (k.blocks b).bData ⟨i, inside⟩ else k.wild.pastBlock b (i - blkSz)

-- The inner loop of balloc with so many turns left; `i++` makes its first index 1. What
-- get_free_pos is handed is a byte of the bitmap as an address: `getFreePosAt` is what it
-- answers there, none where that traps.
def ballocScan (dev : Dev) (b : BufId) : Nat → Kern BufId
  | 0 => return b
  | left + 1 => do
      let k ← get
      match getFreePosAt k (dataByte k b (blkSz - left)) with
      | none => fault
      | some blk => if blk > 0 then bget dev blk else ballocScan dev b left

-- The outer loop, followed for so many turns: none of them moves `off`, and the break of
-- the inner loop does not leave it. The answer is the pointer b, none where it is NULL.
def ballocLoop (dev : Dev) (off : UInt64) : Nat → Option BufId → Kern (Option BufId)
  | 0, _ => throw .spins
  | turns + 1, b => do
      let k ← get
      if off < (k.superblock dev).sFreeBlkLen then
        let b ← bread dev ((k.superblock dev).sFreeBlk + off)
        let b ← ballocScan getFreePosAt dev b blkSz
        ballocLoop dev off turns (some b)
      else return b

-- `unset` is what the local b points to before the loop sets it.
def balloc (unset : Option BufId) (turns : Nat) (dev : Dev) : Kern (Option BufId) :=
  ballocLoop getFreePosAt dev 0 turns unset

def ballocBuffer (unset : Option BufId) (turns : Nat) (dev : Dev) : Kern BufId := do
  match ← balloc getFreePosAt unset turns dev with
  | some b => return b
  | none => panic "sys_write: cannot get a new block"

end

def sizeofBitmap : Nat := 2

-- set_pos is handed a byte of the block as an address too; `setPosAt` is what writing
-- there does, none where that traps.
def bfree (setPosAt : UInt8 → UInt64 → Option (Kernel → Kernel)) (dev : Dev) (blk : Blk) : Kern Int := do
  let k ← get
  let b ← bread dev ((k.superblock dev).sFreeBlk + UInt64.ofNat (blk.toNat / sizeofBitmap))
  let k ← get
  match setPosAt (dataByte k b (blk.toNat % sizeofBitmap)) (UInt64.ofNat (blk.toNat % sizeofBitmap)) with
  | none => fault
  | some write =>
      modify write
      let _ ← brelease b
      return 0

section
variable (getFreePos : Block → UInt64) (unset : Option InodeId)

-- The loop of ialloc at turn c; after 2^31 turns the int c overflows. get_free_pos answers
-- an unsigned number, so what it means as negative is above zero here.
def iallocLoop (dev : Dev) : Nat → Nat → Kern (Option InodeId)
  | 0, _ => fault
  | left + 1, c => do
      let k ← get
      if UInt64.ofNat c < (k.superblock dev).sFreeInoLen then
        let b ← bread dev ((k.superblock dev).sFreeIno + UInt64.ofNat c)
        let k ← get
        let inum := getFreePos (k.blocks b).bData
        if inum > 0 then
          let i ← iget dev inum
          return some i
        else iallocLoop dev left (c + 1)
      else return unset

def intMax : Nat := 2147483647

def ialloc (dev : Dev) : Kern (Option InodeId) := iallocLoop getFreePos unset dev (intMax + 1) 0

end

def sizeofSuperblock : Nat := 232

-- struct superblock has s_ino_table at 24, s_free_blk and its length at 40 and 48, and
-- s_free_ino and its length at 56 and 64.
def Superblock.ofBytes (bytes : List UInt8) : Superblock where
  sInoTable := UInt64.ofNat (leField 24 8 bytes)
  sFreeBlk := UInt64.ofNat (leField 40 8 bytes)
  sFreeBlkLen := UInt64.ofNat (leField 48 8 bytes)
  sFreeIno := UInt64.ofNat (leField 56 8 bytes)
  sFreeInoLen := UInt64.ofNat (leField 64 8 bytes)

@[simps -fullyApplied] def Kernel.setSuperblock (k : Kernel) (dev : Dev) (sb : Superblock) : Kernel :=
  { k with superblock := Function.update k.superblock dev sb }

def sbread (dev : Dev) : Kern Superblock := do
  acquire .mtable
  let b ← bread dev 1
  let k ← get
  let sb := Superblock.ofBytes (window (k.blocks b).bData (k.wild.pastBlock b) 0 sizeofSuperblock)
  modify fun k => k.setSuperblock dev sb
  let _ ← brelease b
  release .mtable
  return sb

end Yaup
