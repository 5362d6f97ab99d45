import Mathlib.Algebra.GroupWithZero.Nat
import Mathlib.Data.Fin.Tuple.Basic
import Mathlib.Tactic.Simps.Basic
import Yaup.Lib.Outcome

set_option autoImplicit false

namespace Yaup

open Lib

def nrProc : Nat := 128
def nrOfiles : Nat := 128
def nrInode : Nat := 1024
def nrFiles : Nat := nrInode
def nrBuf : Nat := 3 * nrInode
def blkSz : Nat := 4096

instance : NeZero nrProc := ⟨Nat.succ_ne_zero 127⟩
instance : NeZero nrOfiles := ⟨Nat.succ_ne_zero 127⟩
instance : NeZero nrInode := ⟨Nat.succ_ne_zero 1023⟩
instance : NeZero nrFiles := ⟨Nat.succ_ne_zero 1023⟩
instance : NeZero nrBuf := ⟨Nat.succ_ne_zero 3071⟩
instance : NeZero blkSz := ⟨Nat.succ_ne_zero 4095⟩

-- The integer types are those of include/sys/types.h. A pointer into one of the
-- kernel's static tables is the index of the slot it points to.
abbrev Dev := UInt8
abbrev Blk := UInt64
abbrev Ino := UInt64
abbrev Block := Fin blkSz → UInt8
abbrev Pid := Fin nrProc
abbrev BufId := Fin nrBuf
abbrev InodeId := Fin nrInode
abbrev FileId := Fin nrFiles

structure Buffer where
  bData : Block
  bDev : Dev
  bBlk : Blk
  bDirty : Bool
  bCount : UInt8

def Buffer.key (b : Buffer) : Dev × Blk := (b.bDev, b.bBlk)

def zeroBlock : Block := fun _ => 0

def zeroBuffer : Buffer := ⟨zeroBlock, 0, 0, false, 0⟩

-- iAddr has the eight entries of i_addr; iPad is the padding after i_gid, which a memcpy
-- of the structure copies with the fields.
@[ext] structure DInode where
  iMode : UInt16
  iNlink : UInt8
  iUid : UInt8
  iGid : UInt8
  iPad : Fin 3 → UInt8
  iSize : UInt64
  iAddr : Fin 8 → Blk
  iCtime : UInt64
  iAtime : UInt64
  iMtime : UInt64

structure Inode extends DInode where
  iNum : Ino
  iDev : Dev
  iFlag : UInt8
  iCount : UInt8

structure File where
  fMode : UInt16
  fFlag : UInt8
  fCount : UInt8
  fOff : UInt64
  fInode : Option InodeId

structure Proc where
  pUid : UInt8
  pGid : UInt8
  pCwd : Option InodeId
  pFilp : Fin nrOfiles → Option FileId

structure Superblock where
  sInoTable : Blk
  sFreeBlk : Blk
  sFreeBlkLen : UInt64
  sFreeIno : Blk
  sFreeInoLen : UInt64

-- What the machine answers where the code reads outside its objects:
-- `nullNum` is the i_num read through a NULL f_inode (none where that traps), and
-- `pastBlock` and `pastDirent` give the bytes after a buffer's b_data and after the
-- directory entry on the stack of dir_lookup.
structure Wild where
  nullNum : Option Ino
  pastBlock : BufId → Nat → UInt8
  pastDirent : Nat → UInt8

inductive Lock where
  | mtable | icache | buffer | openFiles | procTable
  | buf (b : BufId)
  | ino (i : InodeId)
  | file (f : FileId)
  | proc (p : Pid)
deriving DecidableEq

-- `current` is the process that current_task() returns, `locks` the holder of each
-- lock. The superblock table is total: from 32 on it is what lies after the table.
structure Kernel where
  current : Pid
  disk : Dev × Blk → Block
  superblock : Dev → Superblock
  blocks : BufId → Buffer
  inodes : InodeId → Inode
  files : FileId → File
  procs : Pid → Proc
  locks : Lock → Option Pid
  wild : Wild

-- panic() does not return; a fault is an access through a wild pointer; a process
-- that asks for a lock someone holds, itself included, is blocked on it; and a loop
-- spins that is not over after the turns it is followed for.
inductive Halt where
  | panic (msg : String)
  | fault
  | blocked (lock : Lock)
  | spins
deriving DecidableEq

def freeLocks : Lock → Option Pid := fun _ => none

theorem free_locks_unlock (l : Lock) : Function.update freeLocks l none = freeLocks :=
  Function.update_eq_self l freeLocks

abbrev Kern (α : Type) := EStateM Halt Kernel α

namespace Kernel

@[simps -fullyApplied] def lock (k : Kernel) (l : Lock) : Kernel :=
  { k with locks := Function.update k.locks l (some k.current) }

@[simps -fullyApplied] def unlock (k : Kernel) (l : Lock) : Kernel :=
  { k with locks := Function.update k.locks l none }

@[simps -fullyApplied] def setBlock (k : Kernel) (b : BufId) (x : Buffer) : Kernel :=
  { k with blocks := Function.update k.blocks b x }

@[simps -fullyApplied] def setDisk (k : Kernel) (key : Dev × Blk) (data : Block) : Kernel :=
  { k with disk := Function.update k.disk key data }

@[simps -fullyApplied] def setInode (k : Kernel) (i : InodeId) (x : Inode) : Kernel :=
  { k with inodes := Function.update k.inodes i x }

@[simps -fullyApplied] def setFile (k : Kernel) (f : FileId) (x : File) : Kernel :=
  { k with files := Function.update k.files f x }

@[simps -fullyApplied] def setProc (k : Kernel) (p : Pid) (x : Proc) : Kernel :=
  { k with procs := Function.update k.procs p x }

@[simps -fullyApplied] def runAs (k : Kernel) (p : Pid) : Kernel := { k with current := p }

@[simps -fullyApplied] def withWild (k : Kernel) (w : Wild) : Kernel := { k with wild := w }

def zero : Kernel where
  current := 0
  disk := fun _ => zeroBlock
  superblock := fun _ => ⟨0, 0, 0, 0, 0⟩
  blocks := fun _ => zeroBuffer
  inodes := fun _ => ⟨⟨0, 0, 0, 0, fun _ => 0, 0, fun _ => 0, 0, 0, 0⟩, 0, 0, 0, 0⟩
  files := fun _ => ⟨0, 0, 0, 0, none⟩
  procs := fun _ => ⟨0, 0, none, fun _ => none⟩
  locks := freeLocks
  wild := ⟨none, fun _ _ => 0, fun _ => 0⟩

theorem unlock_lock (k : Kernel) (l : Lock) (free : k.locks l = none) : (k.lock l).unlock l = k := by
  simp only [unlock, lock, Function.update_idem]
  rw [← free, Function.update_eq_self]

@[simp] theorem set_inode_twice (k : Kernel) (i : InodeId) (x y : Inode) :
    (k.setInode i x).setInode i y = k.setInode i y := by
  simp only [setInode, Function.update_idem]

@[simp] theorem set_file_twice (k : Kernel) (f : FileId) (x y : File) :
    (k.setFile f x).setFile f y = k.setFile f y := by
  simp only [setFile, Function.update_idem]

end Kernel

def acquire (l : Lock) : Kern Unit := do
  let k ← get
  if k.locks l = none then set (k.lock l) else throw (.blocked l)

def release (l : Lock) : Kern Unit := modify (·.unlock l)

def initlock (l : Lock) : Kern Unit := modify (·.unlock l)

def holdingsleep (l : Lock) : Kern Bool := do
  let k ← get
  return k.locks l = some k.current

def panic {α : Type} (msg : String) : Kern α := throw (.panic msg)

def fault {α : Type} : Kern α := throw .fault

theorem acquire_free (k : Kernel) (l : Lock) (free : k.locks l = none) :
    (acquire l).run k = .ok () (k.lock l) := by
  simp [acquire, free]

theorem acquire_blocked (k : Kernel) (l : Lock) (taken : k.locks l ≠ none) :
    (acquire l).run k = .error (.blocked l) k := by
  simp [acquire, taken]

theorem acquire_get {α : Type} (l : Lock) (k : Kernel) (rest : Kernel → Kern α) (free : k.locks l = none) :
    (do
      acquire l
      let k ← get
      rest k : Kern α).run k = (rest (k.lock l)).run (k.lock l) := by
  simp only [EStateM.run_bind, acquire_free k l free, EStateM.run_get]

theorem acquire_ok (k t : Kernel) (l : Lock) (done : (acquire l).run k = .ok () t) :
    k.locks l = none ∧ t = k.lock l := by
  by_cases free : k.locks l = none
  · rw [acquire_free k l free] at done
    cases done
    exact ⟨free, rfl⟩
  · rw [acquire_blocked k l free] at done
    cases done

@[simp] theorem release_run (k : Kernel) (l : Lock) : (release l).run k = .ok () (k.unlock l) := rfl

@[simp] theorem initlock_run (k : Kernel) (l : Lock) : (initlock l).run k = .ok () (k.unlock l) := rfl

@[simp] theorem holdingsleep_run (k : Kernel) (l : Lock) :
    (holdingsleep l).run k = .ok (decide (k.locks l = some k.current)) k := rfl

@[simp] theorem panic_run {α : Type} (msg : String) (k : Kernel) :
    (panic msg : Kern α).run k = .error (.panic msg) k := rfl

@[simp] theorem fault_run {α : Type} (k : Kernel) : (fault : Kern α).run k = .error .fault k := rfl

theorem count_drop_zero (c : UInt8) (zero : c - 1 = 0) : c = 1 := by
  have whole := congrArg (· + 1) zero
  simpa using whole

end Yaup
