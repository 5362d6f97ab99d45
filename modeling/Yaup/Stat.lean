import Yaup.Namei

set_option autoImplicit false

namespace Yaup

open Lib

structure Stat where
  stDev : Dev
  stIno : Ino
  stMode : UInt16
  stNlink : UInt8
  stUid : UInt8
  stGid : UInt8
  stRdev : Dev
  stSize : UInt64
  stBlksize : UInt64
  stBlocks : UInt32
  stAtim : UInt64
  stMtim : UInt64
  stCtim : UInt64

def Inode.stat (x : Inode) : Stat where
  stDev := x.iDev
  stIno := x.iNum
  stMode := x.iMode
  stNlink := x.iNlink
  stUid := x.iUid
  stGid := x.iGid
  stRdev := 0
  stSize := x.iSize
  stBlksize := UInt64.ofNat blkSz
  stBlocks := (x.iSize / 1024).toUInt32
  stAtim := x.iAtime
  stMtim := x.iMtime
  stCtim := x.iCtime

def statInode (i : InodeId) : Kern (Int × Stat) := do
  let _ ← ilock i
  let k ← get
  let st := (k.inodes i).stat
  let _ ← iput i
  let _ ← irelease i
  return (0, st)

def sysStat (path : List UInt8) : Kern (Int × Stat) := do
  let i ← namei path
  statInode i

theorem ilock_cases (k t : Kernel) (i : InodeId) (r : Int) (done : (ilock i).run k = .ok r t) :
    t = k ∨ (k.locks (.ino i) = none ∧ t = k.lock (.ino i)) := by
  rw [ilock_run] at done
  split at done
  · split at done
    · rename_i free
      cases done
      exact .inr ⟨free, rfl⟩
    · cases done
  · cases done
    exact .inl rfl

-- iput and irelease together drop one reference: iput where the inode is dirty, and
-- irelease, by the lock that iput left it, where it is not.
theorem stat_inode_cases (k t : Kernel) (i : InodeId) (answer : Int × Stat)
    (done : (statInode i).run k = .ok answer t) :
    answer = (0, (k.inodes i).stat) ∧ t.current = k.current ∧ t.files = k.files ∧ t.procs = k.procs ∧
      ∃ x : Inode, t.inodes = Function.update k.inodes i x ∧ x.iCount = (k.inodes i).iCount - 1 ∧
        x.iDev = (k.inodes i).iDev ∧ x.iNum = (k.inodes i).iNum := by
  obtain ⟨_, s, locked, rest⟩ := (run_bind_ok _ _ _ _ _).mp done
  obtain ⟨_, u, seen, rest⟩ := (run_bind_ok _ _ _ _ _).mp rest
  cases seen
  obtain ⟨r, w, put, rest⟩ := (run_bind_ok _ _ _ _ _).mp rest
  obtain ⟨q, v, released, rest⟩ := (run_bind_ok _ _ _ _ _).mp rest
  cases rest
  rw [irelease_run] at released
  cases released
  obtain ⟨free, -, wrote⟩ := iput_cases s w i r put
  have unlocked : s = k := by
    rcases ilock_cases k s i _ locked with same | ⟨-, taken⟩
    · exact same
    · rw [taken] at free
      simp at free
  subst unlocked
  rcases wrote with ⟨clean, rfl⟩ | ⟨dirty, b, u, q, v, read, flushed, rfl⟩
  · have mine : (s.lock (.ino i)).locks (.ino i) = some (s.lock (.ino i)).current := by simp
    rw [if_pos mine]
    exact ⟨rfl, rfl, rfl, rfl, _, rfl, rfl, rfl, rfl⟩
  · have back : (v.wroteInode i).locks (.ino i) ≠ some (v.wroteInode i).current := by simp [Kernel.wroteInode]
    have frame := buffer_frame_trans _ _ _ (bread_frame _ u _ _ b read)
      (buffer_frame_trans _ _ _ (set_block_frame u b _) (bwrite_frame _ v b q flushed))
    have inodes : v.inodes = s.inodes := frame.inodes
    rw [if_neg back]
    refine ⟨rfl, frame.current, frame.files, frame.procs, (s.inodes i).written, ?_, rfl, rfl, rfl⟩
    rw [Kernel.wroteInode, Kernel.unlock_inodes, Kernel.setInode_inodes, inodes]

end Yaup
