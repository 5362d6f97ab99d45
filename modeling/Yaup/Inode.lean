import Yaup.BlockFrame
import Yaup.InodeTable
import Yaup.Lib.Scan

set_option autoImplicit false

namespace Yaup

open Lib

def idirt : UInt8 := 2

def tableBlk (k : Kernel) (dev : Dev) (num : Ino) : Blk :=
  blkAddr sizeofDInode (k.superblock dev).sInoTable num

theorem table_blk_lock (k : Kernel) (l : Lock) : tableBlk (k.lock l) = tableBlk k := rfl

-- The one loop of iget: it stops at the inode, and notes the first unused slot before it.
def igetLoop (k : Kernel) (dev : Dev) (num : Ino) : InodeId ⊕ Option InodeId :=
  scan (fun i => decide ((k.inodes i).iDev = dev ∧ (k.inodes i).iNum = num))
    (fun i => decide ((k.inodes i).iCount = 0)) none (List.finRange nrInode)

def igetLoad (free : InodeId) (dev : Dev) (num : Ino) : Kern InodeId := do
  let k ← get
  let b ← bread dev (tableBlk k dev num)
  modify fun k => k.setInode free { k.inodes free with
    toDInode := DInode.ofBytes (loadRecord sizeofDInode (k.blocks b).bData (k.wild.pastBlock b) num) }
  modify fun k => k.setInode free { k.inodes free with
    iNum := num
    iDev := dev
    iCount := (k.inodes free).iCount + 1 }
  initlock (.ino free)
  let _ ← brelease b
  release .icache
  return free

def igetFound (dev : Dev) (num : Ino) : InodeId ⊕ Option InodeId → Kern InodeId
  | .inl i => do
      release .icache
      return i
  | .inr none => panic "iget: no free inodes"
  | .inr (some free) => igetLoad free dev num

def iget (dev : Dev) (num : Ino) : Kern InodeId := do
  acquire .icache
  let k ← get
  igetFound dev num (igetLoop k dev num)

-- `!IDIRT` is the C negation of a nonzero constant.
def notIdirt : UInt8 := if idirt = 0 then 1 else 0

def iput (i : InodeId) : Kern Int := do
  acquire (.ino i)
  let k ← get
  if (k.inodes i).iFlag &&& idirt ≠ 0 then
    let b ← bread (k.inodes i).iDev (tableBlk k (k.inodes i).iDev (k.inodes i).iNum)
    modify fun k => k.setBlock b { k.blocks b with
      bData := storeRecord sizeofDInode (k.blocks b).bData (k.inodes i).iNum (k.inodes i).toDInode.bytes }
    let _ ← bwrite b
    modify fun k => k.setInode i { k.inodes i with
      iFlag := (k.inodes i).iFlag &&& notIdirt
      iCount := (k.inodes i).iCount - 1 }
    release (.ino i)
  return 0

def ilock (i : InodeId) : Kern Int := do
  if ← holdingsleep .icache then
    acquire (.ino i)
  return 0

def irelease (i : InodeId) : Kern Int := do
  let k ← get
  if (k.inodes i).iCount < 0 then
    panic "irelease: releasing an unussed inode"
  if ← holdingsleep (.ino i) then
    modify fun k => k.setInode i { k.inodes i with iCount := (k.inodes i).iCount - 1 }
    release (.ino i)
  return 0

-- memset by its contract: it zeroes the record's bytes.
def ifree (i : InodeId) : Kern Int := do
  acquire (.ino i)
  let k ← get
  let b ← bread (k.inodes i).iDev (tableBlk k (k.inodes i).iDev (k.inodes i).iNum)
  modify fun k => k.setBlock b { k.blocks b with
    bData := clearRecord sizeofDInode (k.blocks b).bData (k.inodes i).iNum }
  let _ ← bwrite b
  release (.ino i)
  return 0

def findInode (k : Kernel) (dev : Dev) (num : Ino) : Option InodeId :=
  Fin.find? fun i => decide ((k.inodes i).iDev = dev ∧ (k.inodes i).iNum = num)

def freeInode (k : Kernel) : Option InodeId := Fin.find? fun i => decide ((k.inodes i).iCount = 0)

theorem iget_loop_searches (k : Kernel) (dev : Dev) (num : Ino) :
    igetLoop k dev num = ((findInode k dev num).map .inl).getD (.inr (freeInode k)) := by
  rw [igetLoop, scan_searches, findInode, freeInode, Fin.find?_eq_find?_finRange, Fin.find?_eq_find?_finRange,
    Option.none_or]

theorem find_inode_some (k : Kernel) (dev : Dev) (num : Ino) (i : InodeId) :
    findInode k dev num = some i ↔
      ((k.inodes i).iDev = dev ∧ (k.inodes i).iNum = num) ∧
        ∀ j < i, ¬((k.inodes j).iDev = dev ∧ (k.inodes j).iNum = num) := by
  simp only [findInode, Fin.find?_eq_some_iff, decide_eq_true_eq, decide_eq_false_iff_not]

theorem find_inode_none (k : Kernel) (dev : Dev) (num : Ino) :
    findInode k dev num = none ↔ ∀ i, ¬((k.inodes i).iDev = dev ∧ (k.inodes i).iNum = num) := by
  simp only [findInode, Fin.find?_eq_none_iff, decide_eq_false_iff_not]

theorem free_inode_some (k : Kernel) (i : InodeId) :
    freeInode k = some i ↔ (k.inodes i).iCount = 0 ∧ ∀ j < i, (k.inodes j).iCount ≠ 0 := by
  simp only [freeInode, Fin.find?_eq_some_iff, decide_eq_true_eq, decide_eq_false_iff_not, ne_eq]

def Inode.loaded (x : Inode) (dev : Dev) (num : Ino) (record : List UInt8) : Inode where
  toDInode := DInode.ofBytes record
  iNum := num
  iDev := dev
  iFlag := x.iFlag
  iCount := x.iCount + 1

def Kernel.loadedInode (s : Kernel) (i : InodeId) (b : BufId) (dev : Dev) (num : Ino) : Kernel :=
  (((s.setInode i ((s.inodes i).loaded dev num
    (loadRecord sizeofDInode (s.blocks b).bData (s.wild.pastBlock b) num))).unlock (.ino i)).released b).unlock .icache

theorem iget_load_run (k : Kernel) (i : InodeId) (dev : Dev) (num : Ino) :
    (igetLoad i dev num).run k = match (bread dev (tableBlk k dev num)).run k with
      | .ok b s => .ok i (s.loadedInode i b dev num)
      | .error halt s => .error halt s := by
  rw [igetLoad, EStateM.run_bind, EStateM.run_get]
  change ((bread dev (tableBlk k dev num)) >>= _).run k = _
  rw [EStateM.run_bind]
  cases read : (bread dev (tableBlk k dev num)).run k with
  | error halt s => rfl
  | ok b s =>
      have used := bread_counted k s dev _ b read
      simp only [EStateM.run_bind, EStateM.run_modify, initlock_run, EStateM.run_pure, release_run]
      rw [brelease_used _ b (by simpa using used)]
      simp [Kernel.loadedInode, Inode.loaded]

theorem iget_blocked (k : Kernel) (dev : Dev) (num : Ino) (taken : k.locks .icache ≠ none) :
    (iget dev num).run k = .error (.blocked .icache) k := by
  simp only [iget, EStateM.run_bind, acquire_blocked k .icache taken]

theorem iget_loop_lock (k : Kernel) (l : Lock) (dev : Dev) (num : Ino) :
    igetLoop (k.lock l) dev num = igetLoop k dev num := by
  simp only [igetLoop, Kernel.lock_inodes]

theorem iget_free (k : Kernel) (dev : Dev) (num : Ino) (free : k.locks .icache = none) :
    (iget dev num).run k = (igetFound dev num (igetLoop (k.lock .icache) dev num)).run (k.lock .icache) := by
  exact acquire_get .icache k (fun k => igetFound dev num (igetLoop k dev num)) free

theorem iget_hit (k : Kernel) (dev : Dev) (num : Ino) (i : InodeId) (free : k.locks .icache = none)
    (hit : findInode k dev num = some i) : (iget dev num).run k = .ok i k := by
  rw [iget_free k dev num free, iget_loop_lock, iget_loop_searches, hit, Option.map_some, Option.getD_some, igetFound]
  simp only [EStateM.run_bind, release_run, EStateM.run_pure, Kernel.unlock_lock k .icache free]

theorem iget_full (k : Kernel) (dev : Dev) (num : Ino) (free : k.locks .icache = none)
    (miss : findInode k dev num = none) (full : freeInode k = none) :
    (iget dev num).run k = .error (.panic "iget: no free inodes") (k.lock .icache) := by
  rw [iget_free k dev num free, iget_loop_lock, iget_loop_searches, miss, full, Option.map_none, Option.getD_none, igetFound, panic_run]

theorem iget_missed (k : Kernel) (dev : Dev) (num : Ino) (i : InodeId) (free : k.locks .icache = none)
    (miss : findInode k dev num = none) (unused : freeInode k = some i) :
    (iget dev num).run k = match (bread dev (tableBlk k dev num)).run (k.lock .icache) with
      | .ok b s => .ok i (s.loadedInode i b dev num)
      | .error halt s => .error halt s := by
  rw [iget_free k dev num free, iget_loop_lock, iget_loop_searches, miss, unused, Option.map_none, Option.getD_none, igetFound]
  exact iget_load_run (k.lock .icache) i dev num

theorem iget_cases (k t : Kernel) (dev : Dev) (num : Ino) (i : InodeId)
    (done : (iget dev num).run k = .ok i t) :
    k.locks .icache = none ∧
      ((findInode k dev num = some i ∧ t = k) ∨
        (findInode k dev num = none ∧ freeInode k = some i ∧
          ∃ b s, (bread dev (tableBlk k dev num)).run (k.lock .icache) = .ok b s ∧
            t = s.loadedInode i b dev num)) := by
  by_cases free : k.locks .icache = none
  · refine ⟨free, ?_⟩
    cases hit : findInode k dev num with
    | some j =>
        rw [iget_hit k dev num j free hit] at done
        cases done
        exact .inl ⟨rfl, rfl⟩
    | none =>
        cases unused : freeInode k with
        | some j =>
            rw [iget_missed k dev num j free hit unused] at done
            cases read : (bread dev (tableBlk k dev num)).run (k.lock .icache) with
            | ok b s =>
                rw [read] at done
                cases done
                exact .inr ⟨rfl, rfl, b, s, rfl, rfl⟩
            | error halt s =>
                rw [read] at done
                cases done
        | none =>
            rw [iget_full k dev num free hit unused] at done
            cases done
  · rw [iget_blocked k dev num free] at done
    cases done

def Inode.written (x : Inode) : Inode := { x with iFlag := x.iFlag &&& notIdirt, iCount := x.iCount - 1 }

def Kernel.storeInode (s : Kernel) (b : BufId) (i : InodeId) : Kernel :=
  s.setBlock b { s.blocks b with
    bData := storeRecord sizeofDInode (s.blocks b).bData (s.inodes i).iNum (s.inodes i).toDInode.bytes }

def Kernel.clearInode (s : Kernel) (b : BufId) (i : InodeId) : Kernel :=
  s.setBlock b { s.blocks b with
    bData := clearRecord sizeofDInode (s.blocks b).bData (s.inodes i).iNum }

def Kernel.wroteInode (w : Kernel) (i : InodeId) : Kernel :=
  (w.setInode i (w.inodes i).written).unlock (.ino i)

theorem iput_blocked (k : Kernel) (i : InodeId) (taken : k.locks (.ino i) ≠ none) :
    (iput i).run k = .error (.blocked (.ino i)) k := by
  rw [iput, EStateM.run_bind, acquire_blocked k (.ino i) taken]

theorem iput_clean (k : Kernel) (i : InodeId) (free : k.locks (.ino i) = none)
    (clean : (k.inodes i).iFlag &&& idirt = 0) : (iput i).run k = .ok 0 (k.lock (.ino i)) := by
  rw [iput, acquire_get (.ino i) k _ free]
  simp [clean]

theorem iput_dirty (k : Kernel) (i : InodeId) (free : k.locks (.ino i) = none)
    (dirty : (k.inodes i).iFlag &&& idirt ≠ 0) :
    (iput i).run k =
      match (bread (k.inodes i).iDev (tableBlk k (k.inodes i).iDev (k.inodes i).iNum)).run (k.lock (.ino i)) with
      | .error halt s => .error halt s
      | .ok b s => match (bwrite b).run (s.storeInode b i) with
        | .error halt w => .error halt w
        | .ok _ w => .ok 0 (w.wroteInode i) := by
  rw [iput, acquire_get (.ino i) k _ free]
  simp only [Kernel.lock_inodes, if_pos dirty]
  rw [EStateM.run_bind, table_blk_lock]
  cases (bread (k.inodes i).iDev (tableBlk k (k.inodes i).iDev (k.inodes i).iNum)).run (k.lock (.ino i)) with
  | error halt s => rfl
  | ok b s =>
      simp only [EStateM.run_bind, EStateM.run_modify]
      rw [← Kernel.storeInode]
      cases (bwrite b).run (s.storeInode b i) with
      | error halt w => rfl
      | ok r w => rfl

theorem written_back_ok (read : EStateM.Result Halt Kernel BufId)
    (write : BufId → Kernel → EStateM.Result Halt Kernel Int) (after : Kernel → Kernel) (r : Int) (t : Kernel) :
    (match read with
      | .error halt s => .error halt s
      | .ok b s => match write b s with
        | .error halt w => .error halt w
        | .ok _ w => .ok 0 (after w)) = EStateM.Result.ok r t ↔
      ∃ b s q w, read = .ok b s ∧ write b s = .ok q w ∧ r = 0 ∧ t = after w := by
  constructor
  · intro done
    cases read with
    | error halt s => cases done
    | ok b s =>
        cases wrote : write b s with
        | error halt w =>
            simp only [wrote] at done
            cases done
        | ok q w =>
            simp only [wrote] at done
            cases done
            exact ⟨b, s, q, w, rfl, wrote, rfl, rfl⟩
  · rintro ⟨b, s, q, w, rfl, wrote, rfl, rfl⟩
    simp only [wrote]

theorem iput_stored (k s w : Kernel) (i : InodeId) (b : BufId) (q : Int) (free : k.locks (.ino i) = none)
    (dirty : (k.inodes i).iFlag &&& idirt ≠ 0)
    (read : (bread (k.inodes i).iDev (tableBlk k (k.inodes i).iDev (k.inodes i).iNum)).run (k.lock (.ino i)) = .ok b s)
    (wrote : (bwrite b).run (s.storeInode b i) = .ok q w) : (iput i).run k = .ok 0 (w.wroteInode i) := by
  rw [iput_dirty k i free dirty, read]
  simp only [wrote]

theorem iput_cases (k t : Kernel) (i : InodeId) (r : Int) (done : (iput i).run k = .ok r t) :
    k.locks (.ino i) = none ∧ r = 0 ∧
      (((k.inodes i).iFlag &&& idirt = 0 ∧ t = k.lock (.ino i)) ∨
        ((k.inodes i).iFlag &&& idirt ≠ 0 ∧
          ∃ b s q w, (bread (k.inodes i).iDev (tableBlk k (k.inodes i).iDev (k.inodes i).iNum)).run
              (k.lock (.ino i)) = .ok b s ∧
            (bwrite b).run (s.storeInode b i) = .ok q w ∧ t = w.wroteInode i)) := by
  by_cases free : k.locks (.ino i) = none
  · refine ⟨free, ?_⟩
    by_cases dirty : (k.inodes i).iFlag &&& idirt = 0
    · rw [iput_clean k i free dirty] at done
      cases done
      exact ⟨rfl, .inl ⟨dirty, rfl⟩⟩
    · rw [iput_dirty k i free dirty] at done
      obtain ⟨b, s, q, w, read, wrote, zero, after⟩ :=
        (written_back_ok _ (fun b s => (bwrite b).run (s.storeInode b i)) (fun w => w.wroteInode i) r t).mp done
      exact ⟨zero, .inr ⟨dirty, b, s, q, w, read, wrote, after⟩⟩
  · rw [iput_blocked k i free] at done
    cases done

theorem ifree_blocked (k : Kernel) (i : InodeId) (taken : k.locks (.ino i) ≠ none) :
    (ifree i).run k = .error (.blocked (.ino i)) k := by
  rw [ifree, EStateM.run_bind, acquire_blocked k (.ino i) taken]

theorem ifree_free (k : Kernel) (i : InodeId) (free : k.locks (.ino i) = none) :
    (ifree i).run k =
      match (bread (k.inodes i).iDev (tableBlk k (k.inodes i).iDev (k.inodes i).iNum)).run (k.lock (.ino i)) with
      | .error halt s => .error halt s
      | .ok b s => match (bwrite b).run (s.clearInode b i) with
        | .error halt w => .error halt w
        | .ok _ w => .ok 0 (w.unlock (.ino i)) := by
  rw [ifree, acquire_get (.ino i) k _ free]
  rw [EStateM.run_bind, table_blk_lock, Kernel.lock_inodes]
  cases (bread (k.inodes i).iDev (tableBlk k (k.inodes i).iDev (k.inodes i).iNum)).run (k.lock (.ino i)) with
  | error halt s => rfl
  | ok b s =>
      simp only [EStateM.run_bind, EStateM.run_modify]
      rw [← Kernel.clearInode]
      cases (bwrite b).run (s.clearInode b i) with
      | error halt w => rfl
      | ok r w => rfl

theorem ifree_cases (k t : Kernel) (i : InodeId) (r : Int) (done : (ifree i).run k = .ok r t) :
    k.locks (.ino i) = none ∧
      ∃ b s q w, (bread (k.inodes i).iDev (tableBlk k (k.inodes i).iDev (k.inodes i).iNum)).run
          (k.lock (.ino i)) = .ok b s ∧
        (bwrite b).run (s.clearInode b i) = .ok q w ∧ t = w.unlock (.ino i) := by
  by_cases free : k.locks (.ino i) = none
  · refine ⟨free, ?_⟩
    rw [ifree_free k i free] at done
    obtain ⟨b, s, q, w, read, wrote, -, after⟩ :=
      (written_back_ok _ (fun b s => (bwrite b).run (s.clearInode b i)) (fun w => w.unlock (.ino i)) r t).mp done
    exact ⟨b, s, q, w, read, wrote, after⟩
  · rw [ifree_blocked k i free] at done
    cases done

theorem ilock_run (k : Kernel) (i : InodeId) :
    (ilock i).run k =
      if k.locks .icache = some k.current then
        if k.locks (.ino i) = none then .ok 0 (k.lock (.ino i)) else .error (.blocked (.ino i)) k
      else .ok 0 k := by
  by_cases held : k.locks .icache = some k.current
  · by_cases free : k.locks (.ino i) = none
    · simp [ilock, held, free, acquire_free k (.ino i) free]
    · simp [ilock, held, free, acquire_blocked k (.ino i) free]
  · simp [ilock, held]

theorem irelease_run (k : Kernel) (i : InodeId) :
    (irelease i).run k = .ok 0
      (if k.locks (.ino i) = some k.current then
        (k.setInode i { k.inodes i with iCount := (k.inodes i).iCount - 1 }).unlock (.ino i) else k) := by
  by_cases mine : k.locks (.ino i) = some k.current <;>
    simp [irelease, mine]

end Yaup
