import Yaup.Kernel

set_option autoImplicit false

namespace Yaup

open Lib

def diskRead (b : BufId) : Kern Unit :=
  modify fun k => k.setBlock b { k.blocks b with bData := k.disk (k.blocks b).key }

def diskWrite (b : BufId) : Kern Unit :=
  modify fun k => k.setDisk (k.blocks b).key (k.blocks b).bData

def findBlock (k : Kernel) (dev : Dev) (blk : Blk) : Option BufId :=
  Fin.find? fun b => decide ((k.blocks b).bDev = dev ∧ (k.blocks b).bBlk = blk)

def freeBlock (k : Kernel) : Option BufId :=
  Fin.find? fun b => decide ((k.blocks b).bCount = 0)

def bget (dev : Dev) (blk : Blk) : Kern BufId := do
  acquire .buffer
  let k ← get
  match findBlock k dev blk with
  | some b =>
      release .buffer
      return b
  | none =>
      match freeBlock k with
      | some b =>
          set (k.setBlock b { k.blocks b with bBlk := blk, bDev := dev, bDirty := false })
          initlock (.buf b)
          release .buffer
          return b
      | none => panic "bget: no buffer available"

-- The part of bread after bget: the block is counted only where it was not in use.
def breadBody (b : BufId) : Kern BufId := do
  let k ← get
  if (k.blocks b).bCount = 0 then
    diskRead b
    modify fun k => k.setBlock b { k.blocks b with bCount := (k.blocks b).bCount + 1 }
  return b

def bread (dev : Dev) (blk : Blk) : Kern BufId := do
  let b ← bget dev blk
  breadBody b

-- memset by its contract: it zeroes the BLK_SZ bytes of b_data.
def bwrite (b : BufId) : Kern Int := do
  acquire (.buf b)
  let k ← get
  if ¬ (k.blocks b).bDirty then
    release (.buf b)
    return 0
  diskWrite b
  modify fun k => k.setBlock b { k.blocks b with bCount := (k.blocks b).bCount - 1 }
  let k ← get
  if (k.blocks b).bCount = 0 then
    set (k.setBlock b { k.blocks b with bBlk := 0, bDev := 0, bData := zeroBlock })
  return 0

def brelease (b : BufId) : Kern Int := do
  let k ← get
  if (k.blocks b).bCount = 0 then
    panic "brelease: unused buffer"
  if ← holdingsleep (.buf b) then
    modify fun k => k.setBlock b { k.blocks b with bCount := (k.blocks b).bCount - 1 }
    release (.buf b)
  return 0

theorem find_block_some (k : Kernel) (dev : Dev) (blk : Blk) (b : BufId) :
    findBlock k dev blk = some b ↔
      (k.blocks b).key = (dev, blk) ∧ ∀ c < b, (k.blocks c).key ≠ (dev, blk) := by
  simp [findBlock, Buffer.key]

theorem find_block_none (k : Kernel) (dev : Dev) (blk : Blk) :
    findBlock k dev blk = none ↔ ∀ b, (k.blocks b).key ≠ (dev, blk) := by
  simp [findBlock, Buffer.key]

theorem free_block_some (k : Kernel) (b : BufId) :
    freeBlock k = some b ↔ (k.blocks b).bCount = 0 ∧ ∀ c < b, (k.blocks c).bCount ≠ 0 := by
  simp [freeBlock]

theorem free_block_none (k : Kernel) : freeBlock k = none ↔ ∀ b, (k.blocks b).bCount ≠ 0 := by
  simp [freeBlock]

def Buffer.rekey (x : Buffer) (dev : Dev) (blk : Blk) : Buffer :=
  { x with bBlk := blk, bDev := dev, bDirty := false }

def Buffer.fill (x : Buffer) (data : Block) : Buffer :=
  { x with bData := data, bCount := x.bCount + 1 }

def Buffer.drop (x : Buffer) : Buffer := { x with bCount := x.bCount - 1 }

def Buffer.wipe (x : Buffer) : Buffer := { x with bBlk := 0, bDev := 0, bData := zeroBlock }

theorem bget_hit (k : Kernel) (dev : Dev) (blk : Blk) (b : BufId) (free : k.locks .buffer = none)
    (hit : findBlock k dev blk = some b) : (bget dev blk).run k = .ok b k := by
  have seen : findBlock (k.lock .buffer) dev blk = some b := hit
  rw [bget, acquire_get .buffer k _ free, seen]
  simp only [EStateM.run_bind, release_run, EStateM.run_pure, Kernel.unlock_lock k .buffer free]

theorem bget_recycle (k : Kernel) (dev : Dev) (blk : Blk) (b : BufId) (free : k.locks .buffer = none)
    (miss : findBlock k dev blk = none) (unused : freeBlock k = some b) :
    (bget dev blk).run k = .ok b ((k.setBlock b ((k.blocks b).rekey dev blk)).unlock (.buf b)) := by
  have seen : findBlock (k.lock .buffer) dev blk = none := miss
  have found : freeBlock (k.lock .buffer) = some b := unused
  have locks : Function.update (Function.update (Function.update k.locks .buffer (some k.current))
      (.buf b) none) .buffer none = Function.update k.locks (.buf b) none := by
    rw [Function.update_comm (by simp), Function.update_idem, ← free, Function.update_eq_self]
  rw [bget, acquire_get .buffer k _ free, seen]
  simp only [found, EStateM.run_bind, EStateM.run_set, initlock_run, release_run, EStateM.run_pure]
  simp [Buffer.rekey, Kernel.unlock, Kernel.setBlock, Kernel.lock, locks]

theorem bget_full (k : Kernel) (dev : Dev) (blk : Blk) (free : k.locks .buffer = none)
    (miss : findBlock k dev blk = none) (full : freeBlock k = none) :
    (bget dev blk).run k = .error (.panic "bget: no buffer available") (k.lock .buffer) := by
  have seen : findBlock (k.lock .buffer) dev blk = none := miss
  have found : freeBlock (k.lock .buffer) = none := full
  rw [bget, acquire_get .buffer k _ free, seen]
  simp only [found, panic_run]

theorem bget_blocked (k : Kernel) (dev : Dev) (blk : Blk) (taken : k.locks .buffer ≠ none) :
    (bget dev blk).run k = .error (.blocked .buffer) k := by
  simp [bget, acquire_blocked k .buffer taken]

theorem bget_cases (k t : Kernel) (dev : Dev) (blk : Blk) (b : BufId)
    (done : (bget dev blk).run k = .ok b t) :
    k.locks .buffer = none ∧
      ((findBlock k dev blk = some b ∧ t = k) ∨
        (findBlock k dev blk = none ∧ freeBlock k = some b ∧
          t = (k.setBlock b ((k.blocks b).rekey dev blk)).unlock (.buf b))) := by
  by_cases free : k.locks .buffer = none
  · refine ⟨free, ?_⟩
    cases hit : findBlock k dev blk with
    | some c =>
        rw [bget_hit k dev blk c free hit] at done
        cases done
        exact .inl ⟨rfl, rfl⟩
    | none =>
        cases unused : freeBlock k with
        | some c =>
            rw [bget_recycle k dev blk c free hit unused] at done
            cases done
            exact .inr ⟨rfl, rfl, rfl⟩
        | none =>
            rw [bget_full k dev blk free hit unused] at done
            cases done
  · rw [bget_blocked k dev blk free] at done
    cases done

theorem bget_halts (k t : Kernel) (dev : Dev) (blk : Blk) (e : Halt) (halted : (bget dev blk).run k = .error e t) :
    (e = .blocked .buffer ∧ t = k) ∨ ∃ msg, e = .panic msg := by
  by_cases free : k.locks .buffer = none
  · cases hit : findBlock k dev blk with
    | some b =>
        rw [bget_hit k dev blk b free hit] at halted
        cases halted
    | none =>
        cases unused : freeBlock k with
        | some b =>
            rw [bget_recycle k dev blk b free hit unused] at halted
            cases halted
        | none =>
            rw [bget_full k dev blk free hit unused] at halted
            cases halted
            exact .inr ⟨_, rfl⟩
  · rw [bget_blocked k dev blk free] at halted
    cases halted
    exact .inl ⟨rfl, rfl⟩

theorem bread_body_run (k : Kernel) (b : BufId) :
    (breadBody b).run k = .ok b
      (if (k.blocks b).bCount = 0 then k.setBlock b ((k.blocks b).fill (k.disk (k.blocks b).key)) else k) := by
  by_cases zero : (k.blocks b).bCount = 0
  · simp [breadBody, diskRead, zero, Buffer.fill, Kernel.setBlock]
  · simp [breadBody, zero]

theorem bread_held (k : Kernel) (dev : Dev) (blk : Blk) (b : BufId) (free : k.locks .buffer = none)
    (hit : findBlock k dev blk = some b) (used : (k.blocks b).bCount ≠ 0) :
    (bread dev blk).run k = .ok b k := by
  rw [bread, EStateM.run_bind, bget_hit k dev blk b free hit]
  exact (bread_body_run k b).trans (by rw [if_neg used])

theorem bread_reload (k : Kernel) (dev : Dev) (blk : Blk) (b : BufId) (free : k.locks .buffer = none)
    (hit : findBlock k dev blk = some b) (zero : (k.blocks b).bCount = 0) :
    (bread dev blk).run k = .ok b (k.setBlock b ((k.blocks b).fill (k.disk (dev, blk)))) := by
  have key := ((find_block_some k dev blk b).mp hit).1
  rw [bread, EStateM.run_bind, bget_hit k dev blk b free hit]
  exact (bread_body_run k b).trans (by rw [if_pos zero, key])

theorem bread_recycle (k : Kernel) (dev : Dev) (blk : Blk) (b : BufId) (free : k.locks .buffer = none)
    (miss : findBlock k dev blk = none) (unused : freeBlock k = some b) :
    (bread dev blk).run k = .ok b
      ((k.setBlock b (((k.blocks b).rekey dev blk).fill (k.disk (dev, blk)))).unlock (.buf b)) := by
  have zero := ((free_block_some k b).mp unused).1
  rw [bread, EStateM.run_bind, bget_recycle k dev blk b free miss unused]
  refine (bread_body_run _ b).trans ?_
  simp [Kernel.setBlock, Kernel.unlock, Buffer.key, Buffer.rekey, zero]

theorem bread_blocked (k : Kernel) (dev : Dev) (blk : Blk) (taken : k.locks .buffer ≠ none) :
    (bread dev blk).run k = .error (.blocked .buffer) k := by
  rw [bread, EStateM.run_bind, bget_blocked k dev blk taken]

theorem bread_full (k : Kernel) (dev : Dev) (blk : Blk) (free : k.locks .buffer = none)
    (miss : findBlock k dev blk = none) (full : freeBlock k = none) :
    (bread dev blk).run k = .error (.panic "bget: no buffer available") (k.lock .buffer) := by
  rw [bread, EStateM.run_bind, bget_full k dev blk free miss full]

theorem bread_cases (k t : Kernel) (dev : Dev) (blk : Blk) (b : BufId)
    (done : (bread dev blk).run k = .ok b t) :
    k.locks .buffer = none ∧
      ((findBlock k dev blk = some b ∧ (k.blocks b).bCount ≠ 0 ∧ t = k) ∨
        (findBlock k dev blk = some b ∧ (k.blocks b).bCount = 0 ∧
          t = k.setBlock b ((k.blocks b).fill (k.disk (dev, blk)))) ∨
        (findBlock k dev blk = none ∧ freeBlock k = some b ∧
          t = (k.setBlock b (((k.blocks b).rekey dev blk).fill (k.disk (dev, blk)))).unlock (.buf b))) := by
  by_cases free : k.locks .buffer = none
  · refine ⟨free, ?_⟩
    cases hit : findBlock k dev blk with
    | some c =>
        by_cases zero : (k.blocks c).bCount = 0
        · rw [bread_reload k dev blk c free hit zero] at done
          cases done
          exact .inr (.inl ⟨rfl, zero, rfl⟩)
        · rw [bread_held k dev blk c free hit zero] at done
          cases done
          exact .inl ⟨rfl, zero, rfl⟩
    | none =>
        cases unused : freeBlock k with
        | some c =>
            rw [bread_recycle k dev blk c free hit unused] at done
            cases done
            exact .inr (.inr ⟨rfl, rfl, rfl⟩)
        | none =>
            rw [bread_full k dev blk free hit unused] at done
            cases done
  · rw [bread_blocked k dev blk free] at done
    cases done

def Kernel.wroteBack (k : Kernel) (b : BufId) : Kernel :=
  ((k.lock (.buf b)).setDisk (k.blocks b).key (k.blocks b).bData).setBlock b
    (if (k.blocks b).bCount - 1 = 0 then (k.blocks b).drop.wipe else (k.blocks b).drop)

theorem bwrite_run (k : Kernel) (b : BufId) :
    (bwrite b).run k =
      if k.locks (.buf b) = none then .ok 0 (if (k.blocks b).bDirty then k.wroteBack b else k)
      else .error (.blocked (.buf b)) k := by
  by_cases free : k.locks (.buf b) = none
  · rw [if_pos free]
    cases dirty : (k.blocks b).bDirty with
    | false =>
        simp [bwrite, acquire_free k _ free, dirty, Kernel.unlock_lock k _ free]
    | true =>
        by_cases last : (k.blocks b).bCount - 1 = 0 <;>
          simp [bwrite, acquire_free k _ free, dirty, diskWrite, Kernel.wroteBack, last, Kernel.setBlock,
            Kernel.setDisk, Kernel.lock, Buffer.drop, Buffer.wipe]
  · rw [if_neg free]
    simp [bwrite, acquire_blocked k _ free]

theorem brelease_run (k : Kernel) (b : BufId) :
    (brelease b).run k =
      if (k.blocks b).bCount = 0 then .error (.panic "brelease: unused buffer") k
      else .ok 0 (if k.locks (.buf b) = some k.current then
        (k.setBlock b (k.blocks b).drop).unlock (.buf b) else k) := by
  by_cases zero : (k.blocks b).bCount = 0
  · simp [brelease, zero]
  · by_cases mine : k.locks (.buf b) = some k.current <;>
      simp [brelease, zero, mine, Buffer.drop]

theorem bwrite_cases (k t : Kernel) (b : BufId) (r : Int) (done : (bwrite b).run k = .ok r t) :
    k.locks (.buf b) = none ∧ r = 0 ∧
      (((k.blocks b).bDirty = false ∧ t = k) ∨ ((k.blocks b).bDirty = true ∧ t = k.wroteBack b)) := by
  rw [bwrite_run] at done
  by_cases free : k.locks (.buf b) = none
  · rw [if_pos free] at done
    cases dirty : (k.blocks b).bDirty with
    | false =>
        simp only [dirty] at done
        cases done
        exact ⟨free, rfl, .inl ⟨rfl, rfl⟩⟩
    | true =>
        simp only [dirty] at done
        cases done
        exact ⟨free, rfl, .inr ⟨rfl, rfl⟩⟩
  · rw [if_neg free] at done
    cases done

theorem brelease_cases (k t : Kernel) (b : BufId) (r : Int) (done : (brelease b).run k = .ok r t) :
    (k.blocks b).bCount ≠ 0 ∧ r = 0 ∧
      ((k.locks (.buf b) = some k.current ∧ t = (k.setBlock b (k.blocks b).drop).unlock (.buf b)) ∨
        (k.locks (.buf b) ≠ some k.current ∧ t = k)) := by
  rw [brelease_run] at done
  by_cases zero : (k.blocks b).bCount = 0
  · rw [if_pos zero] at done
    cases done
  · rw [if_neg zero] at done
    by_cases mine : k.locks (.buf b) = some k.current
    · rw [if_pos mine] at done
      cases done
      exact ⟨zero, rfl, .inl ⟨mine, rfl⟩⟩
    · rw [if_neg mine] at done
      cases done
      exact ⟨zero, rfl, .inr ⟨mine, rfl⟩⟩

@[simps -fullyApplied] def twoSlots (p : Pid) (x y : Buffer) (disk : Dev × Blk → Block)
    (locks : Lock → Option Pid) : Kernel :=
  { Kernel.zero with
    current := p
    disk := disk
    blocks := fun b => if b = 0 then x else if b = 1 then y else zeroBuffer
    locks := locks }

@[simp] theorem nr_buf_ne_one : nrBuf ≠ 1 := by decide

theorem below_second_slot (c : BufId) (below : c < 1) : c = 0 := by
  have bound : c.val < 1 := below
  exact Fin.ext (by simpa using bound)

section
variable (p : Pid) (x y z : Buffer) (disk : Dev × Blk → Block) (locks : Lock → Option Pid)

theorem two_slots_find_first (dev : Dev) (blk : Blk) (key : x.key = (dev, blk)) :
    findBlock (twoSlots p x y disk locks) dev blk = some 0 :=
  (find_block_some _ dev blk 0).mpr ⟨by simpa using key, by simp⟩

theorem two_slots_find_second (dev : Dev) (blk : Blk) (other : x.key ≠ (dev, blk)) (key : y.key = (dev, blk)) :
    findBlock (twoSlots p x y disk locks) dev blk = some 1 := by
  refine (find_block_some _ dev blk 1).mpr ⟨by simpa using key, ?_⟩
  intro c below
  have zero := below_second_slot c below
  simpa [zero] using other

theorem two_slots_find_none (dev : Dev) (blk : Blk) (first : x.key ≠ (dev, blk)) (second : y.key ≠ (dev, blk))
    (named : (dev, blk) ≠ (0, 0)) : findBlock (twoSlots p x y disk locks) dev blk = none := by
  refine (find_block_none _ dev blk).mpr ?_
  intro c
  simp only [twoSlots_blocks]
  split
  · exact first
  · split
    · exact second
    · exact Ne.symm named

theorem two_slots_free_first (idle : x.bCount = 0) : freeBlock (twoSlots p x y disk locks) = some 0 :=
  (free_block_some _ 0).mpr ⟨by simpa using idle, by simp⟩

theorem two_slots_set_first :
    (twoSlots p x y disk locks).setBlock 0 z = twoSlots p z y disk locks := by
  simp only [Kernel.setBlock, twoSlots]
  congr
  funext b
  by_cases zero : b = 0 <;> simp [zero]

theorem two_slots_set_second :
    (twoSlots p x y disk locks).setBlock 1 z = twoSlots p x z disk locks := by
  simp only [Kernel.setBlock, twoSlots]
  congr
  funext b
  by_cases one : b = 1
  · subst one
    simp
  · simp [one]

theorem two_slots_recycle (dev : Dev) (blk : Blk) (free : locks .buffer = none) (idle : x.bCount = 0)
    (first : x.key ≠ (dev, blk)) (second : y.key ≠ (dev, blk)) (named : (dev, blk) ≠ (0, 0)) :
    (bread dev blk).run (twoSlots p x y disk locks) = .ok 0
      (twoSlots p ((x.rekey dev blk).fill (disk (dev, blk))) y disk (Function.update locks (.buf 0) none)) := by
  rw [bread_recycle _ dev blk 0 free (two_slots_find_none p x y disk locks dev blk first second named)
    (two_slots_free_first p x y disk locks idle), two_slots_set_first]
  simp [Kernel.unlock, twoSlots]

theorem two_slots_held (dev : Dev) (blk : Blk) (free : locks .buffer = none) (used : x.bCount ≠ 0)
    (key : x.key = (dev, blk)) :
    (bread dev blk).run (twoSlots p x y disk locks) = .ok 0 (twoSlots p x y disk locks) :=
  bread_held _ dev blk 0 free (two_slots_find_first p x y disk locks dev blk key) (by simpa using used)

theorem two_slots_reload_first (dev : Dev) (blk : Blk) (free : locks .buffer = none) (idle : x.bCount = 0)
    (key : x.key = (dev, blk)) :
    (bread dev blk).run (twoSlots p x y disk locks) = .ok 0
      (twoSlots p (x.fill (disk (dev, blk))) y disk locks) := by
  rw [bread_reload _ dev blk 0 free (two_slots_find_first p x y disk locks dev blk key) (by simpa using idle),
    two_slots_set_first]
  simp

theorem two_slots_reload_second (dev : Dev) (blk : Blk) (free : locks .buffer = none) (idle : y.bCount = 0)
    (other : x.key ≠ (dev, blk)) (key : y.key = (dev, blk)) :
    (bread dev blk).run (twoSlots p x y disk locks) = .ok 1
      (twoSlots p x (y.fill (disk (dev, blk))) disk locks) := by
  rw [bread_reload _ dev blk 1 free (two_slots_find_second p x y disk locks dev blk other key)
    (by simpa using idle), two_slots_set_second]
  simp

theorem two_slots_wipe (free : locks (.buf 0) = none) (dirty : x.bDirty = true) (last : x.bCount = 1) :
    (bwrite 0).run (twoSlots p x y disk locks) = .ok 0
      (twoSlots p x.drop.wipe y (Function.update disk x.key x.bData)
        (Function.update locks (.buf 0) (some p))) := by
  rw [bwrite_run, if_pos (by simpa using free), if_pos (by simpa using dirty)]
  have gone : ((twoSlots p x y disk locks).blocks 0).bCount - 1 = 0 := by simp [last]
  rw [Kernel.wroteBack, if_pos gone]
  exact congrArg _ (two_slots_set_first p x y x.drop.wipe (Function.update disk x.key x.bData)
    (Function.update locks (.buf 0) (some p)))

theorem two_slots_keep (used : x.bCount ≠ 0) (unlocked : locks (.buf 0) ≠ some p) :
    (brelease 0).run (twoSlots p x y disk locks) = .ok 0 (twoSlots p x y disk locks) := by
  rw [brelease_run, if_neg (by simpa using used), if_neg (by simpa using unlocked)]

end

theorem zero_two_slots :
    Kernel.zero = twoSlots 0 zeroBuffer zeroBuffer (fun _ => zeroBlock) freeLocks := by
  simp [twoSlots, Kernel.zero]

def openedBuffer : Buffer := ⟨zeroBlock, 1, 5, false, 1⟩

theorem two_slots_open :
    (bread 1 5).run (twoSlots 0 zeroBuffer zeroBuffer (fun _ => zeroBlock) freeLocks) =
      .ok 0 (twoSlots 0 openedBuffer zeroBuffer (fun _ => zeroBlock) freeLocks) := by
  rw [two_slots_recycle _ _ _ _ _ 1 5 rfl rfl (by decide) (by decide) (by decide), free_locks_unlock]
  rfl

end Yaup
