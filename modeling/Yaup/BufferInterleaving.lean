import Mathlib.Data.List.Basic
import Yaup.BufferClients

set_option autoImplicit false

namespace Yaup

open Lib

-- Where a caller is with the slot bget picked for it: a bread that has not yet run the
-- rest of its body, a bread that has, or a balloc, which runs no more than bget.
inductive Phase where
  | reading
  | held
  | alloc
deriving DecidableEq

structure Pick where
  pid : Pid
  buf : BufId
  key : Dev × Blk
  phase : Phase
deriving DecidableEq

structure Interleaved where
  kernel : Kernel
  picks : List Pick

inductive PickAct where
  | bget (p : Pid) (dev : Dev) (blk : Blk) (forBalloc : Bool)
  | body (q : Pick)
  | change (q : Pick) (patch : Patch)
  | bwrite (q : Pick)
  | brelease (q : Pick)

inductive PickStep : Interleaved → PickAct → Interleaved → Prop where
  | bget (s : Interleaved) (t : Kernel) (p : Pid) (dev : Dev) (blk : Blk) (forBalloc : Bool) (b : BufId)
      (done : (bget dev blk).run (s.kernel.runAs p) = .ok b t) :
      PickStep s (.bget p dev blk forBalloc)
        ⟨t, ⟨p, b, (dev, blk), if forBalloc then .alloc else .reading⟩ :: s.picks⟩
  | body (s : Interleaved) (t : Kernel) (q : Pick) (b : BufId) (mine : q ∈ s.picks) (pending : q.phase = .reading)
      (done : (breadBody q.buf).run (s.kernel.runAs q.pid) = .ok b t) :
      PickStep s (.body q) ⟨t, { q with phase := .held } :: s.picks.erase q⟩
  | change (s : Interleaved) (q : Pick) (patch : Patch) (mine : q ∈ s.picks) (ready : q.phase ≠ .reading) :
      PickStep s (.change q patch) ⟨s.kernel.setBlock q.buf ((s.kernel.blocks q.buf).store patch), s.picks⟩
  | bwrite (s : Interleaved) (t : Kernel) (q : Pick) (r : Int) (mine : q ∈ s.picks) (ready : q.phase ≠ .reading)
      (done : (bwrite q.buf).run (s.kernel.runAs q.pid) = .ok r t) :
      PickStep s (.bwrite q) ⟨t, s.picks.erase q⟩
  | brelease (s : Interleaved) (t : Kernel) (q : Pick) (r : Int) (mine : q ∈ s.picks) (ready : q.phase ≠ .reading)
      (done : (brelease q.buf).run (s.kernel.runAs q.pid) = .ok r t) :
      PickStep s (.brelease q) ⟨t, s.picks.erase q⟩

def PicksKeyed (s : Interleaved) : Prop := ∀ q ∈ s.picks, (s.kernel.blocks q.buf).key = q.key

def WipesNobody (m : Move Interleaved PickAct) : Prop :=
  ∀ q, m.act = .bwrite q → (m.before.kernel.blocks q.buf).bDirty = true →
    (m.after.kernel.blocks q.buf).bCount = 0 → ∀ r ∈ m.after.picks, r.buf ≠ q.buf

def OnlyCaller (s : Interleaved) (q : Pick) : Prop := ∀ r ∈ s.picks.erase q, r.buf ≠ q.buf

-- bget's second loop takes no slot that a bread between bget and its count, or a balloc,
-- has; and a call that takes a count to zero is made by the slot's only caller.
def Undisputed (s : Interleaved) : PickAct → Prop
  | .bget _ dev blk _ => findBlock s.kernel dev blk = none → ∀ b, freeBlock s.kernel = some b →
      ∀ q ∈ s.picks, q.buf = b → q.phase = .held
  | .body _ => True
  | .change _ _ => True
  | .bwrite q => (s.kernel.blocks q.buf).bDirty = true → (s.kernel.blocks q.buf).bCount = 1 → OnlyCaller s q
  | .brelease q => s.kernel.locks (.buf q.buf) = some q.pid → (s.kernel.blocks q.buf).bCount = 1 →
      OnlyCaller s q

structure Reserved (s : Interleaved) : Prop where
  keyed : PicksKeyed s
  counted : ∀ q ∈ s.picks, q.phase = .held → (s.kernel.blocks q.buf).bCount ≠ 0

theorem start_reserved (k : Kernel) : Reserved ⟨k, []⟩ := ⟨by simp [PicksKeyed], by simp⟩

theorem reserved_kept (s : Interleaved) (t : Kernel) (picks : List Pick) (good : Reserved s)
    (older : ∀ q ∈ picks, q ∈ s.picks)
    (keys : ∀ q ∈ picks, (t.blocks q.buf).key = (s.kernel.blocks q.buf).key)
    (counts : ∀ q ∈ picks, (s.kernel.blocks q.buf).bCount ≠ 0 → (t.blocks q.buf).bCount ≠ 0) :
    Reserved ⟨t, picks⟩ where
  keyed := fun q member => (keys q member).trans (good.keyed q (older q member))
  counted := fun q member held => counts q member (good.counted q (older q member) held)

theorem bget_reserved (s : Interleaved) (t : Kernel) (p : Pid) (dev : Dev) (blk : Blk) (forBalloc : Bool)
    (b : BufId) (good : Reserved s) (done : (bget dev blk).run (s.kernel.runAs p) = .ok b t)
    (undisputed : Undisputed s (.bget p dev blk forBalloc)) :
    Reserved ⟨t, ⟨p, b, (dev, blk), if forBalloc then .alloc else .reading⟩ :: s.picks⟩ := by
  have waits : (if forBalloc then Phase.alloc else Phase.reading) ≠ .held := by cases forBalloc <;> decide
  obtain ⟨-, ⟨hit, rfl⟩ | ⟨miss, unused, rfl⟩⟩ := bget_cases _ _ _ _ _ done
  · have key := ((find_block_some _ dev blk b).mp hit).1
    refine ⟨?_, ?_⟩
    · intro q member
      rcases List.mem_cons.mp member with same | older
      · subst same
        exact key
      · exact good.keyed q older
    · intro q member held
      rcases List.mem_cons.mp member with same | older
      · subst same
        exact absurd held waits
      · exact good.counted q older held
  · have zero := ((free_block_some _ b).mp unused).1
    have apart : ∀ q ∈ s.picks, q.buf ≠ b := by
      intro q member same
      have held := undisputed miss b unused q member same
      exact good.counted q member held (same ▸ zero)
    refine ⟨?_, ?_⟩
    · intro q member
      rcases List.mem_cons.mp member with same | older
      · subst same
        simp [Buffer.key, Buffer.rekey]
      · simpa [apart q older] using good.keyed q older
    · intro q member held
      rcases List.mem_cons.mp member with same | older
      · subst same
        exact absurd held waits
      · simpa [apart q older] using good.counted q older held

theorem body_reserved (s : Interleaved) (t : Kernel) (q : Pick) (b : BufId) (mine : q ∈ s.picks)
    (good : Reserved s) (done : (breadBody q.buf).run (s.kernel.runAs q.pid) = .ok b t) :
    Reserved ⟨t, { q with phase := .held } :: s.picks.erase q⟩ := by
  rw [bread_body_run, Kernel.runAs_blocks] at done
  have after : (∀ c, (t.blocks c).key = (s.kernel.blocks c).key) ∧ (t.blocks q.buf).bCount ≠ 0 ∧
      ∀ c, (s.kernel.blocks c).bCount ≠ 0 → (t.blocks c).bCount ≠ 0 := by
    by_cases zero : (s.kernel.blocks q.buf).bCount = 0
    · rw [if_pos zero] at done
      cases done
      refine ⟨?_, by simp [Buffer.fill, zero], ?_⟩
      · intro c
        by_cases same : c = q.buf
        · subst same
          simp [Buffer.fill, Buffer.key]
        · simp [same]
      · intro c used
        have other : c ≠ q.buf := fun same => used (same ▸ zero)
        simpa [other] using used
    · rw [if_neg zero] at done
      cases done
      exact ⟨fun _ => rfl, zero, fun _ used => used⟩
  obtain ⟨keys, here, counts⟩ := after
  have rest := reserved_kept s t (s.picks.erase q) good (fun r member => List.mem_of_mem_erase member)
    (fun r _ => keys r.buf) (fun r _ => counts r.buf)
  refine ⟨?_, ?_⟩
  · intro r member
    rcases List.mem_cons.mp member with same | older
    · subst same
      exact (keys q.buf).trans (good.keyed q mine)
    · exact rest.keyed r older
  · intro r member held
    rcases List.mem_cons.mp member with same | older
    · subst same
      exact here
    · exact rest.counted r older held

theorem drop_reserved (s : Interleaved) (t : Kernel) (q : Pick) (x : Buffer) (good : Reserved s)
    (blocks : t.blocks = Function.update s.kernel.blocks q.buf x)
    (dropped : (s.kernel.blocks q.buf).bCount ≠ 1 →
      x.key = (s.kernel.blocks q.buf).key ∧ x.bCount ≠ 0)
    (sole : (s.kernel.blocks q.buf).bCount = 1 → OnlyCaller s q) : Reserved ⟨t, s.picks.erase q⟩ := by
  have same_slot : ∀ r ∈ s.picks.erase q, r.buf = q.buf → x.key = (s.kernel.blocks q.buf).key ∧ x.bCount ≠ 0 := by
    intro r member same
    apply dropped
    intro last_use
    exact sole last_use r member same
  apply reserved_kept s t _ good (fun r member => List.mem_of_mem_erase member)
  · intro r member
    by_cases same : r.buf = q.buf
    · rw [blocks, same, Function.update_self]
      exact (same_slot r member same).1
    · rw [blocks, Function.update_of_ne same]
  · intro r member used
    by_cases same : r.buf = q.buf
    · rw [blocks, same, Function.update_self]
      exact (same_slot r member same).2
    · rw [blocks, Function.update_of_ne same]
      exact used

theorem step_reserved (s : Interleaved) (act : PickAct) (t : Interleaved) (good : Reserved s)
    (taken : PickStep s act t) (undisputed : Undisputed s act) : Reserved t := by
  cases taken with
  | bget t p dev blk forBalloc b done => exact bget_reserved s t p dev blk forBalloc b good done undisputed
  | body t q b mine pending done => exact body_reserved s t q b mine good done
  | change q patch mine ready =>
      have same_slot : ∀ c, ((s.kernel.setBlock q.buf ((s.kernel.blocks q.buf).store patch)).blocks c).key =
          (s.kernel.blocks c).key ∧
          ((s.kernel.setBlock q.buf ((s.kernel.blocks q.buf).store patch)).blocks c).bCount =
          (s.kernel.blocks c).bCount := by
        intro c
        by_cases same : c = q.buf
        · subst same
          simp [Buffer.store, Buffer.key]
        · simp [same]
      apply reserved_kept s _ s.picks good (fun _ member => member) (fun r _ => (same_slot r.buf).1)
      intro r _ used
      rw [(same_slot r.buf).2]
      exact used
  | bwrite t q r mine ready done =>
      obtain ⟨-, -, ⟨clean, rfl⟩ | ⟨dirty, rfl⟩⟩ := bwrite_cases _ _ _ _ done
      · exact reserved_kept s _ _ good (fun _ member => List.mem_of_mem_erase member) (fun _ _ => rfl)
          (fun _ _ used => used)
      · apply drop_reserved s _ q _ good rfl _ (undisputed dirty)
        intro more
        have remains : (s.kernel.blocks q.buf).bCount - 1 ≠ 0 := fun zero => more (count_drop_zero _ zero)
        rw [Kernel.runAs_blocks, if_neg remains]
        exact ⟨rfl, remains⟩
  | brelease t q r mine ready done =>
      obtain ⟨-, -, ⟨locked, rfl⟩ | ⟨unlocked, rfl⟩⟩ := brelease_cases _ _ _ _ done
      · apply drop_reserved s _ q _ good rfl _ (undisputed locked)
        intro more
        exact ⟨rfl, fun zero => more (count_drop_zero _ zero)⟩
      · exact reserved_kept s _ _ good (fun _ member => List.mem_of_mem_erase member) (fun _ _ => rfl)
          (fun _ _ used => used)

theorem step_wipes_nobody (s : Interleaved) (act : PickAct) (t : Interleaved) (_good : Reserved s)
    (taken : PickStep s act t) (undisputed : Undisputed s act) : WipesNobody ⟨s, act, t⟩ := by
  intro q named dirty gone
  cases taken with
  | bwrite t q' r mine ready done =>
      cases named
      obtain ⟨-, -, ⟨clean, rfl⟩ | ⟨-, rfl⟩⟩ := bwrite_cases _ _ _ _ done
      · have impossible := clean.symm.trans dirty
        cases impossible
      · have last_use : (s.kernel.blocks q.buf).bCount = 1 := by
          apply count_drop_zero
          by_cases zero : (s.kernel.blocks q.buf).bCount - 1 = 0
          · exact zero
          · simp [Kernel.wroteBack, zero, Buffer.drop] at gone
        exact undisputed dirty last_use
  | bget | body | change | brelease => cases named

theorem picks_stay_keyed (k : Kernel) (moves : List (Move Interleaved PickAct)) (last : Interleaved)
    (run : Run PickStep ⟨k, []⟩ moves last)
    (undisputed : ∀ move ∈ moves, Undisputed move.before move.act) :
    Throughout PicksKeyed moves last ∧ ∀ move ∈ moves, WipesNobody move := by
  have reserved := run_invariant PickStep Undisputed Reserved step_reserved _ _ moves run (start_reserved k) undisputed
  exact ⟨⟨fun move member => (reserved.1 move member).keyed, reserved.2.keyed⟩,
    run_moves PickStep Undisputed Reserved WipesNobody step_reserved step_wipes_nobody _ _ moves run
      (start_reserved k) undisputed⟩

theorem two_slots_pick (p : Pid) (x y : Buffer) (disk : Dev × Blk → Block) (locks : Lock → Option Pid)
    (dev : Dev) (blk : Blk) (free : locks .buffer = none) (idle : x.bCount = 0)
    (first : x.key ≠ (dev, blk)) (second : y.key ≠ (dev, blk)) (named : (dev, blk) ≠ (0, 0)) :
    (bget dev blk).run (twoSlots p x y disk locks) = .ok 0
      (twoSlots p (x.rekey dev blk) y disk (Function.update locks (.buf 0) none)) := by
  rw [bget_recycle _ dev blk 0 free (two_slots_find_none p x y disk locks dev blk first second named)
    (two_slots_free_first p x y disk locks idle), two_slots_set_first]
  simp [Kernel.unlock, twoSlots]

def pickedBuffer : Buffer := zeroBuffer.rekey 1 5

theorem two_slots_first_pick :
    (bget 1 5).run (twoSlots 0 zeroBuffer zeroBuffer (fun _ => zeroBlock) freeLocks) =
      .ok 0 (twoSlots 0 pickedBuffer zeroBuffer (fun _ => zeroBlock) freeLocks) := by
  rw [two_slots_pick _ _ _ _ _ 1 5 rfl rfl (by decide) (by decide) (by decide), free_locks_unlock]
  rfl

theorem picked_slot_rekeyed :
    ¬ ∀ (k : Kernel) (moves : List (Move Interleaved PickAct)) (last : Interleaved),
      Run PickStep ⟨k, []⟩ moves last → Throughout PicksKeyed moves last ∧ ∀ move ∈ moves, WipesNobody move := by
  intro claim
  let a : Pick := ⟨0, 0, (1, 5), .reading⟩
  let blank : Dev × Blk → Block := fun _ => zeroBlock
  have claimed := claim Kernel.zero
  rw [zero_two_slots] at claimed
  have again := two_slots_pick 1 pickedBuffer zeroBuffer blank freeLocks 1 6 rfl rfl (by decide) (by decide)
    (by decide)
  obtain ⟨⟨-, keyed⟩, -⟩ := claimed _ _
    (.cons _ _ _ _ _ (.bget ⟨_, []⟩ _ 0 1 5 false 0 two_slots_first_pick) <|
      .cons _ _ _ _ _ (.bget ⟨_, [a]⟩ _ 1 1 6 false 0 again) <|
      .nil _)
  have key := keyed a (by simp [a])
  revert key
  decide

theorem picks_stay_keyed_written :
    ∃ (moves : List (Move Interleaved PickAct)) (last : Interleaved), moves.length = 4 ∧
      Run PickStep ⟨Kernel.zero, []⟩ moves last ∧
      Throughout PicksKeyed moves last ∧ ∀ move ∈ moves, WipesNobody move := by
  let picked : Pick := ⟨0, 0, (1, 5), .reading⟩
  let held : Pick := ⟨0, 0, (1, 5), .held⟩
  let blank : Dev × Blk → Block := fun _ => zeroBlock
  let changed := openedBuffer.store (fillWith 1)
  have filled : (breadBody 0).run (twoSlots 0 pickedBuffer zeroBuffer blank freeLocks) =
      .ok 0 (twoSlots 0 openedBuffer zeroBuffer blank freeLocks) := by
    have idle : ((twoSlots 0 pickedBuffer zeroBuffer blank freeLocks).blocks 0).bCount = 0 := rfl
    rw [bread_body_run, if_pos idle, two_slots_set_first]
    rfl
  have stored := PickStep.change ⟨twoSlots 0 openedBuffer zeroBuffer blank freeLocks, [held]⟩ held
    (fillWith 1) (by simp) (by decide)
  rw [two_slots_set_first] at stored
  have run := Run.cons _ _ _ _ _
      (PickStep.bget ⟨twoSlots 0 zeroBuffer zeroBuffer blank freeLocks, []⟩ _ 0 1 5 false 0 two_slots_first_pick) <|
    .cons _ _ _ _ _ (.body ⟨_, [picked]⟩ _ picked 0 (by simp [picked]) rfl filled) <|
    .cons _ _ _ _ _ stored <|
    .cons _ _ _ _ _ (.bwrite ⟨twoSlots 0 changed zeroBuffer blank freeLocks, [held]⟩ _ held 0 (by simp)
      (by decide) (two_slots_wipe 0 changed zeroBuffer blank freeLocks rfl rfl rfl)) <|
    .nil _
  rw [← zero_two_slots] at run
  refine ⟨_, _, rfl, run, picks_stay_keyed Kernel.zero _ _ run ?_⟩
  simp only [List.forall_mem_cons]
  refine ⟨?_, trivial, trivial, ?_, by simp⟩
  · intro _ b _ q member
    cases member
  · intro _ _ r member
    simp [held] at member

end Yaup
