import Mathlib.Data.List.Count
import Yaup.BufferClients

set_option autoImplicit false

namespace Yaup

open Lib

def handedOut (s : Clients) (b : BufId) : Nat := s.held.countP (fun h => decide (h.buf = b))

def Balanced (s : Clients) : Prop := ∀ b, (s.kernel.blocks b).bCount.toNat = handedOut s b

def NeverFull (s : Clients) : Prop :=
  (∃ b, handedOut s b = 0) → ∀ (p : Pid) (dev : Dev) (blk : Blk) (msg : String) (t : Kernel),
    (bread dev blk).run (s.kernel.runAs p) ≠ .error (.panic msg) t

def Counted (s : Clients) : BufAct → Prop
  | .bread _ dev blk _ => ∀ b, findBlock s.kernel dev blk = some b → (s.kernel.blocks b).bCount = 0
  | .change _ _ => True
  | .bwrite h => (s.kernel.blocks h.buf).bDirty = true
  | .brelease h => s.kernel.locks (.buf h.buf) = some h.pid

theorem handed_out_cons (k t : Kernel) (held : List Handle) (last : Dev × Blk → Block) (h : Handle) (b : BufId) :
    handedOut ⟨t, h :: held, last⟩ b = handedOut ⟨k, held, last⟩ b + if h.buf = b then 1 else 0 := by
  simp [handedOut, List.countP_cons]

theorem handed_out_erase (s : Clients) (t : Kernel) (h : Handle) (mine : h ∈ s.held) (b : BufId) :
    handedOut s b = handedOut ⟨t, s.held.erase h, s.last⟩ b + if h.buf = b then 1 else 0 := by
  have order := (List.perm_cons_erase mine).countP_eq (fun g => decide (g.buf = b))
  simpa [handedOut, List.countP_cons] using order

theorem count_up (c : UInt8) (zero : c = 0) : (c + 1).toNat = c.toNat + 1 := by
  subst zero
  rfl

theorem count_down (c : UInt8) (used : c ≠ 0) : (c - 1).toNat + 1 = c.toNat := by
  have positive : c.toNat ≠ 0 := fun zero => used (UInt8.toNat_inj.mp zero)
  have one : (1 : UInt8) ≤ c := by
    rw [UInt8.le_iff_toNat_le]
    change 1 ≤ c.toNat
    omega
  rw [UInt8.toNat_sub_of_le c 1 one]
  change c.toNat - 1 + 1 = c.toNat
  omega

theorem balanced_take (s : Clients) (t : Kernel) (h : Handle) (good : Balanced s)
    (others : ∀ c, c ≠ h.buf → (t.blocks c).bCount = (s.kernel.blocks c).bCount) :
    Balanced ⟨t, h :: s.held, s.last⟩ ↔
      (t.blocks h.buf).bCount.toNat = (s.kernel.blocks h.buf).bCount.toNat + 1 := by
  have before := good h.buf
  have grown := fun b => handed_out_cons s.kernel t s.held s.last h b
  constructor
  · intro balanced
    have after := balanced h.buf
    rw [grown h.buf, if_pos rfl] at after
    rw [before]
    exact after
  · intro counted b
    rw [grown b]
    by_cases same : h.buf = b
    · subst same
      rw [if_pos rfl]
      change (t.blocks h.buf).bCount.toNat = handedOut s h.buf + 1
      rw [counted, before]
    · rw [if_neg same]
      change (t.blocks b).bCount.toNat = handedOut s b
      rw [others b (Ne.symm same)]
      exact good b

theorem balanced_give (s : Clients) (t : Kernel) (h : Handle) (mine : h ∈ s.held) (good : Balanced s)
    (others : ∀ c, c ≠ h.buf → (t.blocks c).bCount = (s.kernel.blocks c).bCount) :
    Balanced ⟨t, s.held.erase h, s.last⟩ ↔
      (t.blocks h.buf).bCount.toNat + 1 = (s.kernel.blocks h.buf).bCount.toNat := by
  have before := good h.buf
  have shrunk := fun b => handed_out_erase s t h mine b
  constructor
  · intro balanced
    have after := balanced h.buf
    have step := shrunk h.buf
    rw [if_pos rfl] at step
    change (t.blocks h.buf).bCount.toNat = _ at after
    omega
  · intro counted b
    have step := shrunk b
    by_cases same : h.buf = b
    · subst same
      rw [if_pos rfl] at step
      change (t.blocks h.buf).bCount.toNat = _
      omega
    · rw [if_neg same] at step
      have kept := good b
      have unchanged := others b (Ne.symm same)
      change (t.blocks b).bCount.toNat = _
      rw [unchanged]
      omega

theorem handle_in_use (s : Clients) (good : Balanced s) (h : Handle) (mine : h ∈ s.held) :
    (s.kernel.blocks h.buf).bCount ≠ 0 := by
  intro zero
  have none_out : handedOut s h.buf = 0 := by
    rw [← good h.buf, zero]
    rfl
  have absent := List.countP_eq_zero.mp none_out h mine
  simp at absent

theorem updated_count (s : Clients) (b : BufId) (x : Buffer) (c : BufId) (other : c ≠ b) :
    (Function.update s.kernel.blocks b x c).bCount = (s.kernel.blocks c).bCount := by
  rw [Function.update_of_ne other]

theorem bread_balanced (s : Clients) (t : Kernel) (p : Pid) (dev : Dev) (blk : Blk) (b : BufId)
    (good : Balanced s) (done : (bread dev blk).run (s.kernel.runAs p) = .ok b t) :
    Balanced ⟨t, ⟨p, b, (dev, blk)⟩ :: s.held, s.last⟩ ↔ Counted s (.bread p dev blk b) := by
  obtain ⟨-, cases⟩ := bread_cases _ _ _ _ _ done
  rcases cases with ⟨hit, used, rfl⟩ | ⟨hit, zero, rfl⟩ | ⟨miss, unused, rfl⟩
  · rw [balanced_take s (s.kernel.runAs p) ⟨p, b, (dev, blk)⟩ good (fun c _ => rfl)]
    constructor
    · intro counted
      exact absurd counted (Nat.ne_of_lt (Nat.lt_succ_self _))
    · intro counted
      exact absurd (counted b hit) used
  · rw [balanced_take s _ ⟨p, b, (dev, blk)⟩ good (fun c other => updated_count s b _ c other)]
    constructor
    · intro _ c found
      have same : b = c := Option.some.inj (hit.symm.trans found)
      exact same ▸ zero
    · intro _
      simpa [Buffer.fill] using count_up _ zero
  · have zero := ((free_block_some _ b).mp unused).1
    rw [balanced_take s _ ⟨p, b, (dev, blk)⟩ good (fun c other => updated_count s b _ c other)]
    constructor
    · intro _ c found
      have absent := miss.symm.trans found
      cases absent
    · intro _
      simpa [Buffer.fill, Buffer.rekey] using count_up _ zero

theorem bwrite_balanced (s : Clients) (t : Kernel) (h : Handle) (r : Int) (mine : h ∈ s.held)
    (good : Balanced s) (done : (bwrite h.buf).run (s.kernel.runAs h.pid) = .ok r t) :
    Balanced ⟨t, s.held.erase h, s.last⟩ ↔ Counted s (.bwrite h) := by
  obtain ⟨-, -, ⟨clean, rfl⟩ | ⟨dirty, rfl⟩⟩ := bwrite_cases _ _ _ _ done
  · rw [balanced_give s (s.kernel.runAs h.pid) h mine good (fun c _ => rfl)]
    constructor
    · intro counted
      exact absurd counted (Nat.ne_of_gt (Nat.lt_succ_self _))
    · intro counted
      have impossible := clean.symm.trans counted
      cases impossible
  · rw [balanced_give s _ h mine good (fun c other => updated_count s h.buf _ c other)]
    constructor
    · intro _
      exact dirty
    · intro _
      have down := count_down _ (handle_in_use s good h mine)
      by_cases last_use : (s.kernel.blocks h.buf).bCount - 1 = 0 <;>
        simpa [Kernel.wroteBack, last_use, Buffer.drop, Buffer.wipe] using down

theorem brelease_balanced (s : Clients) (t : Kernel) (h : Handle) (r : Int) (mine : h ∈ s.held)
    (good : Balanced s) (done : (brelease h.buf).run (s.kernel.runAs h.pid) = .ok r t) :
    Balanced ⟨t, s.held.erase h, s.last⟩ ↔ Counted s (.brelease h) := by
  obtain ⟨used, -, ⟨locked, rfl⟩ | ⟨unlocked, rfl⟩⟩ := brelease_cases _ _ _ _ done
  · rw [balanced_give s _ h mine good (fun c other => updated_count s h.buf _ c other)]
    constructor
    · intro _
      exact locked
    · intro _
      simpa [Buffer.drop] using count_down _ used
  · rw [balanced_give s (s.kernel.runAs h.pid) h mine good (fun c _ => rfl)]
    constructor
    · intro counted
      exact absurd counted (Nat.ne_of_gt (Nat.lt_succ_self _))
    · intro counted
      exact absurd counted unlocked

theorem step_balanced_iff (s : Clients) (act : BufAct) (t : Clients) (good : Balanced s)
    (taken : BufStep s act t) : Balanced t ↔ Counted s act := by
  cases taken with
  | bread t p dev blk b done => exact bread_balanced s t p dev blk b good done
  | change h patch mine =>
      refine ⟨fun _ => trivial, fun _ b => ?_⟩
      have same_count : ((s.kernel.setBlock h.buf ((s.kernel.blocks h.buf).store patch)).blocks b).bCount =
          (s.kernel.blocks b).bCount := by
        by_cases same : b = h.buf
        · subst same
          simp [Buffer.store]
        · simp [same]
      change ((s.kernel.setBlock h.buf ((s.kernel.blocks h.buf).store patch)).blocks b).bCount.toNat = _
      rw [same_count]
      exact good b
  | bwrite t h r mine done => exact bwrite_balanced s t h r mine good done
  | brelease t h r mine done => exact brelease_balanced s t h r mine good done

theorem boot_balanced (k : Kernel) : Balanced (Clients.boot k) := fun _ => rfl

theorem balanced_never_full (s : Clients) (good : Balanced s) : NeverFull s := by
  rintro ⟨b, idle⟩ p dev blk msg t halted
  have zero : (s.kernel.blocks b).bCount = 0 := UInt8.toNat_inj.mp ((good b).trans idle)
  by_cases free : s.kernel.locks .buffer = none
  · cases hit : findBlock (s.kernel.runAs p) dev blk with
    | some c =>
        by_cases used : (s.kernel.blocks c).bCount = 0
        · rw [bread_reload (s.kernel.runAs p) dev blk c free hit used] at halted
          cases halted
        · rw [bread_held (s.kernel.runAs p) dev blk c free hit used] at halted
          cases halted
    | none =>
        cases unused : freeBlock (s.kernel.runAs p) with
        | some c =>
            rw [bread_recycle (s.kernel.runAs p) dev blk c free hit unused] at halted
            cases halted
        | none => exact (free_block_none _).mp unused b zero
  · rw [bread_blocked (s.kernel.runAs p) dev blk free] at halted
    cases halted

theorem counts_balanced_iff (k : Kernel) (moves : List (Move Clients BufAct)) (last : Clients)
    (run : Run BufStep (Clients.boot k) moves last) :
    Throughout (fun s => Balanced s ∧ NeverFull s) moves last ↔
      ∀ move ∈ moves, Counted move.before move.act := by
  rw [← run_invariant_iff BufStep Counted Balanced step_balanced_iff _ _ moves run (boot_balanced k)]
  constructor
  · intro along
    exact ⟨fun move member => (along.1 move member).1, along.2.1⟩
  · intro along
    exact ⟨fun move member => ⟨along.1 move member, balanced_never_full _ (along.1 move member)⟩,
      along.2, balanced_never_full _ along.2⟩

def BufAct.pid : BufAct → Pid
  | .bread p _ _ _ => p
  | .change h _ => h.pid
  | .bwrite h => h.pid
  | .brelease h => h.pid

theorem released_slot_in_use :
    ¬ ∀ (k : Kernel) (p : Pid) (moves : List (Move Clients BufAct)) (last : Clients),
      Run BufStep (Clients.boot k) moves last → (∀ move ∈ moves, move.act.pid = p) →
        Throughout (fun s => Balanced s ∧ NeverFull s) moves last := by
  intro claim
  let a : Handle := ⟨0, 0, (1, 5)⟩
  let blank : Dev × Blk → Block := fun _ => zeroBlock
  have claimed := claim Kernel.zero 0
  rw [boot_two_slots] at claimed
  have along := claimed _ _
    (.cons _ _ _ _ _ (.bread ⟨_, [], blank⟩ _ 0 1 5 0 two_slots_open) <|
      .cons _ _ _ _ _ (.brelease ⟨twoSlots 0 openedBuffer zeroBuffer blank freeLocks, [a], blank⟩ _ a 0 (by simp)
        (two_slots_keep 0 openedBuffer zeroBuffer blank freeLocks (by decide) (by decide))) <|
      .nil _) (by simp [BufAct.pid, a])
  have count := along.2.1 0
  revert count
  decide

theorem counts_balanced_written :
    ∃ (moves : List (Move Clients BufAct)) (last : Clients), moves.length = 3 ∧
      Run BufStep (Clients.boot Kernel.zero) moves last ∧
      Throughout (fun s => Balanced s ∧ NeverFull s) moves last := by
  let a : Handle := ⟨0, 0, (1, 5)⟩
  let blank : Dev × Blk → Block := fun _ => zeroBlock
  let changed := openedBuffer.store (fillWith 1)
  let stored := Function.update blank (1, 5) changed.bData
  have run := Run.cons _ _ _ _ _
      (BufStep.bread ⟨twoSlots 0 zeroBuffer zeroBuffer blank freeLocks, [], blank⟩ _ 0 1 5 0 two_slots_open) <|
    .cons _ _ _ _ _ (two_slots_change 0 0 openedBuffer zeroBuffer blank blank freeLocks [a] (1, 5)
      (fillWith 1) (by simp [a])) <|
    .cons _ _ _ _ _ (.bwrite ⟨twoSlots 0 changed zeroBuffer blank freeLocks, [a], stored⟩ _ a 0
      (by simp) (two_slots_wipe 0 changed zeroBuffer blank freeLocks rfl rfl rfl)) <|
    .nil _
  rw [← boot_two_slots] at run
  refine ⟨_, _, rfl, run, (counts_balanced_iff Kernel.zero _ _ run).mpr ?_⟩
  simp only [List.forall_mem_cons]
  refine ⟨?_, trivial, rfl, by simp⟩
  intro b hit
  rw [boot_two_slots, two_slots_find_none 0 zeroBuffer zeroBuffer _ _ 1 5 (by decide) (by decide) (by decide)] at hit
  cases hit

end Yaup
