import Yaup.Lib.Run
import Yaup.Block

set_option autoImplicit false

namespace Yaup

open Lib

inductive TableAct where
  | bread (p : Pid) (dev : Dev) (blk : Blk)
  | setDirty (b : BufId)
  | bwrite (p : Pid) (b : BufId)
  | brelease (p : Pid) (b : BufId)

inductive TableStep : Kernel → TableAct → Kernel → Prop where
  | bread (k t : Kernel) (p : Pid) (dev : Dev) (blk : Blk) (b : BufId)
      (done : (bread dev blk).run (k.runAs p) = .ok b t) : TableStep k (.bread p dev blk) t
  | setDirty (k : Kernel) (b : BufId) :
      TableStep k (.setDirty b) (k.setBlock b { k.blocks b with bDirty := true })
  | bwrite (k t : Kernel) (p : Pid) (b : BufId) (r : Int)
      (done : (bwrite b).run (k.runAs p) = .ok r t) : TableStep k (.bwrite p b) t
  | brelease (k t : Kernel) (p : Pid) (b : BufId) (r : Int)
      (done : (brelease b).run (k.runAs p) = .ok r t) : TableStep k (.brelease p b) t

def Kernel.bootTable (k : Kernel) : Kernel := { k with blocks := fun _ => zeroBuffer, locks := freeLocks }

def InUse (k : Kernel) (b : BufId) : Prop := (k.blocks b).bCount ≠ 0

instance (k : Kernel) (b : BufId) : Decidable (InUse k b) := inferInstanceAs (Decidable (_ ≠ _))

def KeysUnique (k : Kernel) : Prop :=
  ∀ b c, InUse k b → InUse k c → (k.blocks b).key = (k.blocks c).key → b = c

def Unshadowed (k : Kernel) : TableAct → Prop
  | .bread _ dev blk => ∀ b, findBlock k dev blk = some b → ¬ InUse k b →
      ∀ c, InUse k c → (k.blocks c).key ≠ (dev, blk)
  | .setDirty _ => True
  | .bwrite _ b => (k.blocks b).bDirty = true → ¬ InUse k b →
      ∀ c, InUse k c → (k.blocks c).key ≠ (k.blocks b).key
  | .brelease _ _ => True

theorem keys_unique_shrink (k t : Kernel) (unique : KeysUnique k)
    (kept : ∀ b, InUse t b → InUse k b ∧ (t.blocks b).key = (k.blocks b).key) : KeysUnique t := by
  intro b c usedB usedC same
  obtain ⟨beforeB, keyB⟩ := kept b usedB
  obtain ⟨beforeC, keyC⟩ := kept c usedC
  exact unique b c beforeB beforeC (keyB.symm.trans (same.trans keyC))

theorem keys_unique_grow (k t : Kernel) (b : BufId) (x : Buffer) (unique : KeysUnique k)
    (blocks : t.blocks = Function.update k.blocks b x) (idle : ¬ InUse k b) (used : x.bCount ≠ 0) :
    KeysUnique t ↔ ∀ c, InUse k c → (k.blocks c).key ≠ x.key := by
  have here : t.blocks b = x := by rw [blocks, Function.update_self]
  have elsewhere : ∀ c, c ≠ b → t.blocks c = k.blocks c := by
    intro c other
    rw [blocks, Function.update_of_ne other]
  constructor
  · intro after c usedC same
    have other : c ≠ b := fun equal => idle (equal ▸ usedC)
    apply other
    apply after c b
    · simpa only [InUse, elsewhere c other] using usedC
    · simpa only [InUse, here] using used
    · simpa only [here, elsewhere c other] using same
  · intro alone c d usedC usedD same
    by_cases atC : c = b <;> by_cases atD : d = b
    · exact atC.trans atD.symm
    · subst atC
      simp only [InUse, here, elsewhere d atD] at usedD same
      exact absurd same.symm (alone d usedD)
    · subst atD
      simp only [InUse, here, elsewhere c atC] at usedC same
      exact absurd same (alone c usedC)
    · simp only [InUse, elsewhere c atC, elsewhere d atD] at usedC usedD same
      exact unique c d usedC usedD same

theorem bread_keys_unique (k t : Kernel) (p : Pid) (dev : Dev) (blk : Blk) (b : BufId) (unique : KeysUnique k)
    (done : (bread dev blk).run (k.runAs p) = .ok b t) :
    KeysUnique t ↔ Unshadowed k (.bread p dev blk) := by
  obtain ⟨-, cases⟩ := bread_cases _ _ _ _ _ done
  rcases cases with ⟨hit, used, rfl⟩ | ⟨hit, zero, rfl⟩ | ⟨miss, unused, rfl⟩
  · refine ⟨fun _ c found idle => ?_, fun _ => unique⟩
    have same : b = c := Option.some.inj (hit.symm.trans found)
    exact absurd (same ▸ used) idle
  · have key := ((find_block_some _ dev blk b).mp hit).1
    have fresh : ((k.blocks b).fill (k.disk (dev, blk))).bCount ≠ 0 := by
      change (k.blocks b).bCount + 1 ≠ 0
      rw [show (k.blocks b).bCount = 0 from zero]
      decide
    have grown := keys_unique_grow k ((k.runAs p).setBlock b ((k.blocks b).fill (k.disk (dev, blk)))) b _
      unique rfl (fun used => used zero) fresh
    refine grown.trans ⟨?_, ?_⟩
    · intro alone c _ _ d usedD
      exact fun same => alone d usedD (same.trans key.symm)
    · intro alone d usedD same
      exact alone b hit (fun used => used zero) d usedD (same.trans key)
  · have absent := (find_block_none _ dev blk).mp miss
    have zero := ((free_block_some _ b).mp unused).1
    have fresh : (((k.blocks b).rekey dev blk).fill (k.disk (dev, blk))).bCount ≠ 0 := by
      change (k.blocks b).bCount + 1 ≠ 0
      rw [show (k.blocks b).bCount = 0 from zero]
      decide
    have grown := keys_unique_grow k
      (((k.runAs p).setBlock b (((k.blocks b).rekey dev blk).fill (k.disk (dev, blk)))).unlock (.buf b)) b _
      unique rfl (fun used => used zero) fresh
    refine grown.trans ⟨?_, ?_⟩
    · intro _ c found
      have impossible := miss.symm.trans found
      cases impossible
    · intro _ d _ same
      exact absent d same

theorem bwrite_keys_unique (k t : Kernel) (p : Pid) (b : BufId) (r : Int) (unique : KeysUnique k)
    (done : (bwrite b).run (k.runAs p) = .ok r t) : KeysUnique t ↔ Unshadowed k (.bwrite p b) := by
  obtain ⟨-, -, ⟨clean, rfl⟩ | ⟨dirty, rfl⟩⟩ := bwrite_cases _ _ _ _ done
  · refine ⟨fun _ dirty => ?_, fun _ => unique⟩
    have impossible := clean.symm.trans dirty
    cases impossible
  · by_cases idle : (k.blocks b).bCount = 0
    · have wraps : (k.blocks b).bCount - 1 ≠ 0 := by rw [idle]; decide
      have blocks : ((k.runAs p).wroteBack b).blocks = Function.update k.blocks b (k.blocks b).drop := by
        simp [Kernel.wroteBack, wraps]
      have grown := keys_unique_grow k _ b (k.blocks b).drop unique blocks (fun used => used idle) wraps
      exact grown.trans ⟨fun alone _ _ => alone, fun alone => alone dirty (fun used => used idle)⟩
    · refine ⟨fun _ _ unused => absurd idle unused, fun _ => ?_⟩
      apply keys_unique_shrink k _ unique
      intro c used
      by_cases same : c = b
      · subst same
        refine ⟨idle, ?_⟩
        by_cases last_use : (k.blocks c).bCount - 1 = 0
        · simp [InUse, Kernel.wroteBack, last_use, Buffer.wipe, Buffer.drop] at used
        · simp [Kernel.wroteBack, last_use, Buffer.drop, Buffer.key]
      · simp only [InUse, Kernel.wroteBack, Kernel.setBlock_blocks, Function.update_of_ne same] at used ⊢
        exact ⟨used, rfl⟩

theorem step_keys_unique_iff (k : Kernel) (act : TableAct) (t : Kernel) (unique : KeysUnique k)
    (taken : TableStep k act t) : KeysUnique t ↔ Unshadowed k act := by
  cases taken with
  | bread t p dev blk b done => exact bread_keys_unique k t p dev blk b unique done
  | setDirty b =>
      refine ⟨fun _ => trivial, fun _ => keys_unique_shrink k _ unique ?_⟩
      intro c used
      by_cases same : c = b
      · subst same
        simpa [InUse, Buffer.key] using used
      · simpa [InUse, same] using used
  | bwrite t p b r done => exact bwrite_keys_unique k t p b r unique done
  | brelease t p b r done =>
      refine ⟨fun _ => trivial, fun _ => ?_⟩
      obtain ⟨counted, -, ⟨locked, rfl⟩ | ⟨unlocked, rfl⟩⟩ := brelease_cases _ _ _ _ done
      · apply keys_unique_shrink k _ unique
        intro c used
        by_cases same : c = b
        · subst same
          exact ⟨counted, by simp [Buffer.drop, Buffer.key]⟩
        · simpa [InUse, same] using used
      · exact unique

theorem boot_keys_unique (k : Kernel) : KeysUnique k.bootTable := fun _ _ used => absurd rfl used

theorem keys_unique_iff (k : Kernel) (moves : List (Move Kernel TableAct)) (last : Kernel)
    (run : Run TableStep k.bootTable moves last) :
    Throughout KeysUnique moves last ↔ ∀ move ∈ moves, Unshadowed move.before move.act :=
  run_invariant_iff TableStep Unshadowed KeysUnique step_keys_unique_iff _ _ moves run (boot_keys_unique k)

theorem boot_table_two_slots : Kernel.zero.bootTable =
    twoSlots 0 zeroBuffer zeroBuffer (fun _ => zeroBlock) freeLocks := by
  simp [Kernel.bootTable, twoSlots, Kernel.zero]

-- Block (0, 0) is read into slot 1, slot 0 is wiped to key (0, 0), and block (0, 0) is
-- read again: into slot 0.
theorem wiped_slot_shadows :
    ¬ ∀ (k : Kernel) (moves : List (Move Kernel TableAct)) (last : Kernel),
      Run TableStep k.bootTable moves last → Throughout KeysUnique moves last := by
  intro claim
  let blank : Dev × Blk → Block := fun _ => zeroBlock
  let second : Buffer := ⟨zeroBlock, 0, 0, false, 1⟩
  let dirty : Buffer := { openedBuffer with bDirty := true }
  let saved := Function.update blank (1, 5) zeroBlock
  let taken := Function.update freeLocks (.buf 0) (some 0)
  have reload := two_slots_reload_second 0 openedBuffer zeroBuffer blank freeLocks 0 0 rfl rfl (by decide) rfl
  have dirtied := TableStep.setDirty (twoSlots 0 openedBuffer second blank freeLocks) 0
  rw [two_slots_set_first] at dirtied
  have wiped := two_slots_wipe 0 dirty second blank freeLocks rfl rfl rfl
  have reread := two_slots_reload_first 0 dirty.drop.wipe second saved taken 0 0 (by simp [taken, freeLocks])
    (by decide) rfl
  have claimed := claim Kernel.zero
  rw [boot_table_two_slots] at claimed
  have unique := (claimed _ _
    (.cons _ _ _ _ _ (.bread _ _ 0 1 5 0 two_slots_open) <|
      .cons _ _ _ _ _ (.bread _ _ 0 0 0 1 reload) <|
      .cons _ _ _ _ _ dirtied <|
      .cons _ _ _ _ _ (.bwrite _ _ 0 0 0 wiped) <|
      .cons _ _ _ _ _ (.bread _ _ 0 0 0 0 reread) <|
      .nil _)).2
  have same := unique 0 1 (by decide) (by decide) rfl
  revert same
  decide

theorem keys_unique_written :
    ∃ (moves : List (Move Kernel TableAct)) (last : Kernel), moves.length = 3 ∧
      Run TableStep Kernel.zero.bootTable moves last ∧ Throughout KeysUnique moves last := by
  let blank : Dev × Blk → Block := fun _ => zeroBlock
  let dirty : Buffer := { openedBuffer with bDirty := true }
  have dirtied := TableStep.setDirty (twoSlots 0 openedBuffer zeroBuffer blank freeLocks) 0
  rw [two_slots_set_first] at dirtied
  have wiped := two_slots_wipe 0 dirty zeroBuffer blank freeLocks rfl rfl rfl
  have run := Run.cons _ _ _ _ _ (TableStep.bread (twoSlots 0 zeroBuffer zeroBuffer blank freeLocks) _ 0 1 5 0
      two_slots_open) <|
    .cons _ _ _ _ _ dirtied <|
    .cons _ _ _ _ _ (.bwrite (twoSlots 0 dirty zeroBuffer blank freeLocks) _ 0 0 0 wiped) <|
    .nil _
  rw [← boot_table_two_slots] at run
  refine ⟨_, _, rfl, run, (keys_unique_iff Kernel.zero _ _ run).mpr ?_⟩
  simp only [List.forall_mem_cons]
  refine ⟨?_, trivial, ?_, by simp⟩
  · intro b _ _ c used
    exact absurd rfl used
  · intro _ idle
    exact absurd (by decide) idle

end Yaup
