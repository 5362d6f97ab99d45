import Mathlib.Data.List.Basic
import Yaup.Lib.Run
import Yaup.Block

set_option autoImplicit false

namespace Yaup

open Lib

structure Handle where
  pid : Pid
  buf : BufId
  key : Dev × Blk
deriving DecidableEq

-- `last` is the abstract store: the bytes last stored in each block by any client.
structure Clients where
  kernel : Kernel
  held : List Handle
  last : Dev × Blk → Block

abbrev Patch := Fin blkSz → Option UInt8

def Patch.apply (patch : Patch) (data : Block) : Block := fun k => (patch k).getD (data k)

def Buffer.store (x : Buffer) (patch : Patch) : Buffer :=
  { x with bData := patch.apply x.bData, bDirty := true }

def Clients.boot (k : Kernel) : Clients :=
  ⟨{ k with blocks := fun _ => zeroBuffer, locks := freeLocks }, [], k.disk⟩

inductive BufAct where
  | bread (p : Pid) (dev : Dev) (blk : Blk) (b : BufId)
  | change (h : Handle) (patch : Patch)
  | bwrite (h : Handle)
  | brelease (h : Handle)

-- Each act is one call that returned; a call that panics or blocks is no step.
-- bwrite and brelease give the handle up.
inductive BufStep : Clients → BufAct → Clients → Prop where
  | bread (s : Clients) (t : Kernel) (p : Pid) (dev : Dev) (blk : Blk) (b : BufId)
      (done : (bread dev blk).run (s.kernel.runAs p) = .ok b t) :
      BufStep s (.bread p dev blk b) ⟨t, ⟨p, b, (dev, blk)⟩ :: s.held, s.last⟩
  | change (s : Clients) (h : Handle) (patch : Patch) (mine : h ∈ s.held) :
      BufStep s (.change h patch)
        ⟨s.kernel.setBlock h.buf ((s.kernel.blocks h.buf).store patch), s.held,
          Function.update s.last h.key (patch.apply (s.last h.key))⟩
  | bwrite (s : Clients) (t : Kernel) (h : Handle) (r : Int) (mine : h ∈ s.held)
      (done : (bwrite h.buf).run (s.kernel.runAs h.pid) = .ok r t) :
      BufStep s (.bwrite h) ⟨t, s.held.erase h, s.last⟩
  | brelease (s : Clients) (t : Kernel) (h : Handle) (r : Int) (mine : h ∈ s.held)
      (done : (brelease h.buf).run (s.kernel.runAs h.pid) = .ok r t) :
      BufStep s (.brelease h) ⟨t, s.held.erase h, s.last⟩

def Live (s : Clients) (b : BufId) : Prop := (s.kernel.blocks b).bCount ≠ 0

def SoleHolder (s : Clients) (h : Handle) : Prop := ∀ g ∈ s.held.erase h, g.buf ≠ h.buf

def YieldsLast (m : Move Clients BufAct) : Prop :=
  match m.act with
  | .bread _ dev blk b => (m.after.kernel.blocks b).bData = m.before.last (dev, blk)
  | _ => True

def Kept (s : Clients) : Prop :=
  ∀ key, (∃ b, Live s b ∧ (s.kernel.blocks b).key = key ∧ (s.kernel.blocks b).bData = s.last key) ∨
    ((∀ b, (s.kernel.blocks b).key = key → ¬ Live s b) ∧ s.kernel.disk key = s.last key)

-- A bread is not answered by a free slot while a live one has the key; a buffer whose
-- use count a call takes to zero is in nobody else's hands; brelease drops no changes.
def Careful (s : Clients) : BufAct → Prop
  | .bread _ dev blk _ => ∀ b, findBlock s.kernel dev blk = some b → ¬ Live s b →
      ∀ c, (s.kernel.blocks c).key = (dev, blk) → ¬ Live s c
  | .change _ _ => True
  | .bwrite h => (s.kernel.blocks h.buf).bDirty = true → SoleHolder s h
  | .brelease h => s.kernel.locks (.buf h.buf) = some h.pid →
      SoleHolder s h ∧ (s.kernel.blocks h.buf).bData = s.kernel.disk h.key

structure Coherent (s : Clients) : Prop where
  keyed : ∀ h ∈ s.held, (s.kernel.blocks h.buf).key = h.key ∧ Live s h.buf
  once : ∀ b, Live s b → (s.kernel.blocks b).bCount = 1
  unique : ∀ b c, Live s b → Live s c → (s.kernel.blocks b).key = (s.kernel.blocks c).key → b = c
  cached : ∀ b, Live s b → (s.kernel.blocks b).bData = s.last (s.kernel.blocks b).key
  stored : ∀ key, (∀ b, (s.kernel.blocks b).key = key → ¬ Live s b) → s.kernel.disk key = s.last key

theorem boot_coherent (k : Kernel) : Coherent (Clients.boot k) where
  keyed := by simp [Clients.boot]
  once := by simp [Live, Clients.boot, zeroBuffer]
  unique := by simp [Live, Clients.boot, zeroBuffer]
  cached := by simp [Live, Clients.boot, zeroBuffer]
  stored := fun _ _ => rfl

theorem coherent_kept (s : Clients) (good : Coherent s) : Kept s := by
  intro key
  by_cases some_live : ∃ b, (s.kernel.blocks b).key = key ∧ Live s b
  · obtain ⟨b, same, live⟩ := some_live
    exact .inl ⟨b, live, same, same ▸ good.cached b live⟩
  · have none_live : ∀ b, (s.kernel.blocks b).key = key → ¬ Live s b :=
      fun b same live => some_live ⟨b, same, live⟩
    exact .inr ⟨none_live, good.stored key none_live⟩

theorem load_coherent (s : Clients) (good : Coherent s) (t : Kernel) (p : Pid) (b : BufId) (x : Buffer)
    (blocks : t.blocks = Function.update s.kernel.blocks b x) (disk : t.disk = s.kernel.disk)
    (idle : ¬ Live s b) (fresh : x.bCount = 1) (loaded : x.bData = s.kernel.disk x.key)
    (alone : ∀ c, (s.kernel.blocks c).key = x.key → ¬ Live s c) :
    Coherent ⟨t, ⟨p, b, x.key⟩ :: s.held, s.last⟩ := by
  have latest : x.bData = s.last x.key := loaded.trans (good.stored x.key alone)
  have here : t.blocks b = x := by rw [blocks, Function.update_self]
  have elsewhere : ∀ c, c ≠ b → t.blocks c = s.kernel.blocks c := by
    intro c other
    rw [blocks, Function.update_of_ne other]
  refine ⟨?_, ?_, ?_, ?_, ?_⟩
  · intro h member
    rcases List.mem_cons.mp member with same | older
    · subst same
      simp [Live, here, fresh]
    · obtain ⟨key, live⟩ := good.keyed h older
      have other : h.buf ≠ b := fun same => idle (same ▸ live)
      simpa only [Live, elsewhere _ other] using And.intro key live
  · intro c live
    by_cases same : c = b
    · simpa only [same, here] using fresh
    · simp only [Live, elsewhere c same] at live ⊢
      exact good.once c live
  · intro c d liveC liveD same
    by_cases atC : c = b <;> by_cases atD : d = b
    · exact atC.trans atD.symm
    · subst atC
      simp only [Live, here, elsewhere d atD] at liveD same
      exact absurd liveD (alone d same.symm)
    · subst atD
      simp only [Live, here, elsewhere c atC] at liveC same
      exact absurd liveC (alone c same)
    · simp only [Live, elsewhere c atC, elsewhere d atD] at liveC liveD same
      exact good.unique c d liveC liveD same
  · intro c live
    by_cases same : c = b
    · simpa only [same, here] using latest
    · simp only [Live, elsewhere c same] at live ⊢
      exact good.cached c live
  · intro key none_live
    rw [disk]
    apply good.stored key
    intro c same live
    have other : c ≠ b := fun equal => idle (equal ▸ live)
    apply none_live c
    · simpa only [elsewhere c other] using same
    · simpa only [Live, elsewhere c other] using live

theorem free_coherent (s : Clients) (good : Coherent s) (t : Kernel) (b : BufId) (x : Buffer)
    (held : List Handle) (blocks : t.blocks = Function.update s.kernel.blocks b x)
    (idle : x.bCount = 0) (kept : ∀ h ∈ held, h ∈ s.held ∧ h.buf ≠ b)
    (saved : t.disk (s.kernel.blocks b).key = s.last (s.kernel.blocks b).key)
    (others : ∀ key, key ≠ (s.kernel.blocks b).key → t.disk key = s.kernel.disk key) :
    Coherent ⟨t, held, s.last⟩ := by
  have here : t.blocks b = x := by rw [blocks, Function.update_self]
  have elsewhere : ∀ c, c ≠ b → t.blocks c = s.kernel.blocks c := by
    intro c other
    rw [blocks, Function.update_of_ne other]
  have still_live : ∀ c, (t.blocks c).bCount ≠ 0 → c ≠ b := by
    intro c used same
    exact used (by rw [same, here, idle])
  refine ⟨?_, ?_, ?_, ?_, ?_⟩
  · intro h member
    obtain ⟨older, other⟩ := kept h member
    simpa only [Live, elsewhere _ other] using good.keyed h older
  · intro c used
    have other := still_live c used
    simp only [Live, elsewhere c other] at used ⊢
    exact good.once c used
  · intro c d usedC usedD same
    have otherC := still_live c usedC
    have otherD := still_live d usedD
    simp only [Live, elsewhere c otherC, elsewhere d otherD] at usedC usedD same
    exact good.unique c d usedC usedD same
  · intro c used
    have other := still_live c used
    simp only [Live, elsewhere c other] at used ⊢
    exact good.cached c used
  · intro key none_live
    by_cases same : key = (s.kernel.blocks b).key
    · simpa only [same] using saved
    · refine (others key same).trans (good.stored key ?_)
      intro c keyed used
      have other : c ≠ b := fun equal => same (equal ▸ keyed).symm
      apply none_live c
      · simpa only [elsewhere c other] using keyed
      · simpa only [Live, elsewhere c other] using used

theorem give_up_coherent (s : Clients) (good : Coherent s) (p : Pid) (h : Handle) :
    Coherent ⟨s.kernel.runAs p, s.held.erase h, s.last⟩ :=
  ⟨fun g member => good.keyed g (List.mem_of_mem_erase member), good.once, good.unique, good.cached, good.stored⟩

theorem change_coherent (s : Clients) (good : Coherent s) (h : Handle) (mine : h ∈ s.held) (patch : Patch) :
    Coherent ⟨s.kernel.setBlock h.buf ((s.kernel.blocks h.buf).store patch), s.held,
      Function.update s.last h.key (patch.apply (s.last h.key))⟩ := by
  obtain ⟨key, live⟩ := good.keyed h mine
  have latest := good.cached h.buf live
  have same_key : ∀ c, ((Function.update s.kernel.blocks h.buf ((s.kernel.blocks h.buf).store patch)) c).key =
      (s.kernel.blocks c).key := by
    intro c
    by_cases same : c = h.buf
    · subst same
      simp [Buffer.store, Buffer.key]
    · rw [Function.update_of_ne same]
  have same_count : ∀ c, ((Function.update s.kernel.blocks h.buf ((s.kernel.blocks h.buf).store patch)) c).bCount =
      (s.kernel.blocks c).bCount := by
    intro c
    by_cases same : c = h.buf
    · subst same
      simp [Buffer.store]
    · rw [Function.update_of_ne same]
  refine ⟨?_, ?_, ?_, ?_, ?_⟩
  · intro g member
    simpa only [Live, Kernel.setBlock_blocks, same_key, same_count] using good.keyed g member
  · intro c used
    simp only [Live, Kernel.setBlock_blocks, same_count] at used ⊢
    exact good.once c used
  · intro c d usedC usedD same
    simp only [Live, Kernel.setBlock_blocks, same_count, same_key] at usedC usedD same
    exact good.unique c d usedC usedD same
  · intro c used
    simp only [Live, Kernel.setBlock_blocks, same_count, same_key] at used ⊢
    by_cases same : c = h.buf
    · subst same
      rw [Function.update_self, key, Function.update_self, ← key, ← latest]
      rfl
    · have apart : (s.kernel.blocks c).key ≠ h.key := fun equal =>
        same (good.unique c h.buf used live (equal.trans key.symm))
      rw [Function.update_of_ne same, Function.update_of_ne apart]
      exact good.cached c used
  · intro other none_live
    simp only [Live, Kernel.setBlock_blocks, same_count, same_key] at none_live
    have apart : other ≠ h.key := fun equal => none_live h.buf (key.trans equal.symm) live
    exact (good.stored other none_live).trans (Function.update_of_ne apart _ s.last).symm

theorem sole_holder_others (s : Clients) (h : Handle) (sole : SoleHolder s h) :
    ∀ g ∈ s.held.erase h, g ∈ s.held ∧ g.buf ≠ h.buf :=
  fun g member => ⟨List.mem_of_mem_erase member, sole g member⟩

theorem wrote_back_coherent (s : Clients) (good : Coherent s) (h : Handle) (mine : h ∈ s.held)
    (sole : SoleHolder s h) :
    Coherent ⟨(s.kernel.runAs h.pid).wroteBack h.buf, s.held.erase h, s.last⟩ := by
  obtain ⟨-, live⟩ := good.keyed h mine
  have last_use : (s.kernel.blocks h.buf).bCount - 1 = 0 := by rw [good.once h.buf live]; rfl
  apply free_coherent s good _ h.buf (s.kernel.blocks h.buf).drop.wipe
  · simp [Kernel.wroteBack, last_use]
  · simpa [Buffer.wipe, Buffer.drop] using last_use
  · exact sole_holder_others s h sole
  · simpa [Kernel.wroteBack] using good.cached h.buf live
  · intro key other
    simp [Kernel.wroteBack, other]

theorem released_coherent (s : Clients) (good : Coherent s) (h : Handle) (mine : h ∈ s.held)
    (sole : SoleHolder s h) (clean : (s.kernel.blocks h.buf).bData = s.kernel.disk h.key) :
    Coherent ⟨((s.kernel.runAs h.pid).setBlock h.buf (s.kernel.blocks h.buf).drop).unlock (.buf h.buf),
      s.held.erase h, s.last⟩ := by
  obtain ⟨key, live⟩ := good.keyed h mine
  apply free_coherent s good _ h.buf (s.kernel.blocks h.buf).drop
  · simp
  · simp only [Buffer.drop]
    rw [good.once h.buf live]
    rfl
  · exact sole_holder_others s h sole
  · simpa [key, clean] using good.cached h.buf live
  · intro other _
    simp

theorem bread_coherent (s : Clients) (good : Coherent s) (t : Kernel) (p : Pid) (dev : Dev) (blk : Blk)
    (b : BufId) (done : (bread dev blk).run (s.kernel.runAs p) = .ok b t)
    (careful : Careful s (.bread p dev blk b)) :
    Coherent ⟨t, ⟨p, b, (dev, blk)⟩ :: s.held, s.last⟩ ∧ (t.blocks b).bData = s.last (dev, blk) := by
  obtain ⟨-, cases⟩ := bread_cases _ _ _ _ _ done
  rcases cases with ⟨hit, used, rfl⟩ | ⟨hit, zero, rfl⟩ | ⟨miss, unused, rfl⟩
  · have key := ((find_block_some _ dev blk b).mp hit).1
    refine ⟨⟨?_, good.once, good.unique, good.cached, good.stored⟩, ?_⟩
    · intro h member
      rcases List.mem_cons.mp member with same | older
      · subst same
        exact ⟨key, used⟩
      · exact good.keyed h older
    · exact key ▸ good.cached b used
  · have key := ((find_block_some _ dev blk b).mp hit).1
    have alone := careful b hit (fun live => live zero)
    let x := (s.kernel.blocks b).fill (s.kernel.disk (dev, blk))
    have keyX : x.key = (dev, blk) := key
    have fresh : x.bCount = 1 := by
      change (s.kernel.blocks b).bCount + 1 = 1
      rw [show (s.kernel.blocks b).bCount = 0 from zero]
      rfl
    have loaded : x.bData = s.kernel.disk x.key := by rw [keyX]; rfl
    have result := load_coherent s good ((s.kernel.runAs p).setBlock b x) p b x rfl rfl
      (fun live => live zero) fresh loaded (keyX.symm ▸ alone)
    rw [keyX] at result
    refine ⟨result, ?_⟩
    simpa [Buffer.fill] using good.stored (dev, blk) alone
  · have absent := (find_block_none _ dev blk).mp miss
    have zero := ((free_block_some _ b).mp unused).1
    have alone : ∀ c, (s.kernel.blocks c).key = (dev, blk) → ¬ Live s c :=
      fun c same => absurd same (absent c)
    let x := ((s.kernel.blocks b).rekey dev blk).fill (s.kernel.disk (dev, blk))
    have fresh : x.bCount = 1 := by
      change (s.kernel.blocks b).bCount + 1 = 1
      rw [show (s.kernel.blocks b).bCount = 0 from zero]
      rfl
    refine ⟨load_coherent s good _ p b x rfl rfl (fun live => live zero) fresh rfl alone, ?_⟩
    simpa [Buffer.fill] using good.stored (dev, blk) alone

theorem step_coherent (s : Clients) (act : BufAct) (t : Clients) (good : Coherent s)
    (taken : BufStep s act t) (careful : Careful s act) : Coherent t := by
  cases taken with
  | bread t p dev blk b done => exact (bread_coherent s good t p dev blk b done careful).1
  | change h patch mine => exact change_coherent s good h mine patch
  | bwrite t h r mine done =>
      obtain ⟨-, -, ⟨clean, rfl⟩ | ⟨dirty, rfl⟩⟩ := bwrite_cases _ _ _ _ done
      · exact give_up_coherent s good h.pid h
      · exact wrote_back_coherent s good h mine (careful dirty)
  | brelease t h r mine done =>
      obtain ⟨-, -, ⟨locked, rfl⟩ | ⟨unlocked, rfl⟩⟩ := brelease_cases _ _ _ _ done
      · obtain ⟨sole, clean⟩ := careful locked
        exact released_coherent s good h mine sole clean
      · exact give_up_coherent s good h.pid h

theorem step_yields_last (s : Clients) (act : BufAct) (t : Clients) (good : Coherent s)
    (taken : BufStep s act t) (careful : Careful s act) : YieldsLast ⟨s, act, t⟩ := by
  cases taken with
  | bread t p dev blk b done => exact (bread_coherent s good t p dev blk b done careful).2
  | change => trivial
  | bwrite => trivial
  | brelease => trivial

theorem cache_refines_map (k : Kernel) (moves : List (Move Clients BufAct)) (last : Clients)
    (run : Run BufStep (Clients.boot k) moves last)
    (careful : ∀ move ∈ moves, Careful move.before move.act) :
    (∀ move ∈ moves, YieldsLast move) ∧ Throughout Kept moves last := by
  have coherent := run_invariant BufStep Careful Coherent step_coherent _ _ moves run (boot_coherent k) careful
  refine ⟨run_moves BufStep Careful Coherent YieldsLast step_coherent step_yields_last _ _ moves run
    (boot_coherent k) careful, ?_, coherent_kept last coherent.2⟩
  exact fun move member => coherent_kept move.before (coherent.1 move member)

def fillWith (v : UInt8) : Patch := fun _ => some v

theorem boot_two_slots : Clients.boot Kernel.zero =
    ⟨twoSlots 0 zeroBuffer zeroBuffer (fun _ => zeroBlock) freeLocks, [], fun _ => zeroBlock⟩ := by
  simp [Clients.boot, twoSlots, Kernel.zero]

theorem two_slots_change (p q : Pid) (x y : Buffer) (disk last : Dev × Blk → Block) (locks : Lock → Option Pid)
    (held : List Handle) (key : Dev × Blk) (patch : Patch) (mine : ⟨q, 0, key⟩ ∈ held) :
    BufStep ⟨twoSlots p x y disk locks, held, last⟩ (.change ⟨q, 0, key⟩ patch)
      ⟨twoSlots p (x.store patch) y disk locks, held, Function.update last key (patch.apply (last key))⟩ := by
  have taken := BufStep.change ⟨twoSlots p x y disk locks, held, last⟩ ⟨q, 0, key⟩ patch mine
  rwa [two_slots_set_first] at taken

-- Two clients share a slot, which counts one use; the first one's bwrite wipes it under
-- the second, whose store is then in a slot no bread of the block finds.
theorem shared_write_lost :
    ¬ ∀ (k : Kernel) (moves : List (Move Clients BufAct)) (last : Clients),
      Run BufStep (Clients.boot k) moves last → ∀ move ∈ moves, YieldsLast move := by
  intro claim
  let a : Handle := ⟨0, 0, (1, 5)⟩
  let b : Handle := ⟨1, 0, (1, 5)⟩
  let blank : Dev × Blk → Block := fun _ => zeroBlock
  let changed := openedBuffer.store (fillWith 1)
  let stray := changed.drop.wipe.store (fillWith 2)
  let stored := Function.update blank (1, 5) changed.bData
  let restored := Function.update stored (1, 5) ((fillWith 2).apply (stored (1, 5)))
  let taken := Function.update freeLocks (.buf 0) (some 0)
  have shared := two_slots_held 1 openedBuffer zeroBuffer blank freeLocks 1 5 rfl (by decide) rfl
  have written := two_slots_wipe 0 changed zeroBuffer blank freeLocks rfl rfl rfl
  have reread := two_slots_recycle 0 stray zeroBuffer stored taken 1 5 (by simp [taken, freeLocks]) (by decide)
    (by decide) (by decide) (by decide)
  have claimed := claim Kernel.zero
  rw [boot_two_slots] at claimed
  have yields := claimed _ _
    (.cons _ _ _ _ _ (.bread ⟨_, [], blank⟩ _ 0 1 5 0 two_slots_open) <|
      .cons _ _ _ _ _ (.bread ⟨_, [a], blank⟩ _ 1 1 5 0 shared) <|
      .cons _ _ _ _ _ (two_slots_change 1 0 openedBuffer zeroBuffer blank blank freeLocks [b, a] (1, 5)
        (fillWith 1) (by simp [a])) <|
      .cons _ _ _ _ _ (.bwrite ⟨twoSlots 1 changed zeroBuffer blank freeLocks, [b, a], stored⟩ _ a 0
        (by simp) written) <|
      .cons _ _ _ _ _ (two_slots_change 0 1 changed.drop.wipe zeroBuffer stored stored taken [b] (1, 5)
        (fillWith 2) (by simp [b])) <|
      .cons _ _ _ _ _ (.bread ⟨twoSlots 0 stray zeroBuffer stored taken, [b], restored⟩ _ 0 1 5 0 reread) <|
      .nil _) _ (List.mem_of_getLast? rfl)
  have byte := congrFun yields 0
  revert byte
  decide

theorem cache_refines_map_written :
    ∃ (moves : List (Move Clients BufAct)) (last : Clients), moves.length = 4 ∧
      Run BufStep (Clients.boot Kernel.zero) moves last ∧
      (∀ move ∈ moves, YieldsLast move) ∧ Throughout Kept moves last := by
  let a : Handle := ⟨0, 0, (1, 5)⟩
  let blank : Dev × Blk → Block := fun _ => zeroBlock
  let changed := openedBuffer.store (fillWith 1)
  let stored := Function.update blank (1, 5) changed.bData
  let taken := Function.update freeLocks (.buf 0) (some 0)
  have written := two_slots_wipe 0 changed zeroBuffer blank freeLocks rfl rfl rfl
  have reread := two_slots_recycle 0 changed.drop.wipe zeroBuffer stored taken 1 5 (by simp [taken, freeLocks])
    (by decide) (by decide) (by decide) (by decide)
  have run := Run.cons _ _ _ _ _
      (BufStep.bread ⟨twoSlots 0 zeroBuffer zeroBuffer blank freeLocks, [], blank⟩ _ 0 1 5 0 two_slots_open) <|
    .cons _ _ _ _ _ (two_slots_change 0 0 openedBuffer zeroBuffer blank blank freeLocks [a] (1, 5)
      (fillWith 1) (by simp [a])) <|
    .cons _ _ _ _ _ (.bwrite ⟨twoSlots 0 changed zeroBuffer blank freeLocks, [a], stored⟩ _ a 0
      (by simp) written) <|
    .cons _ _ _ _ _ (.bread ⟨twoSlots 0 changed.drop.wipe zeroBuffer stored taken, [], stored⟩ _ 0 1 5 0
      reread) <|
    .nil _
  rw [← boot_two_slots] at run
  refine ⟨_, _, rfl, run, cache_refines_map Kernel.zero _ _ run ?_⟩
  have miss : ∀ (p : Pid) (x : Buffer) (disk : Dev × Blk → Block) (locks : Lock → Option Pid), x.key = (0, 0) →
      findBlock (twoSlots p x zeroBuffer disk locks) 1 5 = none := fun p x disk locks key =>
    two_slots_find_none p x zeroBuffer disk locks 1 5 (by rw [key]; decide) (by decide) (by decide)
  simp only [List.forall_mem_cons]
  refine ⟨?_, trivial, ?_, ?_, by simp⟩
  · intro b hit
    rw [boot_two_slots, miss 0 zeroBuffer _ _ rfl] at hit
    cases hit
  · intro _ g member
    simp at member
  · intro b hit
    rw [miss 0 changed.drop.wipe _ _ rfl] at hit
    cases hit

end Yaup
