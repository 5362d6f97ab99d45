import Yaup.Bitmap
import Yaup.InodeRefs

set_option autoImplicit false

namespace Yaup

open Lib

-- Where the first slot with the key is not in use, none of them is, so which of them a
-- bread finds does not matter.
def Unhidden (k : Kernel) (key : Dev × Blk) : Prop :=
  ∀ b, findBlock k key.1 key.2 = some b → (k.blocks b).bCount = 0 →
    ∀ c, (k.blocks c).key = key → (k.blocks c).bCount = 0

theorem find_block_apart (k t : Kernel) (key : Dev × Blk) (b : BufId)
    (others : ∀ c, c ≠ b → t.blocks c = k.blocks c) (after : (t.blocks b).key ≠ key) (c : BufId) (apart : c ≠ b)
    (found : findBlock k key.1 key.2 = some c) : findBlock t key.1 key.2 = some c := by
  obtain ⟨named, earlier⟩ := (find_block_some k key.1 key.2 c).mp found
  refine (find_block_some t key.1 key.2 c).mpr ⟨by rw [others c apart]; exact named, fun d below => ?_⟩
  by_cases same : d = b
  · subst same
    exact after
  · rw [others d same]
    exact earlier d below

theorem contents_apart (k t : Kernel) (key : Dev × Blk) (b : BufId) (others : ∀ c, c ≠ b → t.blocks c = k.blocks c)
    (disk : t.disk key = k.disk key) (before : (k.blocks b).key ≠ key) (after : (t.blocks b).key ≠ key) :
    t.contents key = k.contents key := by
  rw [Kernel.contents, Kernel.contents]
  cases search : findBlock k key.1 key.2 with
  | none =>
      have missed : findBlock t key.1 key.2 = none := by
        refine (find_block_none t key.1 key.2).mpr fun c => ?_
        by_cases same : c = b
        · subst same
          exact after
        · rw [others c same]
          exact (find_block_none k key.1 key.2).mp search c
      rw [missed, Kernel.shown, Kernel.shown, disk]
  | some c =>
      have apart : c ≠ b := fun same => before (same ▸ ((find_block_some k key.1 key.2 c).mp search).1)
      rw [find_block_apart k t key b others after c apart search, Kernel.shown, Kernel.shown, others c apart, disk]

theorem contents_recycled (k t : Kernel) (key : Dev × Blk) (b : BufId)
    (others : ∀ c, c ≠ b → t.blocks c = k.blocks c) (disk : t.disk key = k.disk key)
    (idle : (k.blocks b).bCount = 0) (after : (t.blocks b).key ≠ key) (seen : Unhidden k key) :
    t.contents key = k.contents key := by
  by_cases unused : ∀ c, (k.blocks c).key = key → (k.blocks c).bCount = 0
  · have unusedAfter : ∀ c, (t.blocks c).key = key → (t.blocks c).bCount = 0 := by
      intro c named
      by_cases same : c = b
      · subst same
        exact absurd named after
      · rw [others c same] at named ⊢
        exact unused c named
    rw [contents_idle k key unused, contents_idle t key unusedAfter, disk]
  · cases search : findBlock k key.1 key.2 with
    | none =>
        exact absurd (fun c named => absurd named ((find_block_none k key.1 key.2).mp search c)) unused
    | some c =>
        have apart : c ≠ b := fun same => unused (seen c search (same ▸ idle))
        rw [Kernel.contents, Kernel.contents, find_block_apart k t key b others after c apart search, search,
          Kernel.shown, Kernel.shown, others c apart, disk]

theorem bread_keeps_shown (k t : Kernel) (dev : Dev) (blk : Blk) (b : BufId) (key : Dev × Blk)
    (done : (bread dev blk).run k = .ok b t) (other : key ≠ (dev, blk)) (seen : Unhidden k key) :
    t.contents key = k.contents key := by
  have named := (bread_handed k t dev blk b done).2.1
  have after : (t.blocks b).key ≠ key := fun same => other (same.symm.trans named)
  obtain ⟨-, ⟨-, -, rfl⟩ | ⟨hit, -, rfl⟩ | ⟨-, unused, rfl⟩⟩ := bread_cases k t dev blk b done
  · rfl
  · have before := ((find_block_some k dev blk b).mp hit).1
    exact contents_apart k _ key b (fun c apart => by simp [apart]) rfl (fun same => other (same.symm.trans before)) after
  · exact contents_recycled k _ key b (fun c apart => by simp [apart]) rfl ((free_block_some k b).mp unused).1 after seen

theorem bwrite_keeps_shown (k t : Kernel) (b : BufId) (r : Int) (key : Dev × Blk)
    (done : (bwrite b).run k = .ok r t) (other : key ≠ (k.blocks b).key) (boot : key ≠ (0, 0)) :
    t.contents key = k.contents key := by
  obtain ⟨-, -, ⟨-, rfl⟩ | ⟨-, rfl⟩⟩ := bwrite_cases k t b r done
  · rfl
  · refine contents_apart k _ key b (fun c apart => ?_) ?_ other.symm ?_
    · simp [Kernel.wroteBack, apart]
    · simp [Kernel.wroteBack, other]
    · simp only [Kernel.wroteBack, Kernel.setBlock_blocks, Function.update_self]
      split
      · exact boot.symm
      · exact other.symm

theorem ifree_keeps_shown (k t : Kernel) (i : InodeId) (r : Int) (key : Dev × Blk) (done : (ifree i).run k = .ok r t)
    (other : key ≠ ((k.inodes i).iDev, tableBlk k (k.inodes i).iDev (k.inodes i).iNum)) (boot : key ≠ (0, 0))
    (seen : Unhidden k key) : t.superblock = k.superblock ∧ t.contents key = k.contents key := by
  obtain ⟨-, b, s, q, w, read, wrote, rfl⟩ := ifree_cases k t i r done
  have frame := bread_frame _ s _ _ b read
  have named := (bread_handed _ s _ _ b read).2.1
  have apart : key ≠ (s.blocks b).key := fun same => other (same.trans named)
  have kept : ((s.clearInode b i).blocks b).key = (s.blocks b).key := by simp [Kernel.clearInode, Buffer.key]
  have cleared : key ≠ ((s.clearInode b i).blocks b).key := fun same => apart (same.trans kept)
  have unlocked : (w.unlock (.ino i)).contents = w.contents := blocks_contents w (w.unlock (.ino i)) rfl rfl
  have locked : (k.lock (.ino i)).contents = k.contents := blocks_contents k (k.lock (.ino i)) rfl rfl
  refine ⟨(bwrite_frame _ w b q wrote).superblock.trans frame.superblock, ?_⟩
  calc (w.unlock (.ino i)).contents key
      = w.contents key := congrFun unlocked key
    _ = (s.clearInode b i).contents key := bwrite_keeps_shown _ w b q key wrote cleared boot
    _ = s.contents key :=
        contents_apart s _ key b (fun c differs => by simp [Kernel.clearInode, differs]) rfl apart.symm cleared.symm
    _ = (k.lock (.ino i)).contents key := bread_keeps_shown _ s _ _ b key read other seen
    _ = k.contents key := congrFun locked key

structure Allocated where
  kernel : Kernel
  live : List (Dev × Ino)

inductive InodeAct where
  | ialloc (p : Pid) (w : Wild) (unset : Option InodeId) (dev : Dev) (answer : Option InodeId)
  | ifree (p : Pid) (w : Wild) (i : InodeId)

def obtained (t : Kernel) (live : List (Dev × Ino)) : Option InodeId → List (Dev × Ino)
  | some i => (t.inodes i).named :: live
  | none => live

inductive InodeStep (getFreePos : Block → UInt64) : Allocated → InodeAct → Allocated → Prop where
  | ialloc (s : Allocated) (t : Kernel) (p : Pid) (w : Wild) (unset : Option InodeId) (dev : Dev)
      (answer : Option InodeId) (done : (ialloc getFreePos unset dev).run (begun s.kernel p w) = .ok answer t) :
      InodeStep getFreePos s (.ialloc p w unset dev answer) ⟨t, obtained t s.live answer⟩
  | ifree (s : Allocated) (t : Kernel) (p : Pid) (w : Wild) (i : InodeId) (r : Int)
      (done : (ifree i).run (begun s.kernel p w) = .ok r t) :
      InodeStep getFreePos s (.ifree p w i) ⟨t, s.live.filter (· ≠ (s.kernel.inodes i).named)⟩

def inodeBitmap (k : Kernel) (dev : Dev) (c : Nat) : Block :=
  k.contents (dev, (k.superblock dev).sFreeIno + UInt64.ofNat c)

def FreeNumber (k : Kernel) (name : Dev × Ino) : Prop :=
  MarkedFree k name.1 (k.superblock name.1).sFreeIno (k.superblock name.1).sFreeInoLen name.2.toNat

def Finds (getFreePos : Block → UInt64) (dev : Dev) (k t : Kernel) : Option InodeId → Prop
  | some i => ∃ c < (k.superblock dev).sFreeInoLen.toNat, ∃ pos < bitsPerBlk,
      (getFreePos (inodeBitmap k dev c)).toNat = pos ∧ bitAt (inodeBitmap k dev c) pos = true ∧
        (t.inodes i).iDev = dev ∧ (t.inodes i).iNum.toNat = c * bitsPerBlk + pos
  | none => ∀ c < (k.superblock dev).sFreeInoLen.toNat, ¬SomeBit (inodeBitmap k dev c)

def MoveRight (getFreePos : Block → UInt64) (move : Move Allocated InodeAct) : Prop :=
  match move.act with
  | .ialloc _ _ _ dev answer => Finds getFreePos dev move.before.kernel move.after.kernel answer ∧
      ∀ i, answer = some i → (move.after.kernel.inodes i).named ∉ move.before.live
  | .ifree _ _ i => FreeNumber move.after.kernel (move.before.kernel.inodes i).named

def Distinct (s : Allocated) : Prop := s.live.Nodup

-- The inodes of the device that are given out are marked as taken, and its first bitmap block has
-- a free bit where get_free_pos finds one other than bit 0; or there is no bitmap block, and the
-- unset local is NULL.
def PicksFirst (getFreePos : Block → UInt64) (s : Allocated) (unset : Option InodeId) (dev : Dev) : Prop :=
  (s.kernel.superblock dev).sFreeInoLen = 0 ∧ unset = none ∨
    (s.kernel.superblock dev).sFreeInoLen ≠ 0 ∧ SomeBit (inodeBitmap s.kernel dev 0) ∧
      getFreePos (inodeBitmap s.kernel dev 0) ≠ 0 ∧ ∀ name ∈ s.live, name.1 = dev → ¬FreeNumber s.kernel name

structure MarkStays (k : Kernel) (i : InodeId) : Prop where
  marked : FreeNumber k (k.inodes i).named
  apart : bitmapKey (k.inodes i).iDev (k.superblock (k.inodes i).iDev).sFreeIno (k.inodes i).iNum.toNat ≠
    ((k.inodes i).iDev, tableBlk k (k.inodes i).iDev (k.inodes i).iNum)
  boot : bitmapKey (k.inodes i).iDev (k.superblock (k.inodes i).iDev).sFreeIno (k.inodes i).iNum.toNat ≠ (0, 0)
  seen : Unhidden k (bitmapKey (k.inodes i).iDev (k.superblock (k.inodes i).iDev).sFreeIno (k.inodes i).iNum.toNat)

def KeepsBitmap (getFreePos : Block → UInt64) (s : Allocated) : InodeAct → Prop
  | .ialloc _ _ unset dev _ => PicksFirst getFreePos s unset dev
  | .ifree _ _ i => MarkStays s.kernel i

section
variable (getFreePos : Block → UInt64) (unset : Option InodeId) (dev : Dev)

theorem ialloc_empty (left : Nat) (k t : Kernel) (answer : Option InodeId)
    (empty : (k.superblock dev).sFreeInoLen = 0)
    (done : (iallocLoop getFreePos unset dev (left + 1) 0).run k = .ok answer t) : answer = unset ∧ t = k := by
  rw [iallocLoop, run_get_bind, empty, if_neg UInt64.not_lt_zero] at done
  cases done
  exact ⟨rfl, rfl⟩

theorem ialloc_first (left : Nat) (k t : Kernel) (answer : Option InodeId)
    (some : (k.superblock dev).sFreeInoLen ≠ 0) (found : getFreePos (inodeBitmap k dev 0) ≠ 0)
    (done : (iallocLoop getFreePos unset dev (left + 1) 0).run k = .ok answer t) :
    ∃ i, answer = .some i ∧ (t.inodes i).named = (dev, getFreePos (inodeBitmap k dev 0)) := by
  have turn : UInt64.ofNat 0 < (k.superblock dev).sFreeInoLen := UInt64.pos_iff_ne_zero.mpr some
  rw [iallocLoop, run_get_bind, if_pos turn] at done
  obtain ⟨b, s, read, rest⟩ := (run_bind_ok _ _ _ _ _).mp done
  have shown : (s.blocks b).bData = inodeBitmap k dev 0 := bread_shows k s dev _ b read
  rw [run_get_bind] at rest
  simp only [shown] at rest
  rw [if_pos (UInt64.pos_iff_ne_zero.mpr found)] at rest
  obtain ⟨i, u, got, rest⟩ := (run_bind_ok _ _ _ _ _).mp rest
  cases rest
  exact ⟨i, rfl, iget_named s t dev _ i got⟩

end

theorem ialloc_right (getFreePos : Block → UInt64) (finds : FindsFree getFreePos) (s : Allocated) (t : Kernel)
    (p : Pid) (w : Wild) (unset : Option InodeId) (dev : Dev) (answer : Option InodeId)
    (picks : PicksFirst getFreePos s unset dev)
    (done : (ialloc getFreePos unset dev).run (begun s.kernel p w) = .ok answer t) :
    Finds getFreePos dev s.kernel t answer ∧ ∀ i, answer = some i → (t.inodes i).named ∉ s.live := by
  have shown : inodeBitmap (begun s.kernel p w) dev 0 = inodeBitmap s.kernel dev 0 :=
    congrFun (blocks_contents s.kernel (begun s.kernel p w) rfl rfl) _
  rcases picks with ⟨empty, rfl⟩ | ⟨some, bit, found, back⟩
  · obtain ⟨rfl, -⟩ := ialloc_empty getFreePos none dev intMax (begun s.kernel p w) t answer empty done
    refine ⟨fun c below => ?_, fun i same => by cases same⟩
    rw [empty] at below
    exact absurd below (Nat.not_lt_zero c)
  · obtain ⟨i, rfl, named⟩ :=
      ialloc_first getFreePos unset dev intMax (begun s.kernel p w) t answer some (by rw [shown]; exact found) done
    rw [shown] at named
    obtain ⟨onDev, onNum⟩ := Prod.ext_iff.mp named
    obtain ⟨bound, set⟩ := finds.found _ bit
    have positive : 0 < (s.kernel.superblock dev).sFreeInoLen.toNat := by
      have least := UInt64.lt_iff_toNat_lt.mp (UInt64.pos_iff_ne_zero.mpr some)
      simpa using least
    refine ⟨⟨0, positive, _, bound, rfl, set, onDev, ?_⟩, ?_⟩
    · rw [Nat.zero_mul, Nat.zero_add]
      exact congrArg UInt64.toNat onNum
    · intro j same
      cases same
      rw [named]
      intro out
      refine back _ out rfl ⟨?_, ?_⟩
      · rw [Nat.div_eq_of_lt bound]
        exact positive
      · rw [bitmapKey, Nat.div_eq_of_lt bound, Nat.mod_eq_of_lt bound]
        exact set

theorem ifree_right (k t : Kernel) (i : InodeId) (r : Int) (stays : MarkStays k i)
    (done : (ifree i).run k = .ok r t) : FreeNumber t (k.inodes i).named := by
  obtain ⟨table, shown⟩ := ifree_keeps_shown k t i r _ done stays.apart stays.boot stays.seen
  have kept := marked_same k t _ _ _ _ shown stays.marked
  unfold FreeNumber
  rw [table]
  exact kept

theorem inode_step (getFreePos : Block → UInt64) (finds : FindsFree getFreePos) (s t : Allocated) (act : InodeAct)
    (distinct : Distinct s) (taken : InodeStep getFreePos s act t) (keeps : KeepsBitmap getFreePos s act) :
    Distinct t ∧ MoveRight getFreePos ⟨s, act, t⟩ := by
  cases taken with
  | ialloc t p w unset dev answer done =>
      obtain ⟨right, fresh⟩ := ialloc_right getFreePos finds s t p w unset dev answer keeps done
      refine ⟨?_, right, fresh⟩
      cases answer with
      | none => exact distinct
      | some i => exact List.nodup_cons.mpr ⟨fresh i rfl, distinct⟩
  | ifree t p w i r done =>
      have stays : MarkStays (begun s.kernel p w) i := by
        have shown : (begun s.kernel p w).contents = s.kernel.contents := blocks_contents s.kernel _ rfl rfl
        have marked : FreeNumber s.kernel (s.kernel.inodes i).named := keeps.marked
        exact ⟨marked_same s.kernel _ _ _ _ _ (congrFun shown _) marked, keeps.apart, keeps.boot, keeps.seen⟩
      exact ⟨distinct.filter _, ifree_right (begun s.kernel p w) t i r stays done⟩

theorem numbers_unique (getFreePos : Block → UInt64) (finds : FindsFree getFreePos) (first last : Allocated)
    (moves : List (Move Allocated InodeAct)) (run : Run (InodeStep getFreePos) first moves last)
    (start : Distinct first) (keeps : ∀ move ∈ moves, KeepsBitmap getFreePos move.before move.act) :
    Throughout Distinct moves last ∧ ∀ move ∈ moves, MoveRight getFreePos move := by
  have step := fun before act after distinct taken met =>
    (inode_step getFreePos finds before after act distinct taken met).1
  exact ⟨run_invariant _ (KeepsBitmap getFreePos) Distinct step first last moves run start keeps,
    run_moves _ (KeepsBitmap getFreePos) Distinct _ step
      (fun before act after distinct taken met => (inode_step getFreePos finds before after act distinct taken met).2)
      first last moves run start keeps⟩

def firstFree (data : Block) : UInt64 :=
  match (List.range bitsPerBlk).find? (bitAt data) with
  | some j => UInt64.ofNat j
  | none => -28

theorem first_free_finds : FindsFree firstFree where
  found := by
    intro data ⟨j, below, set⟩
    unfold firstFree
    cases search : (List.range bitsPerBlk).find? (bitAt data) with
    | none => exact absurd set (List.find?_eq_none.mp search j (List.mem_range.mpr below))
    | some c =>
        have inside := List.mem_range.mp (List.mem_of_find?_eq_some search)
        have size : bitsPerBlk < UInt64.size := by decide
        have same : (UInt64.ofNat c).toNat = c := UInt64.toNat_ofNat_of_lt' (inside.trans size)
        dsimp only
        rw [same]
        exact ⟨inside, List.find?_some search⟩
  full := by
    intro data empty
    unfold firstFree
    cases search : (List.range bitsPerBlk).find? (bitAt data) with
    | none => decide
    | some c => exact absurd ⟨c, List.mem_range.mp (List.mem_of_find?_eq_some search), List.find?_some search⟩ empty

-- A bitmap block with bit 5 set alone, in the buffer of block 2 of device 1, the first block of
-- the inode table in the next buffer, and inode 5 in the cache.
def fifthBit : Block := fun n => if n = 0 then 32 else 0

def fifthFree : Kernel :=
  (((Kernel.zero.setBlock 0 ⟨fifthBit, 1, 2, false, 1⟩).setBlock 1 ⟨zeroBlock, 1, 0, false, 1⟩).setInode 0
    { Kernel.zero.inodes 0 with iDev := 1, iNum := 5, iCount := 1 }).setSuperblock 1 ⟨0, 0, 0, 2, 1⟩

theorem fifth_bit_some : SomeBit fifthBit := ⟨5, by decide, rfl⟩

theorem fifth_bit_found : firstFree fifthBit = 5 := by
  have inside : 5 ∈ List.range bitsPerBlk := List.mem_range.mpr (by unfold bitsPerBlk blkSz; omega)
  have earlier : ∀ j < 5, (!bitAt fifthBit j) = true := by decide
  have search : (List.range bitsPerBlk).find? (bitAt fifthBit) = some 5 :=
    List.find?_range_eq_some.mpr ⟨rfl, inside, earlier⟩
  unfold firstFree
  generalize (List.range bitsPerBlk).find? (bitAt fifthBit) = found at search
  subst search
  rfl

structure FifthFree (k : Kernel) : Prop where
  table : k.locks .buffer = none
  cache : k.locks .icache = none
  slot : k.locks (.ino 0) = none
  loose : k.locks (.buf 1) = none
  bitmap : k.blocks 0 = ⟨fifthBit, 1, 2, false, 1⟩
  records : ∃ data, k.blocks 1 = ⟨data, 1, 0, false, 1⟩
  super : k.superblock 1 = ⟨0, 0, 0, 2, 1⟩
  named : (k.inodes 0).named = (1, 5)

theorem fifth_free : FifthFree fifthFree where
  table := rfl
  cache := rfl
  slot := rfl
  loose := rfl
  bitmap := by simp [fifthFree]
  records := ⟨zeroBlock, by simp [fifthFree]⟩
  super := by simp [fifthFree]
  named := by simp [fifthFree, Inode.named]

theorem fifth_begun (k : Kernel) (p : Pid) (w : Wild) (fifth : FifthFree k) : FifthFree (begun k p w) :=
  ⟨fifth.table, fifth.cache, fifth.slot, fifth.loose, fifth.bitmap, fifth.records, fifth.super, fifth.named⟩

section
variable (k : Kernel) (fifth : FifthFree k)
include fifth

theorem fifth_found : findBlock k 1 2 = some 0 :=
  (find_block_some k 1 2 0).mpr ⟨by rw [fifth.bitmap]; rfl, by simp⟩

theorem fifth_records_found : findBlock k 1 0 = some 1 := by
  obtain ⟨data, records⟩ := fifth.records
  refine (find_block_some k 1 0 1).mpr ⟨by rw [records]; rfl, fun c below => ?_⟩
  have first : c = 0 := Fin.ext (Nat.lt_one_iff.mp below)
  rw [first, fifth.bitmap]
  simp [Buffer.key]

theorem fifth_bitmap : inodeBitmap k 1 0 = fifthBit := by
  rw [inodeBitmap, fifth.super, show (2 : UInt64) + UInt64.ofNat 0 = 2 from rfl, Kernel.contents, fifth_found k fifth,
    Kernel.shown, fifth.bitmap]
  rfl

theorem fifth_ialloc (unset : Option InodeId) : (ialloc firstFree unset 1).run k = .ok (some 0) k := by
  have read := bread_held k 1 2 0 fifth.table (fifth_found k fifth) (by rw [fifth.bitmap]; decide)
  have turn : UInt64.ofNat 0 < (k.superblock 1).sFreeInoLen := by rw [fifth.super]; decide
  have blk : (k.superblock 1).sFreeIno + UInt64.ofNat 0 = 2 := by rw [fifth.super]; rfl
  obtain ⟨onDev, onNum⟩ := Prod.ext_iff.mp fifth.named
  have cached : findInode k 1 5 = some 0 := (find_inode_some k 1 5 0).mpr ⟨⟨onDev, onNum⟩, by simp⟩
  have got := iget_hit k 1 5 0 fifth.cache cached
  rw [ialloc, iallocLoop, run_get_bind, if_pos turn, blk, EStateM.run_bind, read]
  dsimp only
  rw [run_get_bind, fifth.bitmap]
  dsimp only
  rw [fifth_bit_found, if_pos (by decide), EStateM.run_bind, got]
  rfl

theorem fifth_ifree : ∃ t, (ifree 0).run k = .ok 0 t ∧ FifthFree t := by
  obtain ⟨data, records⟩ := fifth.records
  obtain ⟨onDev, onNum⟩ := Prod.ext_iff.mp fifth.named
  have place : tableBlk k (k.inodes 0).iDev (k.inodes 0).iNum = 0 := by
    rw [show (k.inodes 0).iDev = 1 from onDev, show (k.inodes 0).iNum = 5 from onNum, tableBlk, fifth.super]
    decide
  have read := bread_held (k.lock (.ino 0)) 1 0 1 fifth.table (fifth_records_found k fifth)
    (by simp [records])
  have cleared : FifthFree (((k.lock (.ino 0)).clearInode 1 0).unlock (.ino 0)) :=
    ⟨fifth.table, fifth.cache, by simp [Kernel.clearInode], by simp [Kernel.clearInode, fifth.loose],
      by simp [Kernel.clearInode, fifth.bitmap], ⟨_, by simp [Kernel.clearInode, records]; rfl⟩, fifth.super, fifth.named⟩
  have wrote : (bwrite 1).run ((k.lock (.ino 0)).clearInode 1 0) = .ok 0 ((k.lock (.ino 0)).clearInode 1 0) := by
    rw [bwrite_run, if_pos (by simp [Kernel.clearInode, fifth.loose])]
    simp [Kernel.clearInode, records]
  refine ⟨_, ?_, cleared⟩
  rw [ifree_free k 0 fifth.slot, place, show (k.inodes 0).iDev = 1 from onDev, read]
  simp only [wrote]

theorem fifth_mark_stays : MarkStays k 0 := by
  obtain ⟨onDev, onNum⟩ := Prod.ext_iff.mp fifth.named
  have key : bitmapKey (k.inodes 0).iDev (k.superblock (k.inodes 0).iDev).sFreeIno (k.inodes 0).iNum.toNat = (1, 2) := by
    rw [show (k.inodes 0).iDev = 1 from onDev, show (k.inodes 0).iNum = 5 from onNum, fifth.super]
    decide
  refine ⟨⟨?_, ?_⟩, ?_, ?_, ?_⟩
  · rw [fifth.named, fifth.super]
    decide
  · rw [fifth.named, fifth.super]
    have shown := fifth_bitmap k fifth
    rw [inodeBitmap, fifth.super] at shown
    exact (congrArg (fun data => bitAt data 5) shown).trans rfl
  · rw [key, show (k.inodes 0).iDev = 1 from onDev, show (k.inodes 0).iNum = 5 from onNum, tableBlk, fifth.super]
    decide
  · rw [key]
    decide
  · rw [key]
    intro b found idle
    rw [fifth_found k fifth] at found
    cases found
    rw [fifth.bitmap] at idle
    exact absurd idle (by decide)

theorem fifth_third_taken : ¬FreeNumber k (1, 3) := by
  rintro ⟨-, set⟩
  rw [fifth.super] at set
  have shown := fifth_bitmap k fifth
  rw [inodeBitmap, fifth.super] at shown
  have bit : bitAt fifthBit 3 = true := (congrArg (fun data => bitAt data 3) shown).symm.trans set
  exact absurd bit (by decide)

theorem fifth_picks (unset : Option InodeId) : PicksFirst firstFree ⟨k, [(1, 3)]⟩ unset 1 := by
  refine .inr ⟨?_, ?_, ?_, ?_⟩
  · rw [fifth.super]
    decide
  · rw [fifth_bitmap k fifth]
    exact fifth_bit_some
  · rw [fifth_bitmap k fifth, fifth_bit_found]
    decide
  · rw [List.forall_mem_singleton]
    exact fun _ => fifth_third_taken k fifth

end

theorem ialloc_gives_twice :
    ¬∀ (getFreePos : Block → UInt64), FindsFree getFreePos →
      ∀ (first last : Allocated) (moves : List (Move Allocated InodeAct)), Run (InodeStep getFreePos) first moves last →
        Distinct first → Throughout Distinct moves last ∧ ∀ move ∈ moves, MoveRight getFreePos move := by
  intro claim
  let k := begun fifthFree 0 Kernel.zero.wild
  have fifth : FifthFree k := fifth_begun _ _ _ fifth_free
  have once := InodeStep.ialloc ⟨fifthFree, []⟩ k 0 Kernel.zero.wild none 1 (some 0) (fifth_ialloc k fifth none)
  have twice := InodeStep.ialloc ⟨k, [(k.inodes 0).named]⟩ k 0 Kernel.zero.wild none 1 (some 0) (fifth_ialloc k fifth none)
  have run := Run.cons _ _ _ _ _ once (.cons _ _ _ _ _ twice (.nil _))
  have distinct := (claim firstFree first_free_finds _ _ _ run List.nodup_nil).1.2
  simp [Distinct, obtained] at distinct

theorem numbers_unique_again :
    ∃ (moves : List (Move Allocated InodeAct)) (last : Allocated), moves.length = 3 ∧
      Run (InodeStep firstFree) ⟨fifthFree, [(1, 3)]⟩ moves last ∧ last.live = [(1, 5), (1, 3)] ∧
      Throughout Distinct moves last ∧ ∀ move ∈ moves, MoveRight firstFree move := by
  let k := begun fifthFree 0 Kernel.zero.wild
  have fifth : FifthFree k := fifth_begun _ _ _ fifth_free
  obtain ⟨t, freed, after⟩ := fifth_ifree k fifth
  let u := begun t 0 Kernel.zero.wild
  have again : FifthFree u := fifth_begun _ _ _ after
  have first := InodeStep.ialloc ⟨fifthFree, [(1, 3)]⟩ k 0 Kernel.zero.wild none 1 (some 0) (fifth_ialloc k fifth none)
  have second : InodeStep firstFree ⟨k, [(k.inodes 0).named, (1, 3)]⟩ _ _ :=
    .ifree _ t 0 Kernel.zero.wild 0 0 freed
  have back : [(k.inodes 0).named, (1, 3)].filter (· ≠ (k.inodes 0).named) = [(1, 3)] := by
    rw [fifth.named]
    decide
  rw [back] at second
  have third := InodeStep.ialloc ⟨t, [(1, 3)]⟩ u 0 Kernel.zero.wild none 1 (some 0) (fifth_ialloc u again none)
  have run := Run.cons _ _ _ _ _ first (.cons _ _ _ _ _ second (.cons _ _ _ _ _ third (.nil _)))
  obtain ⟨distinct, right⟩ := numbers_unique firstFree first_free_finds _ _ _ run (List.nodup_singleton _) (by
    simp only [List.mem_cons, List.not_mem_nil, or_false, forall_eq_or_imp, forall_eq]
    exact ⟨fifth_picks _ fifth_free none, fifth_mark_stays k fifth, fifth_picks t after none⟩)
  exact ⟨_, _, rfl, run, by rw [obtained, again.named], distinct, right⟩

end Yaup
