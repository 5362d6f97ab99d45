import Yaup.Inode

set_option autoImplicit false

namespace Yaup

open Lib

-- The on-disk fields, without the padding between them.
def DInode.fields (d : DInode) : DInode := { d with iPad := fun _ => 0 }

def diskRecord (k : Kernel) (dev : Dev) (num : Ino) : DInode :=
  DInode.ofBytes (loadRecord sizeofDInode (k.disk (dev, tableBlk k dev num)) (fun _ => 0) num)

-- A later state, in which the inode's cache slot and the buffer of its table block serve
-- something else, and nobody wrote that block to the disk in between.
structure Recycled (t u : Kernel) (dev : Dev) (num : Ino) : Prop where
  table : u.superblock = t.superblock
  disk : u.disk (dev, tableBlk t dev num) = t.disk (dev, tableBlk t dev num)
  slot : findInode u dev num = none
  buffer : findBlock u dev (tableBlk t dev num) = none

def Reloads (t : Kernel) (x : Inode) : Prop :=
  ∀ (u v : Kernel) (j : InodeId), Recycled t u x.iDev x.iNum → (iget x.iDev x.iNum).run u = .ok j v →
    (v.inodes j).toDInode.fields = x.toDInode.fields

theorem load_record_past (data : Block) (past other : Nat → UInt8) (num : Ino) :
    loadRecord sizeofDInode data past num = loadRecord sizeofDInode data other num :=
  window_inside data past other _ _ (blk_off_inside sizeofDInode (by decide) (by decide) num)

theorem load_stored_record (data : Block) (past : Nat → UInt8) (num : Ino) (d : DInode) :
    DInode.ofBytes (loadRecord sizeofDInode (storeRecord sizeofDInode data num d.bytes) past num) = d := by
  have inside := blk_off_inside sizeofDInode (by decide) (by decide) num
  have stored := window_overlay data past (blkOff sizeofDInode num) d.bytes
    (by rw [dinode_bytes_length]; exact inside)
  rw [dinode_bytes_length] at stored
  rw [loadRecord, storeRecord, stored, of_bytes_bytes]

theorem loaded_inode_slots (s : Kernel) (i : InodeId) (b : BufId) (dev : Dev) (num : Ino) :
    (s.loadedInode i b dev num).inodes = Function.update s.inodes i ((s.inodes i).loaded dev num
      (loadRecord sizeofDInode (s.blocks b).bData (s.wild.pastBlock b) num)) :=
  (released_frame _ b).inodes

theorem iget_from_disk (u v : Kernel) (dev : Dev) (num : Ino) (j : InodeId) (slot : findInode u dev num = none)
    (buffer : findBlock u dev (tableBlk u dev num) = none) (done : (iget dev num).run u = .ok j v) :
    (v.inodes j).toDInode = diskRecord u dev num := by
  obtain ⟨-, ⟨hit, -⟩ | ⟨-, -, b, s, read, rfl⟩⟩ := iget_cases u v dev num j done
  · rw [slot] at hit
    cases hit
  · have elsewhere : findBlock (u.lock .icache) dev (tableBlk u dev num) = none := buffer
    rw [loaded_inode_slots, Function.update_self]
    obtain ⟨-, ⟨hit, -⟩ | ⟨hit, -⟩ | ⟨-, -, rfl⟩⟩ := bread_cases _ s dev _ b read
    · rw [elsewhere] at hit
      cases hit
    · rw [elsewhere] at hit
      cases hit
    · simp only [Inode.loaded, Buffer.fill, Kernel.unlock_blocks, Kernel.setBlock_blocks, Function.update_self,
        Kernel.lock_disk]
      exact congrArg DInode.ofBytes (load_record_past _ _ _ num)

theorem recycled_table (t u : Kernel) (dev : Dev) (num : Ino) (table : u.superblock = t.superblock) :
    tableBlk u dev num = tableBlk t dev num := by
  rw [tableBlk, tableBlk, table]

def Kernel.emptied (t : Kernel) (dev : Dev) (num : Ino) : Kernel :=
  { Kernel.zero with
    disk := t.disk
    superblock := t.superblock
    blocks := fun _ => { zeroBuffer with bDev := dev, bBlk := tableBlk t dev num + 1 }
    inodes := fun i => { Kernel.zero.inodes i with iDev := dev, iNum := num + 1 } }

theorem next_ne (n : UInt64) : n + 1 ≠ n := by
  intro same
  have one : (1 : UInt64) = 0 := (UInt64.add_right_inj n).mp (by rw [same, UInt64.add_zero])
  revert one
  decide

theorem emptied_recycled (t : Kernel) (dev : Dev) (num : Ino) : Recycled t (t.emptied dev num) dev num where
  table := rfl
  disk := rfl
  slot := (find_inode_none _ dev num).mpr fun _ same => next_ne num same.2
  buffer := (find_block_none _ dev _).mpr fun _ same => next_ne _ (Prod.mk.inj same).2

theorem emptied_iget (t : Kernel) (dev : Dev) (num : Ino) :
    ∃ v, (iget dev num).run (t.emptied dev num) = .ok 0 v := by
  have gone := emptied_recycled t dev num
  have first_inode : freeInode (t.emptied dev num) = some 0 := (free_inode_some _ 0).mpr ⟨rfl, by simp⟩
  have first_block : freeBlock ((t.emptied dev num).lock .icache) = some 0 :=
    (free_block_some _ 0).mpr ⟨rfl, by simp⟩
  have read := bread_recycle ((t.emptied dev num).lock .icache) dev (tableBlk t dev num) 0 (by
    simp [Kernel.emptied, Kernel.zero, freeLocks]) gone.buffer first_block
  have done := iget_missed _ dev num 0 rfl gone.slot first_inode
  rw [recycled_table t (t.emptied dev num) dev num rfl, read] at done
  exact ⟨_, done⟩

theorem reloads_disk_record (t : Kernel) (x : Inode) :
    Reloads t x ↔ (diskRecord t x.iDev x.iNum).fields = x.toDInode.fields := by
  constructor
  · intro reloads
    obtain ⟨v, done⟩ := emptied_iget t x.iDev x.iNum
    have gone := emptied_recycled t x.iDev x.iNum
    rw [← reloads _ v 0 gone done, iget_from_disk _ v x.iDev x.iNum 0 gone.slot gone.buffer done]
    rfl
  · intro same u v j gone done
    have table := recycled_table t u x.iDev x.iNum gone.table
    rw [← same, iget_from_disk u v x.iDev x.iNum j gone.slot (by rw [table]; exact gone.buffer) done,
      diskRecord, diskRecord, table, gone.disk]

theorem bwrite_disk (k t : Kernel) (b : BufId) (r : Int) (done : (bwrite b).run k = .ok r t) :
    t.disk = if (k.blocks b).bDirty then Function.update k.disk (k.blocks b).key (k.blocks b).bData else k.disk := by
  obtain ⟨-, -, ⟨clean, rfl⟩ | ⟨dirty, rfl⟩⟩ := bwrite_cases k t b r done
  · simp [clean]
  · simp [dirty, Kernel.wroteBack]

theorem iput_disk_record (k t : Kernel) (i : InodeId) (r : Int) (done : (iput i).run k = .ok r t)
    (flagged : (k.inodes i).iFlag &&& idirt ≠ 0) :
    (DirtyHit k (k.inodes i).iDev (tableBlk k (k.inodes i).iDev (k.inodes i).iNum) →
      diskRecord t (k.inodes i).iDev (k.inodes i).iNum = (k.inodes i).toDInode) ∧
    (¬DirtyHit k (k.inodes i).iDev (tableBlk k (k.inodes i).iDev (k.inodes i).iNum) →
      diskRecord t (k.inodes i).iDev (k.inodes i).iNum = diskRecord k (k.inodes i).iDev (k.inodes i).iNum) := by
  obtain ⟨-, -, ⟨clean, -⟩ | ⟨-, b, s, q, w, read, wrote, rfl⟩⟩ := iput_cases k t i r done
  · exact absurd clean flagged
  · obtain ⟨disk, key, dirty⟩ := bread_handed _ s _ _ b read
    have frame := bread_frame _ s _ _ b read
    have inode : s.inodes i = k.inodes i := congrFun frame.inodes i
    have table : w.superblock = k.superblock :=
      (bwrite_frame _ w b q wrote).superblock.trans frame.superblock
    have written := bwrite_disk _ w b q wrote
    have stored_key : ((s.storeInode b i).blocks b).key = (s.blocks b).key := by
      simp [Kernel.storeInode, Buffer.key]
    have stored_dirty : ((s.storeInode b i).blocks b).bDirty = (s.blocks b).bDirty := by
      simp [Kernel.storeInode]
    have stored_data : ((s.storeInode b i).blocks b).bData = storeRecord sizeofDInode (s.blocks b).bData
        (k.inodes i).iNum (k.inodes i).toDInode.bytes := by
      simp [Kernel.storeInode, inode]
    rw [stored_key, stored_dirty, stored_data, key] at written
    have record : diskRecord (w.wroteInode i) (k.inodes i).iDev (k.inodes i).iNum = DInode.ofBytes
        (loadRecord sizeofDInode (w.disk ((k.inodes i).iDev, tableBlk k (k.inodes i).iDev (k.inodes i).iNum))
          (fun _ => 0) (k.inodes i).iNum) := by
      rw [diskRecord, recycled_table k (w.wroteInode i) _ _ table]
      rfl
    rw [record]
    constructor
    · intro hit
      rw [written, if_pos (dirty.mpr hit), Function.update_self, load_stored_record]
    · intro miss
      rw [written, if_neg (mt dirty.mp miss), show (s.storeInode b i).disk = k.disk from disk]
      rfl

theorem iput_flag (k t : Kernel) (i : InodeId) (r : Int) (done : (iput i).run k = .ok r t)
    (flagged : (k.inodes i).iFlag &&& idirt ≠ 0) : (t.inodes i).iFlag = (k.inodes i).iFlag &&& notIdirt := by
  obtain ⟨-, -, ⟨clean, -⟩ | ⟨-, b, s, q, w, read, wrote, rfl⟩⟩ := iput_cases k t i r done
  · exact absurd clean flagged
  · have inodes : w.inodes = k.inodes :=
      (bwrite_frame _ w b q wrote).inodes.trans (bread_frame _ s _ _ b read).inodes
    simp [Kernel.wroteInode, Inode.written, inodes]

-- iput of a dirty inode: the record reaches the disk just where its table block was in a
-- buffer already marked dirty (or has nothing to change), and every flag is cleared.
theorem iput_persists_iff (k t : Kernel) (i : InodeId) (r : Int) (done : (iput i).run k = .ok r t)
    (flagged : (k.inodes i).iFlag &&& idirt ≠ 0) :
    (Reloads t (k.inodes i) ↔
      DirtyHit k (k.inodes i).iDev (tableBlk k (k.inodes i).iDev (k.inodes i).iNum) ∨
        (diskRecord k (k.inodes i).iDev (k.inodes i).iNum).fields = (k.inodes i).toDInode.fields) ∧
    ((t.inodes i).iFlag = (k.inodes i).iFlag &&& ~~~idirt ↔ (k.inodes i).iFlag &&& ~~~idirt = 0) := by
  obtain ⟨hit_record, miss_record⟩ := iput_disk_record k t i r done flagged
  constructor
  · rw [reloads_disk_record]
    by_cases hit : DirtyHit k (k.inodes i).iDev (tableBlk k (k.inodes i).iDev (k.inodes i).iNum)
    · rw [hit_record hit]
      simp [hit]
    · rw [miss_record hit]
      simp [hit]
  · rw [iput_flag k t i r done flagged, show notIdirt = 0 by decide, UInt8.and_zero, eq_comm]

def grownInode : Inode := { Kernel.zero.inodes 0 with iSize := 7, iDev := 1, iFlag := idirt, iCount := 1 }

def grown (x : Buffer) : Kernel := (twoSlots 0 x zeroBuffer (fun _ => zeroBlock) freeLocks).setInode 0 grownInode

theorem grown_table (x : Buffer) :
    tableBlk (grown x) ((grown x).inodes 0).iDev ((grown x).inodes 0).iNum = 0 := by
  simp [tableBlk, blkAddr, grown, Kernel.zero, grownInode]

theorem grown_inode (x : Buffer) : (grown x).inodes 0 = grownInode := by simp [grown]

def dirtyTable : Buffer := ⟨zeroBlock, 1, 0, true, 1⟩

theorem dirty_table_hit : findBlock (grown dirtyTable) 1 0 = some 0 :=
  two_slots_find_first 0 dirtyTable zeroBuffer (fun _ => zeroBlock) freeLocks 1 0 rfl

theorem dirty_table_iput : ∃ t, (iput 0).run (grown dirtyTable) = .ok 0 t := by
  have flagged : ((grown dirtyTable).inodes 0).iFlag &&& idirt ≠ 0 := by decide
  have read := bread_held ((grown dirtyTable).lock (.ino 0)) 1 0 0 (by simp [grown, freeLocks]) dirty_table_hit (by decide)
  have wrote := bwrite_run (((grown dirtyTable).lock (.ino 0)).storeInode 0 0) 0
  rw [if_pos (by simp [grown, freeLocks, Kernel.storeInode])] at wrote
  exact ⟨_, iput_stored (grown dirtyTable) _ _ 0 0 0 rfl flagged (by rw [grown_table]; exact read) wrote⟩

theorem iput_persists_dirty_buffer :
    ∃ k t, (iput 0).run k = .ok 0 t ∧ (k.inodes 0).iFlag &&& idirt ≠ 0 ∧ Reloads t (k.inodes 0) ∧
      (t.inodes 0).iFlag = (k.inodes 0).iFlag &&& ~~~idirt := by
  have flagged : ((grown dirtyTable).inodes 0).iFlag &&& idirt ≠ 0 := by decide
  obtain ⟨t, done⟩ := dirty_table_iput
  have persists := iput_persists_iff _ _ 0 0 done flagged
  rw [grown_table] at persists
  exact ⟨_, _, done, flagged, persists.1.mpr (.inl ⟨0, dirty_table_hit, rfl⟩), persists.2.mpr (by decide)⟩

theorem iput_loses_record :
    ¬ ∀ (k t : Kernel) (i : InodeId) (r : Int), (iput i).run k = .ok r t → (k.inodes i).iFlag &&& idirt ≠ 0 →
      Reloads t (k.inodes i) ∧ (t.inodes i).iFlag = (k.inodes i).iFlag &&& ~~~idirt := by
  intro claim
  let k := grown zeroBuffer
  have flagged : (k.inodes 0).iFlag &&& idirt ≠ 0 := by decide
  have miss : findBlock k 1 0 = none :=
    two_slots_find_none 0 zeroBuffer zeroBuffer (fun _ => zeroBlock) freeLocks 1 0 (by decide) (by decide) (by decide)
  have unused : freeBlock k = some 0 :=
    two_slots_free_first 0 zeroBuffer zeroBuffer (fun _ => zeroBlock) freeLocks rfl
  obtain ⟨s, read, unlocked⟩ : ∃ s, (bread 1 0).run (k.lock (.ino 0)) = .ok 0 s ∧ s.locks (.buf 0) = none :=
    ⟨_, bread_recycle _ 1 0 0 (by simp [k, grown, freeLocks]) miss unused, by simp⟩
  have wrote := bwrite_run (s.storeInode 0 0) 0
  rw [if_pos (by simpa [Kernel.storeInode] using unlocked)] at wrote
  have done := iput_stored k s _ 0 0 0 rfl flagged (by rw [grown_table]; exact read) wrote
  have absent : ¬DirtyHit k (k.inodes 0).iDev (tableBlk k (k.inodes 0).iDev (k.inodes 0).iNum) := by
    rintro ⟨b, hit, -⟩
    rw [grown_table, grown_inode] at hit
    have impossible := hit.symm.trans miss
    cases impossible
  have reloads := (claim _ _ 0 0 done flagged).1
  rw [reloads_disk_record, (iput_disk_record _ _ 0 0 done flagged).2 absent] at reloads
  have size := congrArg DInode.iSize reloads
  revert size
  decide

end Yaup
