import Yaup.Kernel
import Yaup.Lib.LittleEndian
import Yaup.Lib.Window

set_option autoImplicit false

namespace Yaup

open Lib

-- struct d_inode lies in memory as iMode (2 bytes), iNlink, iUid, iGid, three bytes of
-- padding, iSize at 8, iAddr from 16, iCtime at 80, iAtime at 88 and iMtime at 96.
def sizeofDInode : Nat := 104

def DInode.bytes (d : DInode) : List UInt8 :=
  leBytes 2 d.iMode.toNat ++ ([d.iNlink, d.iUid, d.iGid] ++ (List.ofFn d.iPad ++ (leBytes 8 d.iSize.toNat ++
    ((List.finRange 8).flatMap (fun j => leBytes 8 (d.iAddr j).toNat) ++
      (leBytes 8 d.iCtime.toNat ++ (leBytes 8 d.iAtime.toNat ++ leBytes 8 d.iMtime.toNat))))))

def DInode.ofBytes (bytes : List UInt8) : DInode where
  iMode := UInt16.ofNat (leField 0 2 bytes)
  iNlink := bytes.getD 2 0
  iUid := bytes.getD 3 0
  iGid := bytes.getD 4 0
  iPad := fun j => bytes.getD (5 + j) 0
  iSize := UInt64.ofNat (leField 8 8 bytes)
  iAddr := fun j => UInt64.ofNat (leField (16 + 8 * j) 8 bytes)
  iCtime := UInt64.ofNat (leField 80 8 bytes)
  iAtime := UInt64.ofNat (leField 88 8 bytes)
  iMtime := UInt64.ofNat (leField 96 8 bytes)

@[simp] theorem dinode_bytes_length (d : DInode) : d.bytes.length = sizeofDInode := by
  simp [DInode.bytes, sizeofDInode, List.length_flatMap]

theorem of_bytes_pad (d : DInode) : (DInode.ofBytes d.bytes).iPad = d.iPad := by
  funext j
  match j with
  | 0 => rfl
  | 1 => rfl
  | 2 => rfl

theorem of_bytes_words (d : DInode) :
    (DInode.ofBytes d.bytes).iMode = d.iMode ∧ (DInode.ofBytes d.bytes).iSize = d.iSize ∧
      (DInode.ofBytes d.bytes).iCtime = d.iCtime ∧ (DInode.ofBytes d.bytes).iAtime = d.iAtime ∧
      (DInode.ofBytes d.bytes).iMtime = d.iMtime := by
  simp [DInode.ofBytes, DInode.bytes, le_field_append, le_field_bytes, le_field_cons, le_field_whole]

theorem of_bytes_addr (d : DInode) : (DInode.ofBytes d.bytes).iAddr = d.iAddr := by
  funext j
  let front := leBytes 2 d.iMode.toNat ++ ([d.iNlink, d.iUid, d.iGid] ++ (List.ofFn d.iPad ++
    leBytes 8 d.iSize.toNat))
  let times := leBytes 8 d.iCtime.toNat ++ (leBytes 8 d.iAtime.toNat ++ leBytes 8 d.iMtime.toNat)
  have split : d.bytes = front ++ ((List.finRange 8).flatMap (fun j => leBytes 8 (d.iAddr j).toNat) ++ times) := by
    simp [DInode.bytes, front, times]
  have sixteen : front.length = 16 := by simp [front]
  have word := le_field_flat_map 8 (fun j => (d.iAddr j).toNat) (List.finRange 8) times j (by simp)
  change UInt64.ofNat (leField (16 + 8 * j) 8 d.bytes) = d.iAddr j
  rw [split, le_field_append _ _ _ _ (by rw [sixteen]; exact Nat.le_add_right 16 _), sixteen,
    Nat.add_sub_cancel_left, word]
  simp

theorem of_bytes_bytes (d : DInode) : DInode.ofBytes d.bytes = d := by
  obtain ⟨mode, size, ctime, atime, mtime⟩ := of_bytes_words d
  exact DInode.ext mode rfl rfl rfl (of_bytes_pad d) size (of_bytes_addr d) ctime atime mtime

def inoPerBlk (size : Nat) : Nat := blkSz / size

def blkAddr (size : Nat) (itableBase : Blk) (ino : Ino) : Blk :=
  itableBase + UInt64.ofNat (ino.toNat / inoPerBlk size)

def blkOff (size : Nat) (ino : Ino) : Nat := ino.toNat % inoPerBlk size

def loadRecord (size : Nat) (data : Block) (past : Nat → UInt8) (ino : Ino) : List UInt8 :=
  window data past (blkOff size ino) size

def storeRecord (size : Nat) (data : Block) (ino : Ino) (bytes : List UInt8) : Block :=
  overlay data (blkOff size ino) bytes

def clearRecord (size : Nat) (data : Block) (ino : Ino) : Block :=
  storeRecord size data ino (List.replicate size 0)

def RangesApart (size : Nat) (itableBase : Blk) (m n : Ino) : Prop :=
  blkOff size m + size ≤ blkSz ∧ blkOff size n + size ≤ blkSz ∧
    (blkAddr size itableBase m = blkAddr size itableBase n →
      blkOff size m + size ≤ blkOff size n ∨ blkOff size n + size ≤ blkOff size m)

def tableRecord (size : Nat) (itableBase : Blk) (table : Blk → Block) (past : Nat → UInt8) (m : Ino) : List UInt8 :=
  loadRecord size (table (blkAddr size itableBase m)) past m

def tableStore (size : Nat) (itableBase : Blk) (table : Blk → Block) (n : Ino) (bytes : List UInt8) : Blk → Block :=
  Function.update table (blkAddr size itableBase n) (storeRecord size (table (blkAddr size itableBase n)) n bytes)

def tableClear (size : Nat) (itableBase : Blk) (table : Blk → Block) (n : Ino) : Blk → Block :=
  Function.update table (blkAddr size itableBase n) (clearRecord size (table (blkAddr size itableBase n)) n)

def StoreKeeps (size : Nat) (itableBase : Blk) (m n : Ino) : Prop :=
  ∀ (table : Blk → Block) (past : Nat → UInt8) (bytes : List UInt8), bytes.length = size →
    tableRecord size itableBase (tableStore size itableBase table n bytes) past m =
      tableRecord size itableBase table past m

def ClearKeeps (size : Nat) (itableBase : Blk) (m n : Ino) : Prop :=
  ∀ (table : Blk → Block) (past : Nat → UInt8),
    tableRecord size itableBase (tableClear size itableBase table n) past m = tableRecord size itableBase table past m

-- Two numbers fall in different blocks, or far enough apart in one: BLK_OFF counts
-- records and b_data bytes.
def IndicesApart (size : Nat) (m n : Ino) : Prop :=
  m.toNat / inoPerBlk size ≠ n.toNat / inoPerBlk size ∨
    m.toNat % inoPerBlk size + size ≤ n.toNat % inoPerBlk size ∨
    n.toNat % inoPerBlk size + size ≤ m.toNat % inoPerBlk size

theorem blk_addr_same (size : Nat) (itableBase : Blk) (m n : Ino) :
    blkAddr size itableBase m = blkAddr size itableBase n ↔
      m.toNat / inoPerBlk size = n.toNat / inoPerBlk size := by
  have small : ∀ ino : Ino, ino.toNat / inoPerBlk size < 2 ^ 64 := fun ino =>
    Nat.lt_of_le_of_lt (Nat.div_le_self _ _) ino.toNat_lt
  constructor
  · intro same
    have quotients := congrArg UInt64.toNat ((UInt64.add_right_inj itableBase).mp same)
    rwa [UInt64.toNat_ofNat_of_lt' (small m), UInt64.toNat_ofNat_of_lt' (small n)] at quotients
  · intro same
    rw [blkAddr, blkAddr, same]

theorem blk_off_inside (size : Nat) (large : 1 < size) (fits : size ≤ blkSz) (ino : Ino) :
    blkOff size ino + size ≤ blkSz := by
  have some_fit : 0 < inoPerBlk size := Nat.div_pos fits (by omega)
  have index := Nat.mod_lt ino.toNat some_fit
  have total : inoPerBlk size * size ≤ blkSz := Nat.div_mul_le_self blkSz size
  have each : inoPerBlk size + size ≤ inoPerBlk size * size + 1 := by
    obtain ⟨p, records⟩ : ∃ p, inoPerBlk size = p + 1 := ⟨inoPerBlk size - 1, by omega⟩
    have rest : p ≤ p * size := Nat.le_mul_of_pos_right p (by omega)
    rw [records, Nat.add_one_mul]
    omega
  change ino.toNat % inoPerBlk size + size ≤ blkSz
  omega

theorem indices_apart (size : Nat) (itableBase : Blk) (m n : Ino) (apart : IndicesApart size m n)
    (same : blkAddr size itableBase m = blkAddr size itableBase n) :
    blkOff size m + size ≤ blkOff size n ∨ blkOff size n + size ≤ blkOff size m := by
  rcases apart with blocks | offsets
  · exact absurd ((blk_addr_same size itableBase m n).mp same) blocks
  · exact offsets

theorem apart_store_keeps (size : Nat) (itableBase : Blk) (m n : Ino) (apart : IndicesApart size m n) :
    StoreKeeps size itableBase m n := by
  intro table past bytes width
  by_cases same : blkAddr size itableBase m = blkAddr size itableBase n
  · have offsets := indices_apart size itableBase m n apart same
    rw [tableRecord, tableStore, same, Function.update_self, loadRecord, storeRecord,
      window_overlay_apart _ _ _ _ _ _ (by rw [width]; exact offsets), tableRecord, same, loadRecord]
  · rw [tableRecord, tableStore, Function.update_of_ne same, tableRecord]

theorem store_keeps_clear (size : Nat) (itableBase : Blk) (m n : Ino) (kept : StoreKeeps size itableBase m n) :
    ClearKeeps size itableBase m n := fun table past =>
  kept table past (List.replicate size 0) List.length_replicate

theorem clear_keeps_apart (size : Nat) (large : 1 < size) (fits : size ≤ blkSz) (itableBase : Blk) (m n : Ino)
    (kept : ClearKeeps size itableBase m n) : IndicesApart size m n := by
  by_contra near
  simp only [IndicesApart, not_or, Decidable.not_not] at near
  obtain ⟨quotient, after, before⟩ := near
  have same := (blk_addr_same size itableBase m n).mpr quotient
  have bound := blk_off_inside size large fits m
  have unchanged := kept (fun _ _ => 1) (fun _ => 0)
  rw [tableRecord, tableClear, same, Function.update_self] at unchanged
  revert unchanged
  let shared := max (blkOff size m) (blkOff size n)
  have bounds : blkOff size m ≤ shared ∧ shared < blkOff size m + size ∧ blkOff size n ≤ shared ∧
      shared < blkOff size n + size := by
    simp only [shared, blkOff]
    omega
  exact window_overlay_clash (fun _ => 1) (fun _ => 0) (blkOff size m) size (blkOff size n) size 0 shared
    bounds.1 bounds.2.1 bounds.2.2.1 bounds.2.2.2 (by omega) (by decide)

theorem ranges_apart_iff (size : Nat) (large : 1 < size) (itableBase : Blk) (m n : Ino) :
    RangesApart size itableBase m n ↔ size ≤ blkSz ∧ IndicesApart size m n := by
  constructor
  · rintro ⟨inside, -, offsets⟩
    refine ⟨by omega, ?_⟩
    by_cases quotient : m.toNat / inoPerBlk size = n.toNat / inoPerBlk size
    · exact .inr (offsets ((blk_addr_same size itableBase m n).mpr quotient))
    · exact .inl quotient
  · rintro ⟨fits, apart⟩
    exact ⟨blk_off_inside size large fits m, blk_off_inside size large fits n,
      indices_apart size itableBase m n apart⟩

theorem records_apart_iff (size : Nat) (large : 1 < size) (superblock : Dev → Superblock) (dev : Dev) (m n : Ino) :
    (RangesApart size (superblock dev).sInoTable m n ↔ size ≤ blkSz ∧ IndicesApart size m n) ∧
      (size ≤ blkSz →
        (StoreKeeps size (superblock dev).sInoTable m n ↔ IndicesApart size m n) ∧
        (ClearKeeps size (superblock dev).sInoTable m n ↔ IndicesApart size m n)) := by
  refine ⟨ranges_apart_iff size large _ m n, ?_⟩
  intro fits
  have cleared := clear_keeps_apart size large fits (superblock dev).sInoTable m n
  have stored := apart_store_keeps size (superblock dev).sInoTable m n
  have weaker := store_keeps_clear size (superblock dev).sInoTable m n
  exact ⟨⟨fun kept => cleared (weaker kept), stored⟩, cleared, fun apart => weaker (stored apart)⟩

theorem records_apart_next_block :
    1 < sizeofDInode ∧ (0 : Ino) ≠ 39 ∧ RangesApart sizeofDInode (Kernel.zero.superblock 1).sInoTable 0 39 ∧
      StoreKeeps sizeofDInode (Kernel.zero.superblock 1).sInoTable 0 39 := by
  have large : 1 < sizeofDInode := by decide
  have fits : sizeofDInode ≤ blkSz := by decide
  have apart : IndicesApart sizeofDInode 0 39 := .inl (by decide)
  obtain ⟨ranges, stores⟩ := records_apart_iff sizeofDInode large Kernel.zero.superblock 1 0 39
  exact ⟨large, by decide, ranges.mpr ⟨fits, apart⟩, (stores fits).1.mpr apart⟩

theorem records_overlap :
    ¬ ∀ (superblock : Dev → Superblock) (dev : Dev) (m n : Ino), m ≠ n →
      RangesApart sizeofDInode (superblock dev).sInoTable m n ∧
      StoreKeeps sizeofDInode (superblock dev).sInoTable m n ∧
      ClearKeeps sizeofDInode (superblock dev).sInoTable m n := by
  intro claim
  obtain ⟨⟨-, -, offsets⟩, -, -⟩ := claim Kernel.zero.superblock 1 0 1 (by decide)
  have apart := offsets ((blk_addr_same sizeofDInode _ 0 1).mpr (by decide))
  revert apart
  decide

end Yaup
