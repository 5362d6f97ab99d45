import Yaup.OpenClose
import Yaup.ReadWrite

set_option autoImplicit false

namespace Yaup

open Lib

structure OpenRegular (k : Kernel) (fd : Int) (f : FileId) (i : InodeId) : Prop where
  named : (k.procs k.current).filp fd = some (some f)
  inode : (k.files f).fInode = some i
  regular : (k.inodes i).iMode &&& ifmt = ifreg
  size : (k.inodes i).iSize.toNat ≤ 8 * blkSz
  cursor : (k.files f).fOff ≤ (k.inodes i).iSize
  apart : ∀ m n, m * blkSz < (k.inodes i).iSize.toNat → n * blkSz < (k.inodes i).iSize.toNat →
    (k.inodes i).addr m = (k.inodes i).addr n → m = n

structure CanRead (k : Kernel) : Prop where
  free : k.locks (.proc k.current) = none
  table : k.locks .buffer = none
  first : LiveFirst k
  room : freeBlock k ≠ none

def fileByte (k : Kernel) (i : InodeId) (n : Nat) : UInt8 :=
  k.contents ((k.inodes i).iDev, (k.inodes i).addr (n / blkSz)) (Fin.ofNat blkSz n)

def Kernel.moveTo (k : Kernel) (f : FileId) (off : UInt64) : Kernel :=
  k.setFile f { k.files f with fOff := off }

-- What a write of `data` at the cursor should have done to the file, where `blocks` are
-- the blocks it got from balloc and `unset` is for the read that follows.
structure Written (unset : Unset) (fd : Int) (f : FileId) (i : InodeId) (data : Bytes) (blocks : List Blk)
    (k t : Kernel) : Prop where
  reads : ∃ u, (sysRead unset fd (UInt64.ofNat data.length)).run (t.moveTo f (k.files f).fOff) =
    .ok ((data.length : Int), data) u
  others : ∀ n < (k.inodes i).iSize.toNat,
    n < (k.files f).fOff.toNat ∨ (k.files f).fOff.toNat + data.length ≤ n → fileByte t i n = fileByte k i n
  size : (t.inodes i).iSize.toNat = max (k.inodes i).iSize.toNat ((k.files f).fOff.toNat + data.length)
  recorded : ∀ blk ∈ blocks, ∃ n : Fin 8, (k.inodes i).iSize.toNat ≤ n.val * blkSz ∧ (t.inodes i).iAddr n = blk
  reused : ∀ n : Fin 8, n.val * blkSz < (k.inodes i).iSize.toNat → (t.inodes i).iAddr n = (k.inodes i).iAddr n

theorem clamp_keeps_iff (off size n : UInt64) : (if off + n ≥ size then size - off else n) = n ↔ off + n ≤ size := by
  by_cases past : off + n ≥ size
  · rw [if_pos past]
    constructor
    · intro same
      rw [← same, UInt64.add_comm, UInt64.sub_add_cancel]
      exact UInt64.le_refl size
    · intro low
      have equal : off + n = size := UInt64.le_antisymm low past
      rw [← equal, UInt64.add_comm, UInt64.add_sub_cancel]
  · rw [if_neg past]
    exact iff_of_true rfl (UInt64.le_of_lt (UInt64.not_le.mp past))

theorem block_addr_low (x : Inode) (n : Nat) (low : n ≤ 8) : blockAddr x n = some (x.addr n) := by
  have addr : (n : Int).bmod (2 ^ 32) = n := Int.bmod_eq_of_le (by omega) (by omega)
  have direct : ¬ (n : Int) > ndirect := by
    have bound : (ndirect : Int) = 9 := rfl
    omega
  have positive : ¬ (n : Int) < 0 := Int.not_lt.mpr (Int.natCast_nonneg n)
  unfold blockAddr
  rw [addr]
  dsimp only
  rw [if_neg direct, if_neg positive, Int.toNat_natCast]

theorem baddr_within (x : Inode) (off : UInt64) (within : off.toNat ≤ 8 * blkSz) :
    baddr x off = some (x.addr (off.toNat / blkSz)) :=
  block_addr_low x _ (Nat.div_le_of_le_mul (by omega))

theorem bread_ready (k : Kernel) (dev : Dev) (blk : Blk) (table : k.locks .buffer = none) (room : freeBlock k ≠ none) :
    ∃ b t, (bread dev blk).run k = .ok b t := (bread_returns_iff k dev blk).mpr ⟨table, .inr room⟩

def Kernel.cursorKey (k : Kernel) (f : FileId) (i : InodeId) : Dev × Blk :=
  ((k.inodes i).iDev, (k.inodes i).addr ((k.files f).fOff.toNat / blkSz))

theorem place_val (x : File) : x.place.val = x.fOff.toNat % blkSz := rfl

section
variable (k : Kernel) (fd : Int) (f : FileId) (i : InodeId)

theorem file_key_opened (opened : OpenRegular k fd f i) : fileKey k f = some (k.cursorKey f i) := by
  have cursor := UInt64.le_iff_toNat_le.mp opened.cursor
  have addr := baddr_within (k.inodes i) (k.files f).fOff (cursor.trans opened.size)
  rw [fileKey, opened.inode, Option.bind_some, addr, Option.map_some, Kernel.cursorKey]

theorem sys_write_within (balloc : Dev → Kern BufId) (unset : Unset) (data : Bytes) (opened : OpenRegular k fd f i)
    (ready : CanRead k) (may : MayOpen k unset iwusr iwgrp iwoth)
    (within : (k.files f).fOff.toNat % blkSz + data.length < blkSz) :
    ∃ b s, (bread (k.cursorKey f i).1 (k.cursorKey f i).2).run k = .ok b s ∧
      (sysWrite balloc unset fd data).run k = .ok ((data.length : Int), [])
        ((s.setBlock b ((s.blocks b).put ((k.files f).fOff.toNat % blkSz) data)).setFile f
          ((k.files f).advance data.length)) := by
  obtain ⟨b, s, shown⟩ := bread_ready k (k.cursorKey f i).1 (k.cursorKey f i).2 ready.table ready.room
  have files := (bread_frame k s _ _ b shown).files
  have head := open_file_run k unset fd iwusr iwgrp iwoth "sys_write: bad fd"
    "sys_read: cannot write file (permission denied)" f ready.free opened.named may
  have block : (fileBlock f).run k = .ok b s := by
    rw [file_block_run, file_key_opened k fd f i opened, breadKey]
    exact shown
  have loop := write_loop_within balloc f data b (s.files f).place s (by rw [place_val, files]; exact within)
  rw [place_val, files] at loop
  refine ⟨b, s, shown, ?_⟩
  rw [sys_write_run]
  simp only [EStateM.run_bind, head, block, EStateM.run_get, files, loop, EStateM.run_pure]

theorem sys_read_held (unset : Unset) (off size n : UInt64) (dev : Dev) (blk : Blk) (b : BufId)
    (free : k.locks (.proc k.current) = none) (table : k.locks .buffer = none)
    (named : (k.procs k.current).filp fd = some (some f)) (may : MayOpen k unset irusr irgrp iroth)
    (clamp : unset.clamp = some (off, size)) (keeps : off + n ≤ size) (key : fileKey k f = some (dev, blk))
    (hit : findBlock k dev blk = some b) (used : (k.blocks b).bCount ≠ 0)
    (within : (k.files f).place.val + n.toNat < blkSz) :
    (sysRead unset fd n).run k = .ok ((n.toNat : Int),
        window (k.blocks b).bData (fun _ => 0) (k.files f).place.val n.toNat)
      (k.setFile f ((k.files f).advance n.toNat)) := by
  have head := open_file_run k unset fd irusr irgrp iroth "sys_read: invalid fd"
    "sys_read: cannot read file (permission denied)" f free named may
  have block : (fileBlock f).run k = .ok b k := by
    rw [file_block_run, key, breadKey]
    exact bread_held k dev blk b table hit used
  have loop := read_loop_within f n.toNat b (k.files f).place k (fun _ => 0) within
  rw [sys_read_run unset off size fd n k clamp, (clamp_keeps_iff off size n).mpr keeps]
  simp only [EStateM.run_bind, head, block, EStateM.run_get, loop, EStateM.run_pure, window_length]

theorem written_contents (s : Kernel) (b : BufId) (data : Bytes) (first : LiveFirst k)
    (shown : (bread (k.cursorKey f i).1 (k.cursorKey f i).2).run k = .ok b s) :
    LiveFirst (s.setBlock b ((s.blocks b).put ((k.files f).fOff.toNat % blkSz) data)) ∧
      (s.setBlock b ((s.blocks b).put ((k.files f).fOff.toNat % blkSz) data)).contents =
        Function.update k.contents (k.cursorKey f i)
          (overlay (k.contents (k.cursorKey f i)) ((k.files f).fOff.toNat % blkSz) data) := by
  have key := (bread_handed k s _ _ b shown).2.1
  have used := bread_counted k s _ _ b shown
  obtain ⟨firstAfter, same, loaded⟩ := bread_contents k s first _ _ b shown
  have stored := store_contents s firstAfter b ((s.blocks b).put ((k.files f).fOff.toNat % blkSz) data) used rfl used
  rw [same, key, put_data, loaded] at stored
  exact stored

theorem file_byte_outside (t : Kernel) (data : Bytes) (n : Nat) (opened : OpenRegular k fd f i)
    (inodes : t.inodes = k.inodes) (fits : (k.files f).fOff.toNat + data.length ≤ (k.inodes i).iSize.toNat)
    (within : (k.files f).fOff.toNat % blkSz + data.length < blkSz)
    (contents : t.contents = Function.update k.contents (k.cursorKey f i)
      (overlay (k.contents (k.cursorKey f i)) ((k.files f).fOff.toNat % blkSz) data))
    (inside : n < (k.inodes i).iSize.toNat)
    (outside : n < (k.files f).fOff.toNat ∨ (k.files f).fOff.toNat + data.length ≤ n) :
    fileByte t i n = fileByte k i n := by
  rw [fileByte, fileByte, contents, inodes]
  cases data with
  | nil => rw [overlay_nil, Function.update_eq_self]
  | cons byte rest =>
      by_cases same : n / blkSz = (k.files f).fOff.toNat / blkSz
      · have here := Nat.div_add_mod n blkSz
        have cursor := Nat.div_add_mod (k.files f).fOff.toNat blkSz
        rw [same] at here
        rw [same, Kernel.cursorKey, Function.update_self, overlay_outside]
        rw [Fin.val_ofNat]
        omega
      · have apart : ((k.inodes i).iDev, (k.inodes i).addr (n / blkSz)) ≠ k.cursorKey f i := by
          intro clash
          have addr := (Prod.ext_iff.mp clash).2
          refine same (opened.apart _ _ ?_ ?_ addr)
          · exact (Nat.div_mul_le_self n blkSz).trans_lt inside
          · have below := Nat.div_mul_le_self (k.files f).fOff.toNat blkSz
            rw [List.length_cons] at fits
            omega
        rw [Function.update_of_ne apart]

def Kernel.wrote (k s : Kernel) (f : FileId) (b : BufId) (data : Bytes) : Kernel :=
  (s.setBlock b ((s.blocks b).put ((k.files f).fOff.toNat % blkSz) data)).setFile f ((k.files f).advance data.length)

theorem may_open_same (t : Kernel) (unset : Unset) (usr grp oth : UInt16) (current : t.current = k.current)
    (procs : t.procs = k.procs) : MayOpen t unset usr grp oth ↔ MayOpen k unset usr grp oth := by
  rw [MayOpen, MayOpen, current, procs]

structure BackAtCursor (k t : Kernel) (f : FileId) (b : BufId) (x : Buffer) : Prop where
  current : t.current = k.current
  inodes : t.inodes = k.inodes
  procs : t.procs = k.procs
  locks : ∀ l, (∀ c, l ≠ .buf c) → t.locks l = k.locks l
  opened : (t.files f).fInode = (k.files f).fInode
  cursor : (t.files f).fOff = (k.files f).fOff
  block : t.blocks b = x
  first : LiveFirst t

theorem wrote_back_at_cursor (s : Kernel) (b : BufId) (data : Bytes) (first : LiveFirst k)
    (shown : (bread (k.cursorKey f i).1 (k.cursorKey f i).2).run k = .ok b s) :
    BackAtCursor k ((k.wrote s f b data).moveTo f (k.files f).fOff) f b
      ((s.blocks b).put ((k.files f).fOff.toNat % blkSz) data) := by
  have frame := bread_frame k s _ _ b shown
  have stored := (written_contents k f i s b data first shown).1
  exact {
    current := frame.current
    inodes := frame.inodes
    procs := frame.procs
    locks := frame.locks
    opened := by simp [Kernel.moveTo, Kernel.wrote, File.advance]
    cursor := by simp [Kernel.moveTo]
    block := by simp [Kernel.moveTo, Kernel.wrote]
    first := (same_blocks_contents _ _ stored rfl rfl).1 }

theorem wrote_reads (s : Kernel) (b : BufId) (unset : Unset) (off size : UInt64) (data : Bytes)
    (opened : OpenRegular k fd f i) (ready : CanRead k)
    (shown : (bread (k.cursorKey f i).1 (k.cursorKey f i).2).run k = .ok b s)
    (may : MayOpen k unset irusr irgrp iroth) (clamp : unset.clamp = some (off, size))
    (keeps : off + UInt64.ofNat data.length ≤ size)
    (within : (k.files f).fOff.toNat % blkSz + data.length < blkSz) :
    ∃ u, (sysRead unset fd (UInt64.ofNat data.length)).run ((k.wrote s f b data).moveTo f (k.files f).fOff) =
      .ok ((data.length : Int), data) u := by
  have named := (bread_handed k s _ _ b shown).2.1
  have used := bread_counted k s _ _ b shown
  have back := wrote_back_at_cursor k f i s b data ready.first shown
  generalize (k.wrote s f b data).moveTo f (k.files f).fOff = t at back ⊢
  have length : (UInt64.ofNat data.length).toNat = data.length := by
    apply UInt64.toNat_ofNat_of_lt'
    have bound : blkSz < UInt64.size := by decide
    omega
  have key : (t.blocks b).key = k.cursorKey f i := by
    rw [back.block]
    exact named
  have usedAfter : (t.blocks b).bCount ≠ 0 := by
    rw [back.block]
    exact used
  have hit : findBlock t (k.cursorKey f i).1 (k.cursorKey f i).2 = some b := by
    rw [← key]
    exact back.first b usedAfter
  have fileKey : fileKey t f = some ((k.cursorKey f i).1, (k.cursorKey f i).2) := by
    rw [← file_key_opened k fd f i opened, fileKey, fileKey, back.opened, back.cursor, back.inodes]
  have place : (t.files f).place.val = (k.files f).fOff.toNat % blkSz := by rw [place_val, back.cursor]
  have free : t.locks (.proc t.current) = none := by
    rw [back.current, back.locks _ (fun _ => Lock.noConfusion)]
    exact ready.free
  have table : t.locks .buffer = none := by
    rw [back.locks _ (fun _ => Lock.noConfusion)]
    exact ready.table
  have read := sys_read_held t fd f unset off size (UInt64.ofNat data.length) _ _ b free table
    (by rw [back.procs, back.current]; exact opened.named)
    ((may_open_same k t unset _ _ _ back.current back.procs).mpr may)
    clamp keeps fileKey hit usedAfter (by rw [place, length]; exact within)
  rw [place, length, back.block, put_data, window_overlay _ _ _ _ (Nat.le_of_lt within)] at read
  exact ⟨_, read⟩

-- A write that filled a block has a block from balloc, which no inode records.
theorem sys_write_needs (balloc : Dev → Kern BufId) (fresh : HandsFresh balloc) (unset : Unset) (data : Bytes)
    (blocks : List Blk) (count : Int) (t : Kernel) (opened : OpenRegular k fd f i)
    (done : (sysWrite balloc unset fd data).run k = .ok (count, blocks) t) :
    MayOpen k unset iwusr iwgrp iwoth ∧ FileFrame k t ∧ (∀ blk ∈ blocks, ∀ n, (k.inodes i).iAddr n ≠ blk) ∧
      (blkSz ≤ (k.files f).fOff.toNat % blkSz + data.length → blocks ≠ []) := by
  obtain ⟨g, b, s, named, may, shown, ran⟩ := sys_write_ok balloc unset fd data k t count blocks done
  rw [opened.named] at named
  cases named
  rw [file_block_run] at shown
  obtain ⟨dev, blk, -, shown⟩ := bread_key_ok k s _ b shown
  have frame := bread_frame k s dev blk b shown
  obtain ⟨wrote, apart⟩ := write_loop_frame balloc fresh f data b _ s t blocks ran
  have place : (s.files f).place.val = (k.files f).fOff.toNat % blkSz := by rw [place_val, frame.files]
  rw [frame.inodes, frame.files] at apart
  exact ⟨may, file_frame_trans _ _ _ (buffer_frame_files _ _ frame) wrote, apart i opened.inode, fun full =>
    write_loop_allocs balloc f data b _ s t blocks ran (by rw [place]; exact full)⟩

theorem write_reads_back_iff (balloc : Dev → Kern BufId) (fresh : HandsFresh balloc) (unset later : Unset)
    (data : Bytes) (opened : OpenRegular k fd f i) (ready : CanRead k)
    (fits : (k.files f).fOff.toNat + data.length ≤ 8 * blkSz) :
    (∃ blocks t, (sysWrite balloc unset fd data).run k = .ok ((data.length : Int), blocks) t ∧
      Written later fd f i data blocks k t) ↔
    MayOpen k unset iwusr iwgrp iwoth ∧ MayOpen k later irusr irgrp iroth ∧
      (∃ off size, later.clamp = some (off, size) ∧ off + UInt64.ofNat data.length ≤ size) ∧
      (k.files f).fOff.toNat + data.length ≤ (k.inodes i).iSize.toNat ∧
      (k.files f).fOff.toNat % blkSz + data.length < blkSz := by
  constructor
  · rintro ⟨blocks, t, done, written⟩
    obtain ⟨mayWrite, frame, apart, filled⟩ := sys_write_needs k fd f i balloc fresh unset data blocks _ t opened done
    obtain ⟨u, read⟩ := written.reads
    obtain ⟨off, size, clamp, mayRead, length⟩ := sys_read_ok later fd _ _ u _ _ read
    have short : (UInt64.ofNat data.length).toNat = data.length := by
      apply UInt64.toNat_ofNat_of_lt'
      have bound : 8 * blkSz < UInt64.size := by decide
      omega
    have kept : (if off + UInt64.ofNat data.length ≥ size then size - off else UInt64.ofNat data.length) =
        UInt64.ofNat data.length := UInt64.toNat_inj.mp (length.symm.trans short.symm)
    have same := written.size
    rw [frame.inodes] at same
    refine ⟨mayWrite, (may_open_same k _ later _ _ _ frame.current frame.procs).mp mayRead,
      ⟨off, size, clamp, (clamp_keeps_iff off size _).mp kept⟩, by omega, ?_⟩
    by_contra beyond
    obtain ⟨blk, member⟩ := List.exists_mem_of_ne_nil _ (filled (Nat.not_lt.mp beyond))
    obtain ⟨n, -, recorded⟩ := written.recorded blk member
    rw [frame.inodes] at recorded
    exact apart blk member n recorded
  · rintro ⟨mayWrite, mayRead, ⟨off, size, clamp, keeps⟩, grows, within⟩
    obtain ⟨b, s, shown, ran⟩ := sys_write_within k fd f i balloc unset data opened ready mayWrite within
    have frame := bread_frame k s _ _ b shown
    have stored := written_contents k f i s b data ready.first shown
    refine ⟨[], k.wrote s f b data, ran, ?_⟩
    have inodes : (k.wrote s f b data).inodes = k.inodes := frame.inodes
    have contents := (same_blocks_contents _ (k.wrote s f b data) stored.1 rfl rfl).2.trans stored.2
    exact {
      reads := wrote_reads k fd f i s b later off size data opened ready shown mayRead clamp keeps within
      others := fun n inside outside =>
        file_byte_outside k fd f i _ data n opened inodes grows within contents inside outside
      size := by rw [inodes, Nat.max_eq_left grows]
      recorded := fun blk member => by cases member
      reused := fun n _ => by rw [inodes] }

end

def ballocOnce (blk : Blk) (dev : Dev) : Kern BufId := do
  let k ← get
  if ∀ i n, (k.inodes i).iDev = dev → (k.inodes i).iAddr n ≠ blk then bget dev blk
  else panic "balloc: no free space on buffer"

theorem balloc_once_fresh (blk : Blk) : HandsFresh (ballocOnce blk) := by
  intro k t dev b done
  rw [ballocOnce, run_get_bind] at done
  split at done
  · rename_i unowned
    have key : (t.blocks b).key = (dev, blk) := by
      obtain ⟨-, ⟨hit, rfl⟩ | ⟨-, -, rfl⟩⟩ := bget_cases k t dev blk b done
      · exact ((find_block_some _ dev blk b).mp hit).1
      · simp [Buffer.rekey, Buffer.key]
    obtain ⟨rfl, rfl⟩ := Prod.ext_iff.mp key
    exact ⟨bget_frame k t _ _ b done, rfl, unowned⟩
  · cases done

-- Process 0 with descriptor 3 on a file of ten bytes in block 5 of device 1.
def tenBytes : Inode :=
  ⟨⟨0o100700, 1, 0, 0, fun _ => 0, 10, fun n => if n = 0 then 5 else 0, 0, 0, 0⟩, 2, 1, 0, 1⟩

def tenByteFile (off : UInt64) : Kernel :=
  ((Kernel.zero.setInode 0 tenBytes).setFile 0 ⟨0o100700, 3, 1, off, some 0⟩).setProc 0
    ⟨0, 0, none, Function.update (fun _ => none) 3 (some 0)⟩

def setLocals : Unset := ⟨some (0, 10), some tenBytes⟩

theorem ten_byte_file_open (off : UInt64) (low : off ≤ 10) : OpenRegular (tenByteFile off) 3 0 0 where
  named := by
    simp [tenByteFile, Proc.filp, Kernel.zero]
    exact ⟨by decide, rfl⟩
  inode := by simp [tenByteFile]
  regular := by
    have mode : ((tenByteFile off).inodes 0).iMode = 0o100700 := by simp [tenByteFile, tenBytes]
    rw [mode]
    decide
  size := by simp [tenByteFile, tenBytes, blkSz]
  cursor := by simpa [tenByteFile, tenBytes] using low
  apart := by
    intro m n first second _
    simp [tenByteFile, tenBytes, blkSz] at first second
    omega

theorem ten_byte_file_ready (off : UInt64) : CanRead (tenByteFile off) where
  free := rfl
  table := rfl
  first := fun b used => absurd rfl used
  room := by
    rw [Ne, free_block_none]
    intro used
    exact used 0 rfl

theorem write_reads_back_start :
    ∃ blocks t, (sysWrite (ballocOnce 6) setLocals 3 [97]).run (tenByteFile 0) = .ok (1, blocks) t ∧
      Written setLocals 3 0 0 [97] blocks (tenByteFile 0) t :=
  (write_reads_back_iff (tenByteFile 0) 3 0 0 (ballocOnce 6) (balloc_once_fresh 6) setLocals setLocals [97]
    (ten_byte_file_open 0 (by decide)) (ten_byte_file_ready 0) (by decide)).mpr
    ⟨⟨tenBytes, rfl, by decide⟩, ⟨tenBytes, rfl, by decide⟩, ⟨0, 10, rfl, by decide⟩, by decide, by decide⟩

theorem append_leaves_size :
    ¬ ∃ blocks t, (sysWrite (ballocOnce 6) setLocals 3 [97]).run (tenByteFile 10) = .ok (1, blocks) t ∧
      Written setLocals 3 0 0 [97] blocks (tenByteFile 10) t := by
  rintro ⟨blocks, t, done, written⟩
  obtain ⟨-, frame, -, -⟩ := sys_write_needs (tenByteFile 10) 3 0 0 (ballocOnce 6) (balloc_once_fresh 6) setLocals [97]
    blocks 1 t (ten_byte_file_open 10 (by decide)) done
  have size := written.size
  rw [frame.inodes] at size
  simp [tenByteFile, tenBytes] at size

end Yaup
