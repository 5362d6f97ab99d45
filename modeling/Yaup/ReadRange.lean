import Yaup.LiveBuffers
import Yaup.ReadBack

set_option autoImplicit false

namespace Yaup

open Lib

-- sys_read with the block addresses that it hands to bread, in order.
def fileBlockTrace (f : FileId) : Kern (List Blk × BufId) := do
  let k ← get
  let b ← fileBlock f
  return (((fileKey k f).map Prod.snd).toList, b)

def readTrace (f : FileId) : Nat → BufId → Fin blkSz → Kern (List Blk × Bytes)
  | 0, _, _ => return ([], [])
  | n + 1, b, i => do
      let k ← get
      let byte := (k.blocks b).bData i
      set (k.setFile f ((k.files f).advance 1))
      if more : i.val + 1 < blkSz then
        let rest ← readTrace f n b ⟨i.val + 1, more⟩
        return (rest.1, byte :: rest.2)
      else
        let _ ← brelease b
        let next ← fileBlockTrace f
        let k ← get
        let rest ← readTrace f n next.2 (k.files f).place
        return (next.1 ++ rest.1, byte :: rest.2)

def readFromTrace (f : FileId) (buffsize : Nat) : Kern (List Blk × (Int × Bytes)) := do
  let head ← fileBlockTrace f
  let k ← get
  let rest ← readTrace f buffsize head.2 (k.files f).place
  return (head.1 ++ rest.1, ((rest.2.length : Int), rest.2))

def sysReadTrace (unset : Unset) (fd : Int) (buffsize : UInt64) : Kern (List Blk × (Int × Bytes)) := do
  match unset.clamp with
  | none => fault
  | some (off, size) =>
      let buffsize := if off + buffsize ≥ size then size - off else buffsize
      let f ← openFile unset fd irusr irgrp iroth "sys_read: invalid fd"
        "sys_read: cannot read file (permission denied)"
      let k ← get
      if (k.files f).fFlag &&& (if fread = 0 then 1 else 0) ≠ 0 then
        panic "sys_write: non readable file"
      readFromTrace f buffsize.toNat

theorem file_block_trace_block (f : FileId) : (fun traced => traced.2) <$> fileBlockTrace f = fileBlock f := by
  have unread : ∀ x : Kern BufId, (do let _ ← (get : Kern Kernel); x) = x := fun _ => rfl
  simp only [fileBlockTrace, map_bind, map_pure, bind_pure, unread]

theorem read_trace_loop (f : FileId) (n : Nat) (b : BufId) (i : Fin blkSz) :
    (fun traced => traced.2) <$> readTrace f n b i = readLoop f n b i := by
  induction n generalizing b i with
  | zero => rfl
  | succ n ih =>
      rw [readTrace, readLoop]
      simp only [map_bind]
      refine bind_congr fun k => bind_congr fun _ => ?_
      split
      · rw [← ih]
        simp only [bind_map_left, map_bind, map_pure]
      · rw [← file_block_trace_block]
        simp only [bind_map_left, map_bind, map_pure]
        refine bind_congr fun _ => bind_congr fun next => bind_congr fun s => ?_
        rw [← ih]
        simp only [bind_map_left]

theorem read_from_trace (f : FileId) (n : Nat) :
    (fun traced => traced.2) <$> readFromTrace f n = (do
      let b ← fileBlock f
      let k ← get
      let data ← readLoop f n b (k.files f).place
      return ((data.length : Int), data) : Kern (Int × Bytes)) := by
  rw [readFromTrace, ← file_block_trace_block]
  simp only [bind_map_left, map_bind, map_pure]
  refine bind_congr fun head => bind_congr fun k => ?_
  rw [← read_trace_loop]
  simp only [bind_map_left]

theorem sys_read_trace_read (unset : Unset) (fd : Int) (buffsize : UInt64) :
    (fun traced => traced.2) <$> sysReadTrace unset fd buffsize = sysRead unset fd buffsize := by
  rw [sysReadTrace, sysRead]
  cases unset.clamp with
  | none => rfl
  | some pair =>
      dsimp only
      rw [map_bind]
      refine bind_congr fun f => ?_
      rw [map_bind]
      refine bind_congr fun k => ?_
      by_cases barred : (k.files f).fFlag &&& (if fread = 0 then 1 else 0) ≠ 0
      · rw [if_pos barred, if_pos barred, map_bind]
        exact bind_congr fun _ => read_from_trace f _
      · rw [if_neg barred, if_neg barred]
        exact read_from_trace f _

def fileBytes (k : Kernel) (i : InodeId) (off n : Nat) : Bytes := (List.range n).map fun j => fileByte k i (off + j)

def Mapped (x : Inode) (blk : Blk) : Prop := ∃ m, m * blkSz < x.iSize.toNat ∧ blk = x.addr m

structure ReadRight (k t : Kernel) (f : FileId) (i : InodeId) (n : Nat) (used : List Blk) (count : Int) (data : Bytes) :
    Prop where
  count : count = (n : Int)
  bytes : data = fileBytes k i (k.files f).fOff.toNat n
  cursor : (t.files f).fOff.toNat = (k.files f).fOff.toNat + n
  mapped : ∀ blk ∈ used, Mapped (k.inodes i) blk

def FileKeys (x : Inode) (key : Dev × Blk) : Prop := ∃ m ≤ 8, key = (x.iDev, x.addr m)

structure OpenToRead (k : Kernel) (unset : Unset) (fd : Int) (f : FileId) (i : InodeId) : Prop where
  named : (k.procs k.current).filp fd = some (some f)
  inode : (k.files f).fInode = some i
  size : (k.inodes i).iSize.toNat ≤ 8 * blkSz
  cursor : (k.files f).fOff ≤ (k.inodes i).iSize
  clamp : unset.clamp = some ((k.files f).fOff, (k.inodes i).iSize)
  may : MayOpen k unset irusr irgrp iroth
  free : k.locks (.proc k.current) = none
  table : k.locks .buffer = none
  first : LiveFirst k
  unheld : Unheld k (FileKeys (k.inodes i))

def spanBlocks (x : Inode) (first last : Nat) : List Blk := (List.range' first (last + 1 - first)).map x.addr

def blockKeys (x : Inode) (blks : List Blk) : Finset (Dev × Blk) := (blks.map fun blk => (x.iDev, blk)).toFinset

def RoomToRead (k : Kernel) (x : Inode) (off n : Nat) : Prop :=
  (liveKeys k ∪ blockKeys x (spanBlocks x (off / blkSz) ((off + n) / blkSz))).card ≤ nrBuf

-- A read up to the end of a file of whole blocks goes on to the entry after the last one.
def EndMapped (x : Inode) (off n : Nat) : Prop :=
  x.iSize.toNat ≤ off + n → blkSz ∣ x.iSize.toNat → Mapped x (x.addr (x.iSize.toNat / blkSz))

theorem file_bytes_succ (k : Kernel) (i : InodeId) (off n : Nat) :
    fileBytes k i off (n + 1) = fileByte k i off :: fileBytes k i (off + 1) n := by
  rw [fileBytes, List.range_succ_eq_map, List.map_cons, List.map_map]
  refine congrArg (List.cons _) (List.map_congr_left fun j _ => ?_)
  rw [Function.comp_apply, Nat.add_assoc, Nat.add_comm 1 j]

theorem span_blocks_cons (x : Inode) (first last : Nat) (low : first ≤ last) :
    spanBlocks x first last = x.addr first :: spanBlocks x (first + 1) last := by
  have length : last + 1 - first = (last + 1 - (first + 1)) + 1 := by omega
  rw [spanBlocks, length, List.range'_succ, List.map_cons, spanBlocks]

theorem span_blocks_empty (x : Inode) (first : Nat) : spanBlocks x (first + 1) first = [] := by
  rw [spanBlocks, Nat.sub_self]
  rfl

theorem block_keys_cons (x : Inode) (blk : Blk) (blks : List Blk) :
    blockKeys x (blk :: blks) = insert (x.iDev, blk) (blockKeys x blks) := by
  rw [blockKeys, List.map_cons, List.toFinset_cons, blockKeys]

section
variable (k : Kernel) (f : FileId) (i : InodeId)

structure AtCursor (s : Kernel) (p : Nat) : Prop where
  inodes : s.inodes = k.inodes
  opened : (s.files f).fInode = some i
  cursor : (s.files f).fOff.toNat = p
  table : s.locks .buffer = none
  first : LiveFirst s
  contents : s.contents = k.contents
  unheld : Unheld s (FileKeys (k.inodes i))

structure Showing (s : Kernel) (b : BufId) (p : Nat) : Prop extends AtCursor k f i s p where
  used : (s.blocks b).bCount ≠ 0
  block : (s.blocks b).bData = k.contents ((k.inodes i).iDev, (k.inodes i).addr (p / blkSz))

variable (s t : Kernel) (b : BufId) (p : Nat) (low : p ≤ 8 * blkSz)

include low in
theorem at_cursor_key (now : AtCursor k f i s p) :
    fileKey s f = some ((k.inodes i).iDev, (k.inodes i).addr (p / blkSz)) := by
  have addr := baddr_within (k.inodes i) (s.files f).fOff (by rw [now.cursor]; exact low)
  rw [fileKey, now.opened, Option.bind_some, now.inodes, addr, Option.map_some, now.cursor]

include low in
theorem at_cursor_block (now : AtCursor k f i s p) :
    (fileBlock f).run s = (bread (k.inodes i).iDev ((k.inodes i).addr (p / blkSz))).run s := by
  rw [file_block_run, at_cursor_key k f i s p low now, breadKey]

include low in
theorem file_block_showing (now : AtCursor k f i s p) (done : (fileBlock f).run s = .ok b t) :
    Showing k f i t b p ∧
      liveKeys t = insert ((k.inodes i).iDev, (k.inodes i).addr (p / blkSz)) (liveKeys s) := by
  rw [at_cursor_block k f i s p low now] at done
  have frame := bread_frame s t _ _ b done
  obtain ⟨first, contents, loaded⟩ := bread_contents s t now.first _ _ b done
  have within : FileKeys (k.inodes i) ((k.inodes i).iDev, (k.inodes i).addr (p / blkSz)) :=
    ⟨p / blkSz, Nat.div_le_of_le_mul (by omega), rfl⟩
  refine ⟨?_, bread_live s t _ _ b done⟩
  exact {
    inodes := frame.inodes.trans now.inodes
    opened := by rw [frame.files, now.opened]
    cursor := by rw [frame.files, now.cursor]
    table := (frame.locks _ fun _ => Lock.noConfusion).trans now.table
    first := first
    contents := contents.trans now.contents
    unheld := bread_leaves_unheld s t _ _ b _ now.unheld within done
    used := bread_counted s t _ _ b done
    block := by rw [loaded, now.contents] }

include low in
theorem file_block_room (now : AtCursor k f i s p) :
    (∃ b t, (fileBlock f).run s = .ok b t) ↔
      (insert ((k.inodes i).iDev, (k.inodes i).addr (p / blkSz)) (liveKeys s)).card ≤ nrBuf := by
  rw [at_cursor_block k f i s p low now]
  exact bread_room_iff s now.first now.table _ _

include low in
theorem file_block_trace_ok (now : AtCursor k f i s p) (next : List Blk × BufId)
    (done : (fileBlockTrace f).run s = .ok next t) :
    next.1 = [(k.inodes i).addr (p / blkSz)] ∧ (fileBlock f).run s = .ok next.2 t := by
  rw [fileBlockTrace, run_get_bind] at done
  obtain ⟨b, u, shown, rest⟩ := (run_bind_ok _ _ _ _ _).mp done
  cases rest
  rw [at_cursor_key k f i s p low now]
  exact ⟨rfl, shown⟩

theorem file_block_trace_runs (done : (fileBlock f).run s = .ok b t) :
    ∃ used, (fileBlockTrace f).run s = .ok (used, b) t := by
  refine ⟨((fileKey s f).map Prod.snd).toList, ?_⟩
  rw [fileBlockTrace, run_get_bind, EStateM.run_bind, done]
  rfl

theorem showing_byte (now : Showing k f i s b p) (place : Fin blkSz) (here : place.val = p % blkSz) :
    (s.blocks b).bData place = fileByte k i p := by
  rw [now.block, fileByte]
  exact congrArg _ (Fin.ext here)

theorem at_cursor_advance (now : AtCursor k f i s p) (below : p < 8 * blkSz) :
    AtCursor k f i (s.setFile f ((s.files f).advance 1)) (p + 1) := by
  obtain ⟨first, contents⟩ := same_blocks_contents s (s.setFile f ((s.files f).advance 1)) now.first rfl rfl
  exact {
    inodes := now.inodes
    opened := by simpa [File.advance] using now.opened
    cursor := by
      have bound : 8 * blkSz < 2 ^ 64 := by decide
      have cursor := now.cursor
      simp [File.advance]
      omega
    table := now.table
    first := first
    contents := contents.trans now.contents
    unheld := now.unheld }

theorem showing_advance (now : Showing k f i s b p) (below : p < 8 * blkSz) (more : p % blkSz + 1 < blkSz) :
    Showing k f i (s.setFile f ((s.files f).advance 1)) b (p + 1) := by
  have same : (p + 1) / blkSz = p / blkSz := by
    rw [blkSz] at more ⊢
    omega
  exact {
    toAtCursor := at_cursor_advance k f i s p now.toAtCursor below
    used := now.used
    block := by
      rw [same]
      exact now.block }

theorem read_trace_within (n : Nat) (place : Fin blkSz) (more : place.val + 1 < blkSz) :
    (readTrace f (n + 1) b place).run s =
      (readTrace f n b ⟨place.val + 1, more⟩ >>= fun rest =>
        return (rest.1, (s.blocks b).bData place :: rest.2) : Kern (List Blk × Bytes)).run
        (s.setFile f ((s.files f).advance 1)) := by
  simp only [readTrace, EStateM.run_bind, EStateM.run_get, EStateM.run_set, dif_pos more]

theorem read_trace_across (n : Nat) (place : Fin blkSz) (last : ¬ place.val + 1 < blkSz) (now : Showing k f i s b p) :
    (readTrace f (n + 1) b place).run s =
      (fileBlockTrace f >>= fun next => get >>= fun u => readTrace f n next.2 (u.files f).place >>= fun rest =>
        return (next.1 ++ rest.1, (s.blocks b).bData place :: rest.2) : Kern (List Blk × Bytes)).run
        (s.setFile f ((s.files f).advance 1)) := by
  have unheld := now.unheld b (.inl now.used)
  have kept : (brelease b).run (s.setFile f ((s.files f).advance 1)) =
      .ok 0 (s.setFile f ((s.files f).advance 1)) := by
    rw [brelease_run]
    simp only [Kernel.setFile_blocks, Kernel.setFile_locks, Kernel.setFile_current, if_neg now.used, if_neg unheld]
  simp only [readTrace, EStateM.run_bind, EStateM.run_get, EStateM.run_set, dif_neg last, kept]

theorem place_next (p place : Nat) (here : place = p % blkSz) (more : place + 1 < blkSz) :
    place + 1 = (p + 1) % blkSz := by
  rw [blkSz] at here more ⊢
  omega

theorem span_across (x : Inode) (p n : Nat) (last : ¬ p % blkSz + 1 < blkSz) :
    (p + 1) / blkSz = p / blkSz + 1 ∧
      spanBlocks x (p / blkSz + 1) ((p + (n + 1)) / blkSz) =
        x.addr ((p + 1) / blkSz) :: spanBlocks x ((p + 1) / blkSz + 1) ((p + 1 + n) / blkSz) := by
  have next : (p + 1) / blkSz = p / blkSz + 1 := by
    rw [blkSz] at last ⊢
    omega
  have total : p + (n + 1) = p + 1 + n := by omega
  refine ⟨next, ?_⟩
  rw [next, total, span_blocks_cons]
  exact next.symm.le.trans (Nat.div_le_div_right (Nat.le_add_right _ _))

theorem span_within (x : Inode) (p n : Nat) (more : p % blkSz + 1 < blkSz) :
    spanBlocks x (p / blkSz + 1) ((p + (n + 1)) / blkSz) =
      spanBlocks x ((p + 1) / blkSz + 1) ((p + 1 + n) / blkSz) := by
  have same : (p + 1) / blkSz = p / blkSz := by
    rw [blkSz] at more ⊢
    omega
  have total : p + (n + 1) = p + 1 + n := by omega
  rw [same, total]

theorem read_trace_reads (n : Nat) (place : Fin blkSz) (traced : List Blk × Bytes) (now : Showing k f i s b p)
    (here : place.val = p % blkSz) (fits : p + n ≤ 8 * blkSz) (done : (readTrace f n b place).run s = .ok traced t) :
    traced = (spanBlocks (k.inodes i) (p / blkSz + 1) ((p + n) / blkSz), fileBytes k i p n) ∧
      (t.files f).fOff.toNat = p + n ∧
      liveKeys t = liveKeys s ∪ blockKeys (k.inodes i) traced.1 := by
  induction n generalizing s b p place traced with
  | zero =>
      cases done
      refine ⟨?_, now.cursor, (Finset.union_empty _).symm⟩
      rw [Nat.add_zero p, span_blocks_empty]
      rfl
  | succ n ih =>
      have byte := showing_byte k f i s b p now place here
      have later : p + 1 + n ≤ 8 * blkSz := by omega
      by_cases more : place.val + 1 < blkSz
      · have moved := showing_advance k f i s b p now (by omega) (by omega)
        rw [read_trace_within f s b n place more] at done
        obtain ⟨rest, u, ran, ended⟩ := (run_bind_ok _ _ _ _ _).mp done
        cases ended
        have next := place_next p place.val here more
        obtain ⟨same, cursor, live⟩ := ih _ b (p + 1) ⟨place.val + 1, more⟩ rest moved next later ran
        rw [here] at more
        refine ⟨?_, by omega, live⟩
        rw [same, byte, file_bytes_succ, span_within _ p n more]
      · have moved := at_cursor_advance k f i s p now.toAtCursor (by omega)
        rw [read_trace_across k f i s b p n place more now] at done
        obtain ⟨next, u, shown, ended⟩ := (run_bind_ok _ _ _ _ _).mp done
        rw [run_get_bind] at ended
        obtain ⟨rest, v, ran, ended⟩ := (run_bind_ok _ _ _ _ _).mp ended
        cases ended
        obtain ⟨used, read⟩ := file_block_trace_ok k f i _ u (p + 1) (by omega) moved next shown
        obtain ⟨showing, liveNext⟩ := file_block_showing k f i _ u next.2 (p + 1) (by omega) moved read
        have start : (u.files f).place.val = (p + 1) % blkSz := by rw [place_val, showing.cursor]
        obtain ⟨same, cursor, live⟩ := ih u next.2 (p + 1) _ rest showing start later ran
        rw [here] at more
        obtain ⟨block, spanned⟩ := span_across (k.inodes i) p n more
        refine ⟨?_, by omega, ?_⟩
        · rw [spanned, used, same, byte, file_bytes_succ]
          rfl
        · rw [live, liveNext, used]
          change _ = _ ∪ blockKeys _ (_ :: rest.1)
          rw [block_keys_cons, Finset.insert_union, Finset.union_insert]
          rfl

theorem read_trace_runs (n : Nat) (place : Fin blkSz) (now : Showing k f i s b p) (here : place.val = p % blkSz)
    (fits : p + n ≤ 8 * blkSz)
    (room : (liveKeys s ∪ blockKeys (k.inodes i) (spanBlocks (k.inodes i) (p / blkSz + 1) ((p + n) / blkSz))).card ≤ nrBuf) :
    ∃ traced t, (readTrace f n b place).run s = .ok traced t := by
  induction n generalizing s b p place with
  | zero => exact ⟨_, _, rfl⟩
  | succ n ih =>
      have later : p + 1 + n ≤ 8 * blkSz := by omega
      by_cases more : place.val + 1 < blkSz
      · have moved := showing_advance k f i s b p now (by omega) (by omega)
        have next := place_next p place.val here more
        rw [span_within _ p n (by omega)] at room
        obtain ⟨rest, t, ran⟩ := ih _ b (p + 1) ⟨place.val + 1, more⟩ moved next later room
        rw [read_trace_within f s b n place more, EStateM.run_bind, ran]
        exact ⟨_, _, rfl⟩
      · have moved := at_cursor_advance k f i s p now.toAtCursor (by omega)
        have spanned := (span_across (k.inodes i) p n (by omega)).2
        rw [spanned, block_keys_cons, Finset.union_insert] at room
        have slot := (Finset.card_le_card (Finset.insert_subset_insert _ Finset.subset_union_left)).trans room
        obtain ⟨c, u, read⟩ := (file_block_room k f i _ (p + 1) (by omega) moved).mpr slot
        obtain ⟨showing, liveNext⟩ := file_block_showing k f i _ u c (p + 1) (by omega) moved read
        obtain ⟨used, traced⟩ := file_block_trace_runs f _ u c read
        have start : (u.files f).place.val = (p + 1) % blkSz := by rw [place_val, showing.cursor]
        obtain ⟨rest, t, ran⟩ := ih u c (p + 1) _ showing start later (by
          rw [liveNext, Finset.insert_union]
          exact room)
        rw [read_trace_across k f i s b p n place more now]
        simp only [EStateM.run_bind, traced, EStateM.run_get, ran, EStateM.run_pure]
        exact ⟨_, _, rfl⟩

end

theorem mem_span_blocks (x : Inode) (first last : Nat) (blk : Blk) :
    blk ∈ spanBlocks x first last ↔ ∃ q, first ≤ q ∧ q ≤ last ∧ x.addr q = blk := by
  simp only [spanBlocks, List.mem_map, List.mem_range'_1]
  refine exists_congr fun q => ?_
  rw [← and_assoc]
  exact and_congr_left fun _ => by omega

def readCount (off size buffsize : UInt64) : Nat := min buffsize.toNat (size.toNat - off.toNat)

-- The sum at the top of sys_read is off by 2^64 where it is not in range.
theorem clamp_count_iff (off size buffsize : UInt64) (within : off ≤ size) :
    (if off + buffsize ≥ size then size - off else buffsize).toNat = readCount off size buffsize ↔
      off.toNat + buffsize.toNat < 2 ^ 64 := by
  have low := UInt64.le_iff_toNat_le.mp within
  have left : (size - off).toNat = size.toNat - off.toNat := UInt64.toNat_sub_of_le _ _ within
  have sum : (off + buffsize).toNat = (off.toNat + buffsize.toNat) % 2 ^ 64 := UInt64.toNat_add off buffsize
  have bound := buffsize.toNat_lt
  have high := size.toNat_lt
  rw [readCount]
  by_cases past : off + buffsize ≥ size
  · have order := UInt64.le_iff_toNat_le.mp past
    rw [if_pos past]
    omega
  · have order := UInt64.lt_iff_toNat_lt.mp (UInt64.not_le.mp past)
    rw [if_neg past]
    omega

section
variable (k : Kernel) (unset : Unset) (fd : Int) (f : FileId) (i : InodeId) (buffsize : UInt64)
variable (opened : OpenToRead k unset fd f i)

include opened in
theorem at_cursor_start : AtCursor k f i k (k.files f).fOff.toNat where
  inodes := rfl
  opened := opened.inode
  cursor := rfl
  table := opened.table
  first := opened.first
  contents := rfl
  unheld := opened.unheld

include opened in
theorem sys_read_trace_run :
    (sysReadTrace unset fd buffsize).run k =
      (readFromTrace f (if (k.files f).fOff + buffsize ≥ (k.inodes i).iSize then
        (k.inodes i).iSize - (k.files f).fOff else buffsize).toNat).run k := by
  have head := open_file_run k unset fd irusr irgrp iroth "sys_read: invalid fd"
    "sys_read: cannot read file (permission denied)" f opened.free opened.named opened.may
  have readable : ¬ ((k.files f).fFlag &&& (if fread = 0 then 1 else 0)) ≠ 0 := by
    have mask : (if fread = 0 then 1 else 0 : UInt8) = 0 := rfl
    rw [mask]
    simp
  rw [sysReadTrace, opened.clamp]
  simp only [EStateM.run_bind, head, EStateM.run_get, if_neg readable]

include opened in
theorem read_from_reads (n : Nat) (t : Kernel) (used : List Blk) (count : Int) (data : Bytes)
    (fits : (k.files f).fOff.toNat + n ≤ (k.inodes i).iSize.toNat)
    (done : (readFromTrace f n).run k = .ok (used, (count, data)) t) :
    used = spanBlocks (k.inodes i) ((k.files f).fOff.toNat / blkSz) (((k.files f).fOff.toNat + n) / blkSz) ∧
      data = fileBytes k i (k.files f).fOff.toNat n ∧ count = (n : Int) ∧
      (t.files f).fOff.toNat = (k.files f).fOff.toNat + n ∧
      RoomToRead k (k.inodes i) (k.files f).fOff.toNat n := by
  have size := opened.size
  have start := at_cursor_start k unset fd f i opened
  have low : (k.files f).fOff.toNat ≤ 8 * blkSz := by omega
  rw [readFromTrace] at done
  obtain ⟨head, s, shown, rest⟩ := (run_bind_ok _ _ _ _ _).mp done
  rw [run_get_bind] at rest
  obtain ⟨read, u, ran, ended⟩ := (run_bind_ok _ _ _ _ _).mp rest
  cases ended
  obtain ⟨addr, block⟩ := file_block_trace_ok k f i k s _ low start head shown
  obtain ⟨showing, live⟩ := file_block_showing k f i k s head.2 _ low start block
  have here : (s.files f).place.val = (k.files f).fOff.toNat % blkSz := by rw [place_val, showing.cursor]
  obtain ⟨rfl, cursor, liveAfter⟩ := read_trace_reads k f i s t head.2 _ n _ read showing here (by omega) ran
  have span := span_blocks_cons (k.inodes i) ((k.files f).fOff.toNat / blkSz) (((k.files f).fOff.toNat + n) / blkSz)
    (Nat.div_le_div_right (Nat.le_add_right _ _))
  refine ⟨?_, rfl, by simp [fileBytes], cursor, ?_⟩
  · rw [addr, span]
    rfl
  · rw [RoomToRead, span, block_keys_cons, Finset.union_insert, ← Finset.insert_union, ← live, ← liveAfter]
    exact live_keys_fit t

include opened in
theorem read_from_runs (n : Nat) (fits : (k.files f).fOff.toNat + n ≤ (k.inodes i).iSize.toNat)
    (room : RoomToRead k (k.inodes i) (k.files f).fOff.toNat n) :
    ∃ used count data t, (readFromTrace f n).run k = .ok (used, (count, data)) t := by
  have size := opened.size
  have start := at_cursor_start k unset fd f i opened
  have low : (k.files f).fOff.toNat ≤ 8 * blkSz := by omega
  have span := span_blocks_cons (k.inodes i) ((k.files f).fOff.toNat / blkSz) (((k.files f).fOff.toNat + n) / blkSz)
    (Nat.div_le_div_right (Nat.le_add_right _ _))
  rw [RoomToRead, span, block_keys_cons, Finset.union_insert, ← Finset.insert_union] at room
  obtain ⟨b, s, block⟩ := (file_block_room k f i k _ low start).mpr
    ((Finset.card_le_card Finset.subset_union_left).trans room)
  obtain ⟨showing, live⟩ := file_block_showing k f i k s b _ low start block
  obtain ⟨used, shown⟩ := file_block_trace_runs f k s b block
  have here : (s.files f).place.val = (k.files f).fOff.toNat % blkSz := by rw [place_val, showing.cursor]
  obtain ⟨read, t, ran⟩ := read_trace_runs k f i s b _ n _ showing here (by omega) (by rw [live]; exact room)
  refine ⟨used ++ read.1, read.2.length, read.2, t, ?_⟩
  rw [readFromTrace]
  simp only [EStateM.run_bind, shown, EStateM.run_get, ran, EStateM.run_pure]

def ReadsRight : Prop :=
  ∃ used count data t, (sysRead unset fd buffsize).run k = .ok (count, data) t ∧
    (sysReadTrace unset fd buffsize).run k = .ok (used, (count, data)) t ∧
    ReadRight k t f i (readCount (k.files f).fOff (k.inodes i).iSize buffsize) used count data

include opened in
theorem read_count_fits : (k.files f).fOff.toNat + readCount (k.files f).fOff (k.inodes i).iSize buffsize ≤
    (k.inodes i).iSize.toNat := by
  have cursor := UInt64.le_iff_toNat_le.mp opened.cursor
  rw [readCount]
  omega

include opened in
theorem reads_right_needs (right : ReadsRight k unset fd f i buffsize) :
    (k.files f).fOff.toNat + buffsize.toNat < 2 ^ 64 ∧
      EndMapped (k.inodes i) (k.files f).fOff.toNat buffsize.toNat ∧
      RoomToRead k (k.inodes i) (k.files f).fOff.toNat (readCount (k.files f).fOff (k.inodes i).iSize buffsize) := by
  have cursor := UInt64.le_iff_toNat_le.mp opened.cursor
  have fits := read_count_fits k unset fd f i buffsize opened
  obtain ⟨used, count, data, t, plain, done, right⟩ := right
  obtain ⟨off, size, clamp, -, length⟩ := sys_read_ok unset fd buffsize k t count data plain
  rw [opened.clamp] at clamp
  cases clamp
  have counted : data.length = readCount (k.files f).fOff (k.inodes i).iSize buffsize := by
    rw [right.bytes, fileBytes, List.length_map, List.length_range]
  have same := length.symm.trans counted
  rw [sys_read_trace_run k unset fd f i buffsize opened, same] at done
  obtain ⟨rfl, -, -, -, room⟩ := read_from_reads k unset fd f i opened _ t used count data fits done
  refine ⟨(clamp_count_iff _ _ buffsize opened.cursor).mp same, fun past aligned => ?_, room⟩
  refine right.mapped _ ((mem_span_blocks _ _ _ _).mpr ⟨_, ?_, ?_, rfl⟩)
  · exact Nat.div_le_div_right cursor
  · refine Nat.div_le_div_right ?_
    rw [readCount]
    omega

theorem span_mapped (x : Inode) (off n : Nat) (within : off + min n (x.iSize.toNat - off) ≤ x.iSize.toNat)
    (ends : EndMapped x off n) (blk : Blk)
    (member : blk ∈ spanBlocks x (off / blkSz) ((off + min n (x.iSize.toNat - off)) / blkSz)) : Mapped x blk := by
  obtain ⟨q, -, high, rfl⟩ := (mem_span_blocks _ _ _ _).mp member
  have reached := Nat.mul_le_of_le_div _ _ _ high
  by_cases below : q * blkSz < x.iSize.toNat
  · exact ⟨q, below, rfl⟩
  · have last : x.iSize.toNat = q * blkSz := by omega
    have after := ends (by omega) ⟨q, by rw [last, Nat.mul_comm]⟩
    rw [last, Nat.mul_div_cancel _ (by decide)] at after
    exact after

-- The read is right where the sum does not wrap, it does not end at the end of a file of
-- whole blocks, unless the entry after the last one names one of them, and the buffers last.
include opened in
theorem read_right_iff :
    ReadsRight k unset fd f i buffsize ↔
      (k.files f).fOff.toNat + buffsize.toNat < 2 ^ 64 ∧
        EndMapped (k.inodes i) (k.files f).fOff.toNat buffsize.toNat ∧
        RoomToRead k (k.inodes i) (k.files f).fOff.toNat (readCount (k.files f).fOff (k.inodes i).iSize buffsize) := by
  constructor
  · exact reads_right_needs k unset fd f i buffsize opened
  · rintro ⟨small, ends, room⟩
    have fits := read_count_fits k unset fd f i buffsize opened
    have whole := (clamp_count_iff _ _ buffsize opened.cursor).mpr small
    obtain ⟨used, count, data, t, done⟩ := read_from_runs k unset fd f i opened _ fits room
    obtain ⟨span, bytes, counted, moved, -⟩ := read_from_reads k unset fd f i opened _ t used count data fits done
    rw [← whole, ← sys_read_trace_run k unset fd f i buffsize opened] at done
    refine ⟨used, count, data, t, ?_, done, counted, bytes, moved, fun blk member => ?_⟩
    · rw [← sys_read_trace_read, run_map, done]
    · rw [span] at member
      exact span_mapped _ _ _ fits ends blk member

end

theorem ten_byte_file_reads : OpenToRead (tenByteFile 0) setLocals 3 0 0 where
  named := (ten_byte_file_open 0 (by decide)).named
  inode := (ten_byte_file_open 0 (by decide)).inode
  size := (ten_byte_file_open 0 (by decide)).size
  cursor := (ten_byte_file_open 0 (by decide)).cursor
  clamp := rfl
  may := ⟨tenBytes, rfl, by decide⟩
  free := rfl
  table := rfl
  first := (ten_byte_file_ready 0).first
  unheld := fun _ _ => nofun

theorem read_right_ten : ReadsRight (tenByteFile 0) setLocals 3 0 0 10 := by
  refine (read_right_iff (tenByteFile 0) setLocals 3 0 0 10 ten_byte_file_reads).mpr ⟨by decide, ?_, ?_⟩
  · exact fun _ aligned => absurd aligned (by decide)
  · rw [RoomToRead, idle_live_keys (tenByteFile 0) fun _ => rfl]
    decide

-- A file of one block read whole: the call goes on to i_addr[1], which is not in use.
def oneBlock : Inode := { tenBytes with iSize := 4096 }

def oneBlockFile : Kernel := (tenByteFile 0).setInode 0 oneBlock

theorem one_block_reads : OpenToRead oneBlockFile ⟨some (0, 4096), some oneBlock⟩ 3 0 0 where
  named := (ten_byte_file_open 0 (by decide)).named
  inode := (ten_byte_file_open 0 (by decide)).inode
  size := by simp [oneBlockFile, oneBlock, blkSz]
  cursor := by simp [oneBlockFile, oneBlock, tenByteFile]
  clamp := rfl
  may := ⟨oneBlock, rfl, by decide⟩
  free := rfl
  table := rfl
  first := (ten_byte_file_ready 0).first
  unheld := fun _ _ => nofun

theorem read_passes_last_block : ¬ ReadsRight oneBlockFile ⟨some (0, 4096), some oneBlock⟩ 3 0 0 4096 := by
  intro right
  have ends := (reads_right_needs oneBlockFile _ 3 0 0 4096 one_block_reads right).2.1
  obtain ⟨m, below, same⟩ := ends (by decide) (by decide)
  have first : m = 0 := by
    have size : m * blkSz < 4096 := below
    rw [blkSz] at size
    omega
  subst first
  exact absurd same (by decide)

end Yaup
