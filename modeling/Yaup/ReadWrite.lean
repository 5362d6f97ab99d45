import Yaup.Contents
import Yaup.Lib.Text
import Yaup.Namei

set_option autoImplicit false

namespace Yaup

open Lib

def irwxu : UInt16 := 0o700
def irusr : UInt16 := 0o400
def iwusr : UInt16 := 0o200
def irwxg : UInt16 := 0o070
def irgrp : UInt16 := 0o040
def iwgrp : UInt16 := 0o020
def irwxo : UInt16 := 0o007
def iroth : UInt16 := 0o004
def iwoth : UInt16 := 0o002
def fread : UInt8 := 1
def fwrt : UInt8 := 2

def userHasPerm (p : Proc) (x : Inode) (perm : UInt16) : Bool :=
  p.pUid == x.iUid && (x.iMode &&& irwxu != 0 || x.iMode &&& perm != 0)

def groupHasPerm (p : Proc) (x : Inode) (perm : UInt16) : Bool :=
  p.pGid == x.iGid && (x.iMode &&& irwxg != 0 || x.iMode &&& perm != 0)

def otherHasPerm (x : Inode) (perm : UInt16) : Bool := x.iMode &&& irwxo != 0 || x.iMode &&& perm != 0

def hasPerm (p : Proc) (x : Inode) (usr grp oth : UInt16) : Bool :=
  userHasPerm p x usr || groupHasPerm p x grp || otherHasPerm x oth

-- i_addr[addr] for the n-th block, whose number is stored in an int; none is an index
-- before i_addr.
def blockAddr (x : Inode) (n : Nat) : Option Blk :=
  let addr := (n : Int).bmod (2 ^ 32)
  if addr > ndirect then some (-1) else if addr < 0 then none else some (x.addr addr.toNat)

def baddr (x : Inode) (off : UInt64) : Option Blk := blockAddr x (off.toNat / blkSz)

-- What two locals lead to that the calls read before they set them: the f_off and i_size
-- behind the f of sys_read, and the inode that both pass as i; none where that traps.
structure Unset where
  clamp : Option (UInt64 × UInt64)
  inode : Option Inode

-- current->p_filp[fd] below NR_OFILES; none is an index before the table.
def Proc.filp (p : Proc) (fd : Int) : Option (Option FileId) :=
  if inside : 0 ≤ fd ∧ fd.toNat < nrOfiles then some (p.pFilp ⟨fd.toNat, inside.2⟩) else none

theorem filp_low (p : Proc) (fd : Int) (file : Option FileId) (named : p.filp fd = some file) : fd < nrOfiles := by
  by_contra high
  have outside : ¬ (0 ≤ fd ∧ fd.toNat < nrOfiles) := by omega
  rw [Proc.filp, dif_neg outside] at named
  cases named

def openFile (unset : Unset) (fd : Int) (usr grp oth : UInt16) (bad denied : String) : Kern FileId := do
  if fd ≥ nrOfiles then panic bad
  let k ← get
  acquire (.proc k.current)
  match (k.procs k.current).filp fd, unset.inode with
  | some none, _ => panic bad
  | some (some f), some x =>
      if ¬ hasPerm (k.procs k.current) x usr grp oth then panic denied
      release (.proc k.current)
      return f
  | _, _ => fault

def fileKey (k : Kernel) (f : FileId) : Option (Dev × Blk) :=
  (k.files f).fInode.bind fun i => (baddr (k.inodes i) (k.files f).fOff).map fun blk => ((k.inodes i).iDev, blk)

def breadKey : Option (Dev × Blk) → Kern BufId
  | none => fault
  | some key => bread key.1 key.2

def fileBlock (f : FileId) : Kern BufId := do
  let k ← get
  breadKey (fileKey k f)

def File.place (x : File) : Fin blkSz := Fin.ofNat blkSz x.fOff.toNat

def File.advance (x : File) (n : Nat) : File := { x with fOff := x.fOff + UInt64.ofNat n }

def Buffer.putAt (x : Buffer) (i : Fin blkSz) (byte : UInt8) : Buffer :=
  { x with bData := Function.update x.bData i byte }

-- The loop of sys_read with n bytes to go, as the bytes it puts into buf.
def readLoop (f : FileId) : Nat → BufId → Fin blkSz → Kern Bytes
  | 0, _, _ => return []
  | n + 1, b, i => do
      let k ← get
      let byte := (k.blocks b).bData i
      set (k.setFile f ((k.files f).advance 1))
      if more : i.val + 1 < blkSz then
        let rest ← readLoop f n b ⟨i.val + 1, more⟩
        return byte :: rest
      else
        let _ ← brelease b
        let b ← fileBlock f
        let k ← get
        let rest ← readLoop f n b (k.files f).place
        return byte :: rest

-- The test of the flag is `f_flag & (FREAD == 0)`.
def sysRead (unset : Unset) (fd : Int) (buffsize : UInt64) : Kern (Int × Bytes) := do
  match unset.clamp with
  | none => fault
  | some (off, size) =>
      let buffsize := if off + buffsize ≥ size then size - off else buffsize
      let f ← openFile unset fd irusr irgrp iroth "sys_read: invalid fd"
        "sys_read: cannot read file (permission denied)"
      let k ← get
      if (k.files f).fFlag &&& (if fread = 0 then 1 else 0) ≠ 0 then
        panic "sys_write: non readable file"
      let b ← fileBlock f
      let k ← get
      let data ← readLoop f buffsize.toNat b (k.files f).place
      return ((data.length : Int), data)

def seekSet : Int := 0
def seekCur : Int := 1
def seekEnd : Int := 2

-- The switch of sys_seek; SEEK_END goes back from the cursor, not from the end.
def seekOff (x : File) (offset : UInt64) (whence : Int) : Option UInt64 :=
  if whence = seekCur then some (x.fOff + offset)
  else if whence = seekEnd then some (x.fOff - offset)
  else if whence = seekSet then some offset
  else none

-- off_t is unsigned, so that `off <= 0` is a test for zero.
def sysSeek (fd : Int) (offset : UInt64) (whence : Int) : Kern UInt64 := do
  if fd ≥ nrOfiles then panic "sys_seek: bad fd"
  let k ← get
  acquire (.proc k.current)
  match (k.procs k.current).filp fd with
  | none => fault
  | some none => panic "sys_seek: invalid fd"
  | some (some f) =>
      release (.proc k.current)
      let k ← get
      match seekOff (k.files f) offset whence with
      | none => panic "sys_seek: invalid reference position"
      | some off =>
          if off ≤ 0 then panic "sys_seek: bad offset"
          match (k.files f).fInode with
          | none => fault
          | some i =>
              if off ≥ (k.inodes i).iSize then panic "sys_seek: bad offset"
              set (k.setFile f { k.files f with fOff := off })
              return off

def MayOpen (k : Kernel) (unset : Unset) (usr grp oth : UInt16) : Prop :=
  ∃ x, unset.inode = some x ∧ hasPerm (k.procs k.current) x usr grp oth = true

theorem open_file_ok (k t : Kernel) (unset : Unset) (fd : Int) (usr grp oth : UInt16) (bad denied : String) (f : FileId)
    (done : (openFile unset fd usr grp oth bad denied).run k = .ok f t) :
    t = k ∧ (k.procs k.current).filp fd = some (some f) ∧ MayOpen k unset usr grp oth := by
  rw [openFile] at done
  by_cases high : fd ≥ nrOfiles
  · simp [high] at done
  · simp only [if_neg high] at done
    obtain ⟨_, s, seen, rest⟩ := (run_bind_ok _ _ _ _ _).mp done
    cases seen
    obtain ⟨_, s, taken, rest⟩ := (run_bind_ok _ _ _ _ _).mp rest
    obtain ⟨free, rfl⟩ := acquire_ok k s _ taken
    split at rest
    · cases rest
    · rename_i g x named stray
      by_cases may : hasPerm (k.procs k.current) x usr grp oth = true
      · simp only [may, not_true_eq_false, if_false] at rest
        obtain ⟨_, s, released, rest⟩ := (run_bind_ok _ _ _ _ _).mp rest
        cases released
        cases rest
        exact ⟨Kernel.unlock_lock k _ free, named, x, stray, may⟩
      · simp [may] at rest
    · cases rest

theorem open_file_run (k : Kernel) (unset : Unset) (fd : Int) (usr grp oth : UInt16) (bad denied : String) (f : FileId)
    (free : k.locks (.proc k.current) = none) (named : (k.procs k.current).filp fd = some (some f))
    (may : MayOpen k unset usr grp oth) : (openFile unset fd usr grp oth bad denied).run k = .ok f k := by
  obtain ⟨x, stray, may⟩ := may
  have low : ¬ fd ≥ nrOfiles := Int.not_le.mpr (filp_low _ fd _ named)
  simp [openFile, low, acquire_free k _ free, named, stray, may, Kernel.unlock_lock k _ free]

theorem file_block_run (k : Kernel) (f : FileId) : (fileBlock f).run k = (breadKey (fileKey k f)).run k :=
  run_get_bind (fun k => breadKey (fileKey k f)) k

theorem bread_key_ok (k t : Kernel) (key : Option (Dev × Blk)) (b : BufId) (done : (breadKey key).run k = .ok b t) :
    ∃ dev blk, key = some (dev, blk) ∧ (bread dev blk).run k = .ok b t := by
  cases key with
  | none =>
      rw [breadKey, fault_run] at done
      cases done
  | some key =>
      rw [breadKey] at done
      exact ⟨key.1, key.2, rfl, done⟩

theorem advance_zero (x : File) : x.advance 0 = x := by
  simp [File.advance]

theorem advance_succ (x : File) (n : Nat) : (x.advance 1).advance n = x.advance (n + 1) := by
  have total : x.fOff + UInt64.ofNat 1 + UInt64.ofNat n = x.fOff + UInt64.ofNat (n + 1) := by
    rw [UInt64.add_assoc, ← UInt64.ofNat_add, Nat.add_comm]
  simp only [File.advance, total]

theorem set_file_same (k : Kernel) (f : FileId) : k.setFile f (k.files f) = k := by
  simp [Kernel.setFile]

theorem read_loop_length (f : FileId) (n : Nat) (b : BufId) (i : Fin blkSz) (k t : Kernel) (data : Bytes)
    (done : (readLoop f n b i).run k = .ok data t) : data.length = n := by
  induction n generalizing b i k data with
  | zero =>
      cases done
      rfl
  | succ n ih =>
      rw [readLoop] at done
      obtain ⟨_, s, seen, rest⟩ := (run_bind_ok _ _ _ _ _).mp done
      cases seen
      obtain ⟨_, s, moved, rest⟩ := (run_bind_ok _ _ _ _ _).mp rest
      cases moved
      split at rest
      · obtain ⟨later, s, ran, rest⟩ := (run_bind_ok _ _ _ _ _).mp rest
        cases rest
        rw [List.length_cons, ih _ _ _ _ ran]
      · obtain ⟨_, s, -, rest⟩ := (run_bind_ok _ _ _ _ _).mp rest
        obtain ⟨c, s, -, rest⟩ := (run_bind_ok _ _ _ _ _).mp rest
        obtain ⟨_, s, -, rest⟩ := (run_bind_ok _ _ _ _ _).mp rest
        obtain ⟨later, s, ran, rest⟩ := (run_bind_ok _ _ _ _ _).mp rest
        cases rest
        rw [List.length_cons, ih _ _ _ _ ran]

theorem read_loop_within (f : FileId) (n : Nat) (b : BufId) (i : Fin blkSz) (k : Kernel) (past : Nat → UInt8)
    (within : i.val + n < blkSz) :
    (readLoop f n b i).run k =
      .ok (window (k.blocks b).bData past i.val n) (k.setFile f ((k.files f).advance n)) := by
  induction n generalizing i k with
  | zero => simp [readLoop, window, advance_zero, set_file_same]
  | succ n ih =>
      have more : i.val + 1 < blkSz := by omega
      have later := ih ⟨i.val + 1, more⟩ (k.setFile f ((k.files f).advance 1)) (by simp; omega)
      simp only [readLoop, EStateM.run_bind, EStateM.run_get, EStateM.run_set, dif_pos more, later, EStateM.run_pure]
      simp [window_cons, advance_succ]

theorem sys_read_run (unset : Unset) (off size : UInt64) (fd : Int) (buffsize : UInt64) (k : Kernel)
    (clamp : unset.clamp = some (off, size)) :
    (sysRead unset fd buffsize).run k = (do
      let f ← openFile unset fd irusr irgrp iroth "sys_read: invalid fd"
        "sys_read: cannot read file (permission denied)"
      let b ← fileBlock f
      let k ← get
      let data ← readLoop f (if off + buffsize ≥ size then size - off else buffsize).toNat b (k.files f).place
      return ((data.length : Int), data) : Kern (Int × Bytes)).run k := by
  have mask : (if fread = 0 then 1 else 0 : UInt8) = 0 := rfl
  simp [sysRead, clamp, mask]

theorem sys_read_ok (unset : Unset) (fd : Int) (buffsize : UInt64) (k t : Kernel) (count : Int) (data : Bytes)
    (done : (sysRead unset fd buffsize).run k = .ok (count, data) t) :
    ∃ off size, unset.clamp = some (off, size) ∧ MayOpen k unset irusr irgrp iroth ∧
      data.length = (if off + buffsize ≥ size then size - off else buffsize).toNat := by
  cases clamp : unset.clamp with
  | none =>
      rw [sysRead, clamp, fault_run] at done
      cases done
  | some pair =>
      rw [sys_read_run unset pair.1 pair.2 fd buffsize k clamp] at done
      obtain ⟨f, s, opened, rest⟩ := (run_bind_ok _ _ _ _ _).mp done
      obtain ⟨rfl, -, may⟩ := open_file_ok k s unset fd _ _ _ _ _ f opened
      obtain ⟨b, u, shown, rest⟩ := (run_bind_ok _ _ _ _ _).mp rest
      rw [run_get_bind] at rest
      obtain ⟨bytes, v, ran, rest⟩ := (run_bind_ok _ _ _ _ _).mp rest
      cases rest
      exact ⟨pair.1, pair.2, rfl, may, read_loop_length f _ b _ u _ _ ran⟩

structure FileFrame (k t : Kernel) : Prop where
  current : t.current = k.current
  inodes : t.inodes = k.inodes
  procs : t.procs = k.procs
  opened : ∀ g, (t.files g).fInode = (k.files g).fInode

theorem file_frame_trans (k s t : Kernel) (first : FileFrame k s) (second : FileFrame s t) : FileFrame k t where
  current := second.current.trans first.current
  inodes := second.inodes.trans first.inodes
  procs := second.procs.trans first.procs
  opened := fun g => (second.opened g).trans (first.opened g)

theorem buffer_frame_files (k t : Kernel) (frame : BufferFrame k t) : FileFrame k t :=
  ⟨frame.current, frame.inodes, frame.procs, fun g => by rw [frame.files]⟩

section
variable (balloc : Dev → Kern BufId)

-- balloc(f->f_inode->i_dev); balloc itself is a parameter of the write.
def newBlock (f : FileId) : Kern BufId := do
  let k ← get
  match (k.files f).fInode with
  | none => fault
  | some ip => balloc (k.inodes ip).iDev

-- The loop of sys_write over the bytes to go; its answer lists the blocks from balloc.
def writeLoop (f : FileId) : Bytes → BufId → Fin blkSz → Kern (List Blk)
  | [], _, _ => return []
  | byte :: rest, b, i => do
      modify fun k => (k.setBlock b ((k.blocks b).putAt i byte)).setFile f ((k.files f).advance 1)
      if more : i.val + 1 < blkSz then writeLoop f rest b ⟨i.val + 1, more⟩
      else
        modify fun k => k.setBlock b { k.blocks b with bDirty := true }
        let _ ← brelease b
        let b ← newBlock balloc f
        let k ← get
        let later ← writeLoop f rest b (k.files f).place
        return (k.blocks b).bBlk :: later

def sysWrite (unset : Unset) (fd : Int) (buf : Bytes) : Kern (Int × List Blk) := do
  let f ← openFile unset fd iwusr iwgrp iwoth "sys_write: bad fd"
    "sys_read: cannot write file (permission denied)"
  let k ← get
  if (k.files f).fFlag &&& (if fwrt = 0 then 1 else 0) ≠ 0 then
    panic "sys_write: non writeable file"
  let b ← fileBlock f
  let k ← get
  let fresh ← writeLoop balloc f buf b (k.files f).place
  return ((buf.length : Int), fresh)

def Buffer.put (x : Buffer) (i : Nat) (data : Bytes) : Buffer := { x with bData := overlay x.bData i data }

theorem put_data (x : Buffer) (i : Nat) (data : Bytes) : (x.put i data).bData = overlay x.bData i data := rfl

theorem write_loop_within (f : FileId) (data : Bytes) (b : BufId) (i : Fin blkSz) (k : Kernel)
    (within : i.val + data.length < blkSz) :
    (writeLoop balloc f data b i).run k =
      .ok [] ((k.setBlock b ((k.blocks b).put i.val data)).setFile f ((k.files f).advance data.length)) := by
  induction data generalizing i k with
  | nil => simp [writeLoop, Buffer.put, advance_zero, Kernel.setBlock, Kernel.setFile]
  | cons byte rest ih =>
      have length : (byte :: rest).length = rest.length + 1 := rfl
      have more : i.val + 1 < blkSz := by omega
      have later := ih ⟨i.val + 1, more⟩
        ((k.setBlock b ((k.blocks b).putAt i byte)).setFile f ((k.files f).advance 1)) (by simp; omega)
      simp only [writeLoop, EStateM.run_bind, EStateM.run_modify, dif_pos more, later]
      simp [Kernel.setFile, Kernel.setBlock, Buffer.put, Buffer.putAt, overlay_cons, advance_succ]

def HandsFresh : Prop :=
  ∀ (k t : Kernel) (dev : Dev) (b : BufId), (balloc dev).run k = .ok b t →
    BufferFrame k t ∧ (t.blocks b).bDev = dev ∧
      ∀ i n, (k.inodes i).iDev = dev → (k.inodes i).iAddr n ≠ (t.blocks b).bBlk

theorem new_block_ok (fresh : HandsFresh balloc) (k t : Kernel) (f : FileId) (b : BufId)
    (done : (newBlock balloc f).run k = .ok b t) :
    FileFrame k t ∧ ∀ ip, (k.files f).fInode = some ip → ∀ n, (k.inodes ip).iAddr n ≠ (t.blocks b).bBlk := by
  rw [newBlock, run_get_bind] at done
  split at done
  · cases done
  · rename_i ip inode
    obtain ⟨frame, -, apart⟩ := fresh k t _ b done
    refine ⟨buffer_frame_files k t frame, fun jp same n => ?_⟩
    rw [inode] at same
    cases same
    exact apart ip n rfl

theorem store_frame (k : Kernel) (f : FileId) (b : BufId) (x : Buffer) (n : Nat) :
    FileFrame k ((k.setBlock b x).setFile f ((k.files f).advance n)) where
  current := rfl
  inodes := rfl
  procs := rfl
  opened := fun g => by
    by_cases same : g = f
    · subst same
      simp [File.advance]
    · simp [same]

theorem write_loop_turn (f : FileId) (byte : UInt8) (rest : Bytes) (b : BufId) (i : Fin blkSz) (k t : Kernel)
    (blocks : List Blk) (full : ¬ i.val + 1 < blkSz)
    (done : (writeLoop balloc f (byte :: rest) b i).run k = .ok blocks t) :
    ∃ s c u later, FileFrame k s ∧ (newBlock balloc f).run s = .ok c u ∧
      (writeLoop balloc f rest c (u.files f).place).run u = .ok later t ∧ blocks = (u.blocks c).bBlk :: later := by
  rw [writeLoop] at done
  obtain ⟨_, s, wrote, after⟩ := (run_bind_ok _ _ _ _ _).mp done
  cases wrote
  rw [dif_neg full] at after
  obtain ⟨_, s, dirty, after⟩ := (run_bind_ok _ _ _ _ _).mp after
  cases dirty
  obtain ⟨r, s, released, after⟩ := (run_bind_ok _ _ _ _ _).mp after
  obtain ⟨c, u, got, after⟩ := (run_bind_ok _ _ _ _ _).mp after
  rw [run_get_bind] at after
  obtain ⟨later, v, ran, after⟩ := (run_bind_ok _ _ _ _ _).mp after
  cases after
  have marked := buffer_frame_trans _ _ _ (set_block_frame _ b _) (brelease_frame _ s b r released)
  exact ⟨s, c, u, later, file_frame_trans _ _ _ (store_frame k f b _ 1) (buffer_frame_files _ s marked), got, ran, rfl⟩

theorem write_loop_frame (fresh : HandsFresh balloc) (f : FileId) (data : Bytes) (b : BufId) (i : Fin blkSz)
    (k t : Kernel) (blocks : List Blk) (done : (writeLoop balloc f data b i).run k = .ok blocks t) :
    FileFrame k t ∧ ∀ ip, (k.files f).fInode = some ip → ∀ blk ∈ blocks, ∀ n, (k.inodes ip).iAddr n ≠ blk := by
  induction data generalizing b i k blocks with
  | nil =>
      cases done
      exact ⟨⟨rfl, rfl, rfl, fun _ => rfl⟩, fun ip _ blk member => by cases member⟩
  | cons byte rest ih =>
      by_cases more : i.val + 1 < blkSz
      · rw [writeLoop] at done
        obtain ⟨_, s, wrote, after⟩ := (run_bind_ok _ _ _ _ _).mp done
        cases wrote
        rw [dif_pos more] at after
        have stored := store_frame k f b ((k.blocks b).putAt i byte) 1
        obtain ⟨frame, apart⟩ := ih _ _ _ _ after
        exact ⟨file_frame_trans _ _ _ stored frame, fun ip inode => apart ip ((stored.opened f).trans inode)⟩
      · obtain ⟨s, c, u, later, stored, got, ran, rfl⟩ := write_loop_turn balloc f byte rest b i k t blocks more done
        obtain ⟨grown, other⟩ := new_block_ok balloc fresh s u f c got
        obtain ⟨frame, apart⟩ := ih _ _ _ _ ran
        have before := file_frame_trans _ _ _ stored grown
        refine ⟨file_frame_trans _ _ _ before frame, fun ip named blk member n => ?_⟩
        rcases List.mem_cons.mp member with rfl | member
        · rw [← stored.inodes]
          exact other ip ((stored.opened f).trans named) n
        · rw [← before.inodes]
          exact apart ip ((before.opened f).trans named) blk member n

theorem write_loop_allocs (f : FileId) (data : Bytes) (b : BufId) (i : Fin blkSz) (k t : Kernel) (blocks : List Blk)
    (done : (writeLoop balloc f data b i).run k = .ok blocks t) (beyond : blkSz ≤ i.val + data.length) :
    blocks ≠ [] := by
  induction data generalizing b i k blocks with
  | nil =>
      have inside := i.isLt
      simp at beyond
      omega
  | cons byte rest ih =>
      by_cases more : i.val + 1 < blkSz
      · rw [writeLoop] at done
        obtain ⟨_, s, wrote, after⟩ := (run_bind_ok _ _ _ _ _).mp done
        rw [dif_pos more] at after
        exact ih _ _ _ _ after (by simp at beyond ⊢; omega)
      · obtain ⟨s, c, u, later, -, -, -, rfl⟩ := write_loop_turn balloc f byte rest b i k t blocks more done
        exact List.cons_ne_nil _ _

theorem sys_write_run (unset : Unset) (fd : Int) (buf : Bytes) (k : Kernel) :
    (sysWrite balloc unset fd buf).run k = (do
      let f ← openFile unset fd iwusr iwgrp iwoth "sys_write: bad fd"
        "sys_read: cannot write file (permission denied)"
      let b ← fileBlock f
      let k ← get
      let fresh ← writeLoop balloc f buf b (k.files f).place
      return ((buf.length : Int), fresh) : Kern (Int × List Blk)).run k := by
  have mask : (if fwrt = 0 then 1 else 0 : UInt8) = 0 := rfl
  simp [sysWrite, mask]

theorem sys_write_ok (unset : Unset) (fd : Int) (buf : Bytes) (k t : Kernel) (count : Int) (blocks : List Blk)
    (done : (sysWrite balloc unset fd buf).run k = .ok (count, blocks) t) :
    ∃ f b s, (k.procs k.current).filp fd = some (some f) ∧ MayOpen k unset iwusr iwgrp iwoth ∧
      (fileBlock f).run k = .ok b s ∧ (writeLoop balloc f buf b (s.files f).place).run s = .ok blocks t := by
  rw [sys_write_run] at done
  obtain ⟨f, s, opened, rest⟩ := (run_bind_ok _ _ _ _ _).mp done
  obtain ⟨rfl, named, may⟩ := open_file_ok k s unset fd _ _ _ _ _ f opened
  obtain ⟨b, u, shown, rest⟩ := (run_bind_ok _ _ _ _ _).mp rest
  rw [run_get_bind] at rest
  obtain ⟨fresh, v, ran, rest⟩ := (run_bind_ok _ _ _ _ _).mp rest
  cases rest
  exact ⟨f, b, u, named, may, shown, ran⟩

end

end Yaup
