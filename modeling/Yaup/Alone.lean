import Yaup.Steps

set_option autoImplicit false

namespace Yaup

open Lib

namespace Steps

variable {α β : Type}

@[simp] theorem alone_bind (x : Steps α) (f : α → Steps β) : alone (x >>= f) = alone x >>= fun a => alone (f a) :=
  Prog.alone_bind _ _ x f

@[simp] theorem alone_pure (a : α) : alone (pure a) = pure a := rfl

@[simp] theorem alone_state : alone Prog.state = get := rfl

@[simp] theorem alone_change (f : Kernel → Kernel) : alone (Prog.change f) = modify f := rfl

@[simp] theorem alone_acquire (l : Lock) : alone (Prog.acquire l) = Yaup.acquire l := Prog.alone_acquire _ _ l

@[simp] theorem alone_release (l : Lock) : alone (Prog.release l) = Yaup.release l := Prog.alone_release _ _ l

@[simp] theorem alone_tell (n : Note) : alone (Prog.tell n) = pure () := rfl

@[simp] theorem alone_panic (msg : String) : alone (panic msg : Steps α) = Yaup.panic msg := rfl

@[simp] theorem alone_fault : alone (fault : Steps α) = Yaup.fault := rfl

@[simp] theorem alone_initlock (l : Lock) : alone (initlock l) = Yaup.initlock l := alone_release l

@[simp] theorem alone_holdingsleep (l : Lock) : alone (holdingsleep l) = Yaup.holdingsleep l := rfl

@[simp] theorem alone_ite (c : Prop) [Decidable c] (x y : Steps α) :
    alone (if c then x else y) = if c then alone x else alone y := apply_ite alone c x y

theorem alone_only (x : Steps α) (call : Kern α) (same : x.alone = call) : x.only.alone = discard call := by
  rw [only, alone_bind, same]
  rfl

theorem get_set (g : Kernel → Kernel) (rest : Kernel → Kern α) :
    (get >>= fun k => set (g k) >>= fun _ => rest k) = (get >>= fun k => modify g >>= fun _ => rest k) := rfl

theorem modify_twice (f g : Kernel → Kernel) (rest : Kern α) :
    (modify f >>= fun _ => modify g >>= fun _ => rest) = (modify (fun k => g (f k)) >>= fun _ => rest) := rfl

theorem set_block_twice (k : Kernel) (b : BufId) (x y : Buffer) : (k.setBlock b x).setBlock b y = k.setBlock b y := by
  simp [Kernel.setBlock]

theorem set_file_twice (k : Kernel) (f : FileId) (x y : File) : (k.setFile f x).setFile f y = k.setFile f y := by
  simp [Kernel.setFile]

theorem alone_bget (dev : Dev) (blk : Blk) : alone (bget dev blk) = Yaup.bget dev blk := by
  rw [bget, Yaup.bget, alone_bind, alone_acquire]
  refine bind_congr fun _ => ?_
  rw [alone_bind, alone_state]
  funext k
  change EStateM.run _ k = EStateM.run _ k
  rw [run_get_bind, run_get_bind]
  generalize findBlock k dev blk = found
  generalize freeBlock k = unused
  cases found with
  | some b => simp only [bgetFound, alone_bind, alone_release, alone_pure]
  | none =>
      cases unused with
      | some b =>
          simp only [bgetFound, alone_bind, alone_change, alone_initlock, alone_release, alone_pure, modify_twice,
            Kernel.setBlock_blocks, Function.update_self, set_block_twice]
          rfl
      | none => rfl

theorem alone_bread_body (b : BufId) : alone (breadBody b) = Yaup.breadBody b := by
  simp [breadBody, Yaup.breadBody, diskRead]

theorem alone_bread (dev : Dev) (blk : Blk) : alone (bread dev blk) = Yaup.bread dev blk := by
  simp [bread, Yaup.bread, alone_bget, alone_bread_body]

theorem alone_bwrite (b : BufId) : alone (bwrite b) = Yaup.bwrite b := by
  rw [bwrite, Yaup.bwrite, diskWrite, alone_bind, alone_tell, pure_bind, alone_bind, alone_acquire]
  refine bind_congr fun _ => ?_
  rw [alone_bind, alone_state]
  refine bind_congr fun k => ?_
  by_cases dirty : (k.blocks b).bDirty
  · simp only [dirty, not_true_eq_false, if_false, alone_bind, alone_change, alone_state]
    refine bind_congr fun _ => bind_congr fun _ => ?_
    funext s
    by_cases last : (s.blocks b).bCount = 0
    · simp only [alone_ite, alone_bind, alone_change, modify_twice, Kernel.setBlock_blocks, Function.update_self,
        set_block_twice]
      change EStateM.run _ s = EStateM.run _ s
      rw [run_get_bind, run_get_bind, if_pos last, if_pos last]
      rfl
    · simp only [alone_ite]
      change EStateM.run _ s = EStateM.run _ s
      rw [run_get_bind, run_get_bind, if_neg last, if_neg last]
      rfl
  · simp [dirty]

theorem alone_brelease (b : BufId) : alone (brelease b) = Yaup.brelease b := by
  simp [brelease, Yaup.brelease]

theorem alone_sbread (dev : Dev) : alone (sbread dev) = Yaup.sbread dev := by
  simp [sbread, Yaup.sbread, alone_bread, alone_brelease]

theorem alone_iget_load (free : InodeId) (dev : Dev) (num : Ino) :
    alone (igetLoad free dev num) = Yaup.igetLoad free dev num := by
  simp [igetLoad, Yaup.igetLoad, alone_bread, alone_brelease, modify_twice]

theorem alone_iget_found (dev : Dev) (num : Ino) (found : InodeId ⊕ Option InodeId) :
    alone (igetFound dev num found) = Yaup.igetFound dev num found := by
  rcases found with i | _ | free
  · simp [igetFound, Yaup.igetFound]
  · rfl
  · exact alone_iget_load free dev num

theorem alone_iget (dev : Dev) (num : Ino) : alone (iget dev num) = Yaup.iget dev num := by
  simp [iget, Yaup.iget, alone_iget_found]

theorem alone_iput (i : InodeId) : alone (iput i) = Yaup.iput i := by
  simp [iput, Yaup.iput, alone_bread, alone_bwrite, modify_twice]

theorem alone_ilock (i : InodeId) : alone (ilock i) = Yaup.ilock i := by
  simp [ilock, Yaup.ilock]

theorem alone_irelease (i : InodeId) : alone (irelease i) = Yaup.irelease i := by
  simp [irelease, Yaup.irelease]

theorem alone_ifree (i : InodeId) : alone (ifree i) = Yaup.ifree i := by
  simp [ifree, Yaup.ifree, alone_bread, alone_bwrite]

theorem alone_dir_search (ip : InodeId) (entry : List UInt8) (slots : List Nat) :
    alone (dirSearch ip entry slots) = Yaup.dirSearch ip entry slots := by
  induction slots with
  | nil => rfl
  | cons n rest ih =>
      simp only [dirSearch, Yaup.dirSearch, alone_bind, alone_state, alone_bread]
      refine bind_congr fun k => bind_congr fun b => bind_congr fun t => ?_
      cases searchBlock t b entry with
      | some num => rfl
      | none => simp only [alone_bind, alone_brelease, ih]

theorem alone_dir_lookup (ip : InodeId) (entry : List UInt8) :
    alone (dirLookup ip entry) = Yaup.dirLookup ip entry := by
  rw [dirLookup, Yaup.dirLookup, alone_bind, alone_dir_search]
  refine bind_congr fun found => ?_
  cases found with
  | none => rfl
  | some key => simp only [alone_bind, alone_iget, alone_pure]

theorem alone_namei_loop (i : Option InodeId) (path : List UInt8) :
    alone (nameiLoop i path) = Yaup.nameiLoop i path := by
  fun_induction Yaup.nameiLoop i path with
  | case1 i => simp [nameiLoop]
  | case2 more ip => simp [nameiLoop]
  | case3 more => simp [nameiLoop]
  | case4 i byte more named found =>
      unfold nameiLoop
      rw [if_neg named]
      split
      · rfl
      · rename_i split
        rw [found] at split
        cases split
  | case5 byte more named entry rest found =>
      unfold nameiLoop
      rw [if_neg named]
      split <;> rfl
  | case6 byte more named entry rest found ip ih =>
      unfold nameiLoop
      rw [if_neg named]
      split
      · rename_i split
        rw [found] at split
        cases split
      · rename_i split
        rw [found] at split
        cases split
        simp only [alone_bind, alone_dir_lookup]
        refine bind_congr fun answer => ?_
        cases answer with
        | none => rfl
        | some j => exact ih j

theorem alone_namei (path : List UInt8) : alone (namei path) = Yaup.namei path := by
  cases path with
  | nil => rfl
  | cons byte rest => simp only [namei, Yaup.namei, alone_bind, alone_state, alone_ite, alone_namei_loop]

theorem alone_fget_found (i : InodeId) (flags : UInt32) (found : FileId ⊕ Option FileId) :
    alone (fgetFound i flags found) = Yaup.fgetFound i flags found := by
  rcases found with f | _ | empty <;> simp [fgetFound, Yaup.fgetFound, modify_twice]

theorem alone_fget (i : InodeId) (flags : UInt32) : alone (fget i flags) = Yaup.fget i flags := by
  simp only [fget, Yaup.fget, alone_bind, alone_acquire, alone_state, alone_fget_found]

theorem alone_fdget : alone fdget = Yaup.fdget := by
  rw [fdget, Yaup.fdget, alone_bind, alone_acquire]
  refine bind_congr fun _ => ?_
  rw [alone_bind, alone_state]
  refine bind_congr fun k => ?_
  generalize freeFd (k.procs k.current) = found
  cases found <;> simp

theorem alone_open_inode (i : InodeId) (flags : UInt32) : alone (openInode i flags) = Yaup.openInode i flags := by
  rw [openInode, Yaup.openInode, alone_bind, alone_state]
  refine bind_congr fun k => ?_
  rw [alone_ite]
  simp only [alone_bind, alone_iput, alone_panic, alone_fget]
  congr 1
  refine bind_congr fun file => ?_
  cases file with
  | none => simp only [alone_bind, alone_iput, alone_panic]
  | some f =>
      simp only [alone_bind, alone_fdget]
      refine bind_congr fun answer => ?_
      cases answer <;> simp [alone_iput]

theorem alone_sys_open (path : List UInt8) (flags : UInt32) (mode : UInt16) :
    alone (sysOpen path flags mode) = Yaup.sysOpen path flags mode := by
  simp only [sysOpen, Yaup.sysOpen, alone_bind, alone_namei, alone_open_inode]

theorem alone_close_last (f : FileId) : alone (closeLast f) = Yaup.closeLast f := by
  simp only [closeLast, Yaup.closeLast, alone_bind, alone_change, alone_state]
  refine bind_congr fun _ => bind_congr fun k => ?_
  cases (k.files f).fInode with
  | none => rfl
  | some i =>
      simp only [alone_bind, alone_iput, alone_change, alone_release, modify_twice, Kernel.setFile_files,
        Function.update_self, set_file_twice]
      rfl

theorem alone_sys_close (fd : Int) : alone (sysClose fd) = Yaup.sysClose fd := by
  rw [sysClose, Yaup.sysClose]
  simp only [alone_ite, alone_bind, alone_state, alone_panic]
  congr 1
  refine bind_congr fun k => ?_
  by_cases inside : fd.toNat < nrOfiles
  · rw [dif_pos inside, dif_pos inside]
    cases (k.procs k.current).pFilp ⟨fd.toNat, inside⟩ with
    | none => rfl
    | some f =>
        simp only [alone_ite, alone_bind, alone_acquire, alone_change, alone_state, alone_close_last, alone_release,
          alone_pure]
  · rw [dif_neg inside, dif_neg inside]
    rfl

theorem alone_stat_inode (i : InodeId) : alone (statInode i) = Yaup.statInode i := by
  simp only [statInode, Yaup.statInode, alone_bind, alone_ilock, alone_state, alone_iput, alone_irelease, alone_pure]

theorem alone_sys_stat (path : List UInt8) : alone (sysStat path) = Yaup.sysStat path := by
  simp only [sysStat, Yaup.sysStat, alone_bind, alone_namei, alone_stat_inode]

section
variable (getFreePosAt : Kernel → UInt8 → Option UInt64) (getFreePos : Block → UInt64)

theorem alone_balloc_scan (dev : Dev) (b : BufId) (left : Nat) :
    alone (ballocScan getFreePosAt dev b left) = Yaup.ballocScan getFreePosAt dev b left := by
  induction left with
  | zero => rfl
  | succ left ih =>
      simp only [ballocScan, Yaup.ballocScan, alone_bind, alone_state]
      refine bind_congr fun k => ?_
      cases getFreePosAt k (dataByte k b (blkSz - left)) with
      | none => rfl
      | some blk => simp only [alone_ite, alone_bget, ih]

theorem alone_balloc (unset : Option BufId) (turns : Nat) (dev : Dev) :
    alone (balloc getFreePosAt unset turns dev) = Yaup.balloc getFreePosAt unset turns dev := by
  rw [balloc, Yaup.balloc]
  induction turns generalizing unset with
  | zero => rfl
  | succ turns ih =>
      simp only [ballocLoop, Yaup.ballocLoop, alone_bind, alone_state, alone_ite, alone_bread, alone_balloc_scan, ih,
        alone_pure]

theorem alone_balloc_buffer (unset : Option BufId) (turns : Nat) (dev : Dev) :
    alone (ballocBuffer getFreePosAt unset turns dev) = Yaup.ballocBuffer getFreePosAt unset turns dev := by
  rw [ballocBuffer, Yaup.ballocBuffer, alone_bind, alone_balloc]
  refine bind_congr fun answer => ?_
  cases answer <;> rfl

theorem alone_ialloc_loop (unset : Option InodeId) (dev : Dev) (left c : Nat) :
    alone (iallocLoop getFreePos unset dev left c) = Yaup.iallocLoop getFreePos unset dev left c := by
  induction left generalizing c with
  | zero => rfl
  | succ left ih =>
      simp only [iallocLoop, Yaup.iallocLoop, alone_bind, alone_state, alone_ite, alone_bread, alone_iget, ih, alone_pure]

theorem alone_ialloc (unset : Option InodeId) (dev : Dev) :
    alone (ialloc getFreePos unset dev) = Yaup.ialloc getFreePos unset dev :=
  alone_ialloc_loop getFreePos unset dev (intMax + 1) 0

end

theorem alone_bfree (setPosAt : UInt8 → UInt64 → Option (Kernel → Kernel)) (dev : Dev) (blk : Blk) :
    alone (bfree setPosAt dev blk) = Yaup.bfree setPosAt dev blk := by
  simp only [bfree, Yaup.bfree, alone_bind, alone_state, alone_bread]
  refine bind_congr fun k => bind_congr fun b => bind_congr fun t => ?_
  cases setPosAt (dataByte t b (blk.toNat % sizeofBitmap)) (UInt64.ofNat (blk.toNat % sizeofBitmap)) with
  | none => rfl
  | some write => simp only [alone_bind, alone_change, alone_brelease, alone_pure]

theorem alone_open_file (unset : Unset) (fd : Int) (usr grp oth : UInt16) (bad denied : String) :
    alone (openFile unset fd usr grp oth bad denied) = Yaup.openFile unset fd usr grp oth bad denied := by
  rw [openFile, Yaup.openFile]
  simp only [alone_ite, alone_bind, alone_state, alone_panic, alone_acquire]
  by_cases high : fd ≥ nrOfiles
  · rw [if_pos high, if_pos high]
    rfl
  · rw [if_neg high, if_neg high]
    refine bind_congr fun k => bind_congr fun _ => ?_
    generalize (k.procs k.current).filp fd = slot
    rcases slot with _ | _ | f
    · rfl
    · rfl
    · cases unset.inode with
      | none => rfl
      | some x => simp only [alone_ite, alone_bind, alone_panic, alone_release, alone_pure]

theorem alone_file_block (f : FileId) : alone (fileBlock f) = Yaup.fileBlock f := by
  rw [fileBlock, Yaup.fileBlock, alone_bind, alone_state]
  refine bind_congr fun k => ?_
  cases fileKey k f with
  | none => rfl
  | some key => exact alone_bread key.1 key.2

theorem alone_read_loop (f : FileId) (n : Nat) (b : BufId) (i : Fin blkSz) :
    alone (readLoop f n b i) = Yaup.readLoop f n b i := by
  induction n generalizing b i with
  | zero => rfl
  | succ n ih =>
      rw [readLoop, Yaup.readLoop, get_set, alone_bind, alone_state]
      refine bind_congr fun k => ?_
      simp only [alone_bind, alone_change]
      split
      · simp only [alone_bind, ih, alone_pure]
      · simp only [alone_bind, alone_brelease, alone_file_block, alone_state, ih, alone_pure]

theorem alone_sys_read (unset : Unset) (fd : Int) (buffsize : UInt64) :
    alone (sysRead unset fd buffsize) = Yaup.sysRead unset fd buffsize := by
  rw [sysRead, Yaup.sysRead]
  cases unset.clamp with
  | none => rfl
  | some pair => simp [alone_open_file, alone_file_block, alone_read_loop]

section
variable (balloc : Dev → Steps BufId)

theorem alone_new_block (f : FileId) :
    alone (newBlock balloc f) = Yaup.newBlock (fun dev => alone (balloc dev)) f := by
  rw [newBlock, Yaup.newBlock, alone_bind, alone_state]
  refine bind_congr fun k => ?_
  cases (k.files f).fInode with
  | none => rfl
  | some ip => simp

theorem alone_write_loop (f : FileId) (data : Bytes) (b : BufId) (i : Fin blkSz) :
    alone (writeLoop balloc f data b i) = Yaup.writeLoop (fun dev => alone (balloc dev)) f data b i := by
  induction data generalizing b i with
  | nil => rfl
  | cons byte rest ih =>
      rw [writeLoop, Yaup.writeLoop]
      simp only [alone_bind, alone_change, modify_twice, Kernel.setBlock_files]
      refine bind_congr fun _ => ?_
      split
      · exact ih _ _
      · simp only [alone_bind, alone_change, alone_brelease, alone_new_block, alone_state, ih, alone_pure]

theorem alone_sys_write (unset : Unset) (fd : Int) (buf : Bytes) :
    alone (sysWrite balloc unset fd buf) = Yaup.sysWrite (fun dev => alone (balloc dev)) unset fd buf := by
  simp only [sysWrite, Yaup.sysWrite, alone_bind, alone_open_file, alone_state, alone_ite, alone_panic,
    alone_file_block, alone_write_loop, alone_pure]

end

end Steps
end Yaup
