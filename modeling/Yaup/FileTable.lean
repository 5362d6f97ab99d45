import Yaup.CallFrame

set_option autoImplicit false

namespace Yaup

open Lib

-- The first slot that ends the loop of fget: one with the number of the inode, or one
-- whose number cannot be read.
def stopFile (k : Kernel) (i : InodeId) : Option FileId :=
  Fin.find? fun f => decide (fileNum k f = none ∨ fileNum k f = some (k.inodes i).iNum)

def freeFile (k : Kernel) : Option FileId := Fin.find? fun f => decide ((k.files f).fCount = 0)

def picked (k : Kernel) (i : InodeId) (flags : UInt32) : Option (FileId × File) :=
  match stopFile k i with
  | some f => if fileNum k f = none then none else some (f, (k.files f).shared)
  | none => (freeFile k).map fun e => (e, (k.files e).opened i (k.inodes i).iMode flags)

theorem stop_file_some (k : Kernel) (i : InodeId) (f : FileId) :
    stopFile k i = some f ↔
      (fileNum k f = none ∨ fileNum k f = some (k.inodes i).iNum) ∧
        ∀ g < f, fileNum k g ≠ none ∧ fileNum k g ≠ some (k.inodes i).iNum := by
  simp only [stopFile, Fin.find?_eq_some_iff, decide_eq_true_eq, decide_eq_false_iff_not, not_or, ne_eq]

theorem stop_file_none (k : Kernel) (i : InodeId) :
    stopFile k i = none ↔ ∀ f, fileNum k f ≠ none ∧ fileNum k f ≠ some (k.inodes i).iNum := by
  simp only [stopFile, Fin.find?_eq_none_iff, decide_eq_false_iff_not, not_or, ne_eq]

theorem free_file_some (k : Kernel) (f : FileId) :
    freeFile k = some f ↔ (k.files f).fCount = 0 ∧ ∀ g < f, (k.files g).fCount ≠ 0 := by
  simp only [freeFile, Fin.find?_eq_some_iff, decide_eq_true_eq, decide_eq_false_iff_not, ne_eq]

theorem free_file_none (k : Kernel) : freeFile k = none ↔ ∀ f, (k.files f).fCount ≠ 0 := by
  simp only [freeFile, Fin.find?_eq_none_iff, decide_eq_false_iff_not, ne_eq]

theorem fget_loop_searches (k : Kernel) (i : InodeId) :
    fgetLoop k i = ((stopFile k i).map .inl).getD (.inr (freeFile k)) := by
  rw [fgetLoop, scan_searches, stopFile, freeFile, Fin.find?_eq_find?_finRange, Fin.find?_eq_find?_finRange,
    Option.none_or]

theorem fget_blocked (k : Kernel) (i : InodeId) (flags : UInt32) (taken : k.locks .openFiles ≠ none) :
    (fget i flags).run k = .error (.blocked .openFiles) k := by
  rw [fget, EStateM.run_bind, acquire_blocked k .openFiles taken]

theorem fget_loop_lock (k : Kernel) (l : Lock) (i : InodeId) : fgetLoop (k.lock l) i = fgetLoop k i := rfl

theorem fget_free (k : Kernel) (i : InodeId) (flags : UInt32) (free : k.locks .openFiles = none) :
    (fget i flags).run k =
      (fgetFound i flags (((stopFile k i).map .inl).getD (.inr (freeFile k)))).run (k.lock .openFiles) := by
  rw [fget, acquire_get .openFiles k _ free, fget_loop_lock, fget_loop_searches]

theorem fget_hit (k : Kernel) (i : InodeId) (flags : UInt32) (f : FileId) (free : k.locks .openFiles = none)
    (stop : stopFile k i = some f) (seen : fileNum k f ≠ none) :
    (fget i flags).run k = .ok (some f) (k.setFile f (k.files f).shared) := by
  have same : fileNum (k.lock .openFiles) f = fileNum k f := rfl
  rw [fget_free k i flags free, stop, Option.map_some, Option.getD_some, fgetFound, run_get_bind, same, if_neg seen]
  have back : ((k.lock .openFiles).unlock .openFiles).setFile f (k.files f).shared = k.setFile f (k.files f).shared := by
    rw [Kernel.unlock_lock k _ free]
  rw [← back]
  rfl

theorem fget_wild (k : Kernel) (i : InodeId) (flags : UInt32) (f : FileId) (free : k.locks .openFiles = none)
    (stop : stopFile k i = some f) (unseen : fileNum k f = none) :
    (fget i flags).run k = .error .fault (k.lock .openFiles) := by
  have same : fileNum (k.lock .openFiles) f = fileNum k f := rfl
  rw [fget_free k i flags free, stop, Option.map_some, Option.getD_some, fgetFound, run_get_bind, same, if_pos unseen]
  rfl

theorem fget_full (k : Kernel) (i : InodeId) (flags : UInt32) (free : k.locks .openFiles = none)
    (miss : stopFile k i = none) (full : freeFile k = none) : (fget i flags).run k = .ok none k := by
  rw [fget_free k i flags free, miss, full, Option.map_none, Option.getD_none, fgetFound]
  simp only [EStateM.run_bind, release_run, EStateM.run_pure, Kernel.unlock_lock k .openFiles free]

theorem fget_empty (k : Kernel) (i : InodeId) (flags : UInt32) (f : FileId) (free : k.locks .openFiles = none)
    (miss : stopFile k i = none) (unused : freeFile k = some f) :
    (fget i flags).run k =
      .ok (some f) ((k.setFile f ((k.files f).opened i (k.inodes i).iMode flags)).unlock (.file f)) := by
  rw [fget_free k i flags free, miss, unused, Option.map_none, Option.getD_none, fgetFound]
  let x := (k.files f).opened i (k.inodes i).iMode flags
  have back : ((k.setFile f x).lock .openFiles).unlock .openFiles = k.setFile f x :=
    Kernel.unlock_lock (k.setFile f x) .openFiles free
  have swap : (((k.setFile f x).lock .openFiles).unlock (.file f)).unlock .openFiles =
      (((k.setFile f x).lock .openFiles).unlock .openFiles).unlock (.file f) := by
    simp only [Kernel.unlock]
    rw [Function.update_comm (by simp)]
  rw [← back, ← swap]
  rfl

theorem fget_picks (k : Kernel) (i : InodeId) (flags : UInt32) (f : FileId) (x : File)
    (free : k.locks .openFiles = none) (pick : picked k i flags = some (f, x)) :
    ∃ s, (fget i flags).run k = .ok (some f) s ∧ TableFrame (k.setFile f x) s ∧ s.blocks = k.blocks ∧
      ∀ l, k.locks l = none → s.locks l = none := by
  rcases Option.eq_none_or_eq_some (stopFile k i) with stop | ⟨g, stop⟩
  · unfold picked at pick
    rw [stop] at pick
    obtain ⟨g, unused, same⟩ := Option.map_eq_some_iff.mp pick
    obtain ⟨rfl, rfl⟩ := Prod.mk.inj same
    refine ⟨_, fget_empty k i flags g free stop unused, ?_⟩
    generalize (k.files g).opened i (k.inodes i).iMode flags = x
    refine ⟨⟨rfl, rfl, rfl, rfl, rfl⟩, rfl, fun l unlocked => ?_⟩
    by_cases same : l = .file g
    · rw [same]
      exact Function.update_self _ _ _
    · exact (Function.update_of_ne same _ _).trans unlocked
  · unfold picked at pick
    rw [stop] at pick
    dsimp only at pick
    split at pick
    · cases pick
    · rename_i seen
      obtain ⟨rfl, rfl⟩ := Prod.mk.inj (Option.some.inj pick)
      exact ⟨_, fget_hit k i flags g free stop seen, table_frame_refl _, rfl, fun _ unlocked => unlocked⟩

theorem fget_passes (k : Kernel) (i : InodeId) (flags : UInt32) (free : k.locks .openFiles = none)
    (pick : picked k i flags = none) :
    ((fget i flags).run k = .ok none k ∧ stopFile k i = none ∧ freeFile k = none) ∨
      ((fget i flags).run k = .error .fault (k.lock .openFiles) ∧
        ∃ f, stopFile k i = some f ∧ fileNum k f = none) := by
  rcases Option.eq_none_or_eq_some (stopFile k i) with stop | ⟨g, stop⟩
  · unfold picked at pick
    rw [stop] at pick
    have full := Option.map_eq_none_iff.mp pick
    exact .inl ⟨fget_full k i flags free stop full, stop, full⟩
  · unfold picked at pick
    rw [stop] at pick
    dsimp only at pick
    split at pick
    · rename_i unseen
      exact .inr ⟨fget_wild k i flags g free stop unseen, g, stop, unseen⟩
    · cases pick

theorem fget_picked (k t : Kernel) (i : InodeId) (flags : UInt32) (f : FileId)
    (got : (fget i flags).run k = .ok (some f) t) :
    ∃ x, picked k i flags = some (f, x) ∧ TableFrame (k.setFile f x) t := by
  have free := (fget_cases k t i flags (some f) got).1
  rcases Option.eq_none_or_eq_some (picked k i flags) with none | ⟨⟨g, x⟩, pick⟩
  · rcases fget_passes k i flags free none with ⟨run, -⟩ | ⟨run, -⟩
    · cases run.symm.trans got
    · cases run.symm.trans got
  · obtain ⟨s, run, frame, -, -⟩ := fget_picks k i flags g x free pick
    cases run.symm.trans got
    exact ⟨x, pick, frame⟩

def opens (k : Kernel) (i : InodeId) (flags : UInt32) : Option (FileId × File) :=
  if (k.inodes i).iMode &&& ifmt = ifreg then picked k i flags else none

def Kernel.opened (k : Kernel) (f : FileId) (x : File) (fd : Fin nrOfiles) : Kernel :=
  (k.setFile f x).setProc k.current { k.procs k.current with
    pFilp := Function.update (k.procs k.current).pFilp fd (some f) }

def Over {α : Type} (call : Kern α) (k t : Kernel) : Prop :=
  (∃ a, call.run k = .ok a t) ∨ ∃ e, call.run k = .error e t ∧ ∀ l, e ≠ .blocked l

def Unwritable (k : Kernel) (i : InodeId) : Prop :=
  (k.inodes i).iFlag &&& idirt ≠ 0 ∧
    findBlock k (k.inodes i).iDev (tableBlk k (k.inodes i).iDev (k.inodes i).iNum) = none ∧ freeBlock k = none

theorem bread_stops (k t : Kernel) (dev : Dev) (blk : Blk) (e : Halt) (halted : (bread dev blk).run k = .error e t) :
    e = .blocked .buffer ∨ (findBlock k dev blk = none ∧ freeBlock k = none) := by
  by_cases free : k.locks .buffer = none
  · right
    by_contra slot
    obtain ⟨b, u, done⟩ := (bread_returns_iff k dev blk).mpr ⟨free, Decidable.not_and_iff_or_not.mp slot⟩
    cases halted.symm.trans done
  · rw [bread_blocked k dev blk free] at halted
    cases halted
    exact .inl rfl

theorem table_steady (k : Kernel) : Steady (TableFrame k) := fun _ _ frame same =>
  ⟨frame.current.trans same.current, frame.superblock.trans same.superblock, frame.inodes.trans same.inodes,
    frame.files.trans same.files, frame.procs.trans same.procs⟩

theorem iput_stops (k t : Kernel) (i : InodeId) (e : Halt) (halted : (iput i).run k = .error e t) :
    (∃ l, e = .blocked l) ∨ (Unwritable k i ∧ TableFrame k t) := by
  by_cases free : k.locks (.ino i) = none
  · by_cases dirty : (k.inodes i).iFlag &&& idirt = 0
    · rw [iput_clean k i free dirty] at halted
      cases halted
    · rw [iput_dirty k i free dirty] at halted
      revert halted
      cases read : (bread (k.inodes i).iDev (tableBlk k (k.inodes i).iDev (k.inodes i).iNum)).run (k.lock (.ino i)) with
      | error d s =>
          intro halted
          cases halted
          rcases bread_stops _ t _ _ e read with rfl | full
          · exact .inl ⟨_, rfl⟩
          · have kept := bread_keeps (TableFrame k) (table_steady k) (k.inodes i).iDev
              (tableBlk k (k.inodes i).iDev (k.inodes i).iNum) (k.lock (.ino i)) ⟨rfl, rfl, rfl, rfl, rfl⟩
            exact .inr ⟨⟨dirty, full⟩, kept.2 e t read⟩
      | ok b s =>
          dsimp only
          rw [bwrite_run]
          by_cases held : (s.storeInode b i).locks (.buf b) = none
          · rw [if_pos held]
            intro halted
            cases halted
          · rw [if_neg held]
            intro halted
            cases halted
            exact .inl ⟨_, rfl⟩
  · rw [iput_blocked k i free] at halted
    cases halted
    exact .inl ⟨_, rfl⟩

theorem iput_writable (k t : Kernel) (i : InodeId) (r : Int) (done : (iput i).run k = .ok r t) : ¬Unwritable k i := by
  rintro ⟨dirty, miss, full⟩
  obtain ⟨-, -, ⟨clean, -⟩ | ⟨-, b, s, q, w, read, -⟩⟩ := iput_cases k t i r done
  · exact dirty clean
  · obtain ⟨-, slot⟩ := (bread_returns_iff _ _ _).mp ⟨b, s, read⟩
    exact slot.elim (fun hit => hit miss) fun unused => unused full

theorem over_bind {α β : Type} (x : Kern α) (f : α → Kern β) (k t : Kernel) :
    Over (x >>= f) k t ↔
      (∃ a s, x.run k = .ok a s ∧ Over (f a) s t) ∨ ∃ e, x.run k = .error e t ∧ ∀ l, e ≠ .blocked l := by
  constructor
  · rintro (⟨b, done⟩ | ⟨e, halted, free⟩)
    · obtain ⟨a, s, first, rest⟩ := (run_bind_ok _ _ _ _ _).mp done
      exact .inl ⟨a, s, first, .inl ⟨b, rest⟩⟩
    · rcases (run_bind_error _ _ _ _ _).mp halted with first | ⟨a, s, first, rest⟩
      · exact .inr ⟨e, first, free⟩
      · exact .inl ⟨a, s, first, .inr ⟨e, rest, free⟩⟩
  · rintro (⟨a, s, first, ⟨b, rest⟩ | ⟨e, rest, free⟩⟩ | ⟨e, first, free⟩)
    · exact .inl ⟨b, (run_bind_ok _ _ _ _ _).mpr ⟨a, s, first, rest⟩⟩
    · exact .inr ⟨e, (run_bind_error _ _ _ _ _).mpr (.inr ⟨a, s, first, rest⟩), free⟩
    · exact .inr ⟨e, (run_bind_error _ _ _ _ _).mpr (.inl first), free⟩

theorem over_keeps {α : Type} (holds : Kernel → Prop) (x : Kern α) (keeps : Keeps holds x) (k t : Kernel)
    (start : holds k) (ended : Over x k t) : holds t := by
  rcases ended with ⟨a, done⟩ | ⟨e, halted, -⟩
  · exact (keeps k start).1 a t done
  · exact (keeps k start).2 e t halted

theorem over_get {α : Type} (f : Kernel → Kern α) (k t : Kernel) : Over (get >>= f) k t ↔ Over (f k) k t := Iff.rfl

theorem over_throw {α : Type} (e : Halt) (k t : Kernel) (ended : Over (throw e : Kern α) k t) : t = k := by
  rcases ended with ⟨a, done⟩ | ⟨d, halted, -⟩
  · cases done
  · cases halted
    rfl

theorem over_acquire (l : Lock) {β : Type} (f : Unit → Kern β) (k t : Kernel) (ended : Over (acquire l >>= f) k t) :
    k.locks l = none ∧ Over (f ()) (k.lock l) t := by
  rcases (over_bind _ _ _ _).mp ended with ⟨_, s, taken, rest⟩ | ⟨e, halted, waits⟩
  · obtain ⟨free, rfl⟩ := acquire_ok k s l taken
    exact ⟨free, rest⟩
  · by_cases free : k.locks l = none
    · rw [acquire_free k l free] at halted
      cases halted
    · rw [acquire_blocked k l free] at halted
      cases halted
      exact absurd rfl (waits l)

theorem lookup_stable (k : Kernel) : LoadStable (LookupFrame k) where
  steady := fun s t frame same => lookup_frame_trans k s t same ⟨frame.current, frame.files, frame.procs⟩
  loads := fun _ _ _ _ same => ⟨same.current, same.files, same.procs⟩

theorem iput_lookup (k : Kernel) (i : InodeId) : Keeps (LookupFrame k) (iput i) :=
  iput_keeps _ (lookup_stable k).steady i fun _ same _ => ⟨same.current, same.files, same.procs⟩

theorem unwritable_same (k s : Kernel) (i : InodeId) (inodes : s.inodes = k.inodes) (blocks : s.blocks = k.blocks)
    (table : s.superblock = k.superblock) : Unwritable s i ↔ Unwritable k i := by
  have found : findBlock s = findBlock k := by
    funext dev blk
    simp only [findBlock, blocks]
  have free : freeBlock s = freeBlock k := by simp only [freeBlock, blocks]
  have place : tableBlk s = tableBlk k := by
    funext dev num
    simp only [tableBlk, table]
  rw [Unwritable, Unwritable, inodes, found, free, place]

def takeFd (i : InodeId) (f : FileId) : Option (Fin nrOfiles) → Kern Int
  | none => do
      let _ ← iput i
      modify fun k => k.setFile f { k.files f with fCount := (k.files f).fCount - 1 }
      panic "sys_open: cannot get a valid fd"
  | some fd => do
      let k ← get
      acquire (.proc k.current)
      modify fun k => k.setProc k.current { k.procs k.current with
        pFilp := Function.update (k.procs k.current).pFilp fd (some f) }
      release (.proc k.current)
      return einprogress

def takeFile (i : InodeId) : Option FileId → Kern Int
  | none => do
      let _ ← iput i
      panic "sys_open: cannot get file struct"
  | some f => fdget >>= takeFd i f

theorem open_inode_parts (i : InodeId) (flags : UInt32) :
    openInode i flags = (do
      let k ← get
      if (k.inodes i).iMode &&& ifmt ≠ ifreg then
        let _ ← iput i
        panic "sys_open: this is not a regular file"
      else fget i flags >>= takeFile i) := by
  unfold openInode
  refine bind_congr fun k => ?_
  split
  · rfl
  · refine bind_congr fun file => ?_
    cases file with
    | none => rfl
    | some f =>
        refine bind_congr fun fd => ?_
        cases fd with
        | none => rfl
        | some fd => rfl

theorem open_inode_keeps (holds : Kernel → Prop) (steady : Steady holds) (i : InodeId) (flags : UInt32)
    (put : Keeps holds (iput i)) (shares : ∀ s f, holds s → holds (s.setFile f (s.files f).shared))
    (opens : ∀ s f, holds s → holds (s.setFile f ((s.files f).opened i (s.inodes i).iMode flags)))
    (drops : ∀ s f, holds s → holds (s.setFile f (s.files f).dropped))
    (points : ∀ s x, holds s → holds (s.setProc s.current x)) : Keeps holds (openInode i flags) := by
  have takes : ∀ f fd, Keeps holds (takeFd i f fd) := by
    intro f fd
    cases fd with
    | none =>
        refine keeps_bind holds _ _ put fun _ => ?_
        exact keeps_bind holds _ _ (keeps_modify holds _ fun s => drops s f) fun _ => keeps_throw holds _
    | some fd =>
        refine keeps_get holds _ fun k _ => keeps_bind holds _ _ (acquire_keeps holds steady _) fun _ => ?_
        refine keeps_bind holds _ _ (keeps_modify holds _ fun s => points s _) fun _ => ?_
        exact keeps_bind holds _ _ (release_keeps holds steady _) fun _ => keeps_pure holds _
  rw [open_inode_parts]
  refine keeps_get holds _ fun k _ => ?_
  split
  · exact keeps_bind holds _ _ put fun _ => keeps_throw holds _
  · refine keeps_bind holds _ _ (fget_keeps holds steady i flags shares opens) fun file => ?_
    cases file with
    | none => exact keeps_bind holds _ _ put fun _ => keeps_throw holds _
    | some f => exact keeps_bind holds _ _ (fdget_keeps holds steady) fun fd => takes f fd

theorem take_fd_given (k s t : Kernel) (i : InodeId) (f : FileId) (x : File) (fd : Fin nrOfiles)
    (frame : TableFrame (k.setFile f x) s) (ended : Over (takeFd i f (some fd)) s t) :
    LookupFrame (k.opened f x fd) t := by
  obtain ⟨-, ended⟩ := over_acquire _ _ s t ended
  rcases ended with ⟨r, done⟩ | ⟨e, halted, -⟩
  · cases done
    have current : s.current = k.current := frame.current
    have procs : s.procs = k.procs := frame.procs
    refine ⟨current, frame.files, ?_⟩
    simp [Kernel.opened, current, procs]
  · cases halted

theorem take_fd_given_up (k s t : Kernel) (i : InodeId) (f : FileId) (x : File)
    (frame : TableFrame (k.setFile f x) s) (blocks : s.blocks = k.blocks) (ended : Over (takeFd i f none) s t) :
    (¬Unwritable k i ∧ LookupFrame (k.setFile f x.dropped) t) ∨ (Unwritable k i ∧ LookupFrame (k.setFile f x) t) := by
  have same := unwritable_same k s i frame.inodes blocks frame.superblock
  obtain ⟨put, stuck⟩ := iput_lookup (k.setFile f x) i s ⟨frame.current, frame.files, frame.procs⟩
  rcases (over_bind _ _ _ _).mp ended with ⟨r, w, done, rest⟩ | ⟨e, halted, waits⟩
  · rcases rest with ⟨_, never⟩ | ⟨e, halted, -⟩
    · cases never
    · cases halted
      have given := put r w done
      refine .inl ⟨fun bad => iput_writable s w i r done (same.mpr bad), given.current, ?_, given.procs⟩
      simp [given.files, File.dropped]
  · rcases iput_stops s t i e halted with ⟨l, blocked⟩ | ⟨bad, -⟩
    · exact absurd blocked (waits l)
    · exact .inr ⟨same.mp bad, stuck e t halted⟩

theorem fdget_halts (k t : Kernel) (e : Halt) (halted : fdget.run k = .error e t) : e = .blocked .procTable := by
  by_cases free : k.locks .procTable = none
  · rcases Option.eq_none_or_eq_some (freeFd (k.procs k.current)) with full | ⟨fd, found⟩
    · cases (fdget_full k free full).symm.trans halted
    · cases (fdget_found k fd free found).symm.trans halted
  · rw [fdget, EStateM.run_bind, acquire_blocked k .procTable free] at halted
    cases halted
    rfl

theorem over_iput (k t : Kernel) (i : InodeId) (rest : Int → Kern Int) (ended : Over (iput i >>= rest) k t)
    (stops : ∀ r s, Over (rest r) s t → t = s) : Over (iput i) k t := by
  rcases (over_bind _ _ _ _).mp ended with ⟨r, s, done, after⟩ | stopped
  · rw [stops r s after]
    exact .inl ⟨r, done⟩
  · exact .inr stopped

theorem iput_over_lookup (k t : Kernel) (i : InodeId) (ended : Over (iput i) k t) : LookupFrame k t :=
  over_keeps _ _ (iput_lookup k i) k t ⟨rfl, rfl, rfl⟩ ended

-- The file is given a descriptor, or sys_open gives it up: with its inode, where iput can
-- write that back.
def GivesFile (k : Kernel) (i : InodeId) (f : FileId) (x : File) (t : Kernel) : Prop :=
  (∃ fd, freeFd (k.procs k.current) = some fd ∧ LookupFrame (k.opened f x fd) t) ∨
    (freeFd (k.procs k.current) = none ∧
      ((¬Unwritable k i ∧ LookupFrame (k.setFile f x.dropped) t) ∨ (Unwritable k i ∧ LookupFrame (k.setFile f x) t)))

theorem fd_ends (k s t : Kernel) (i : InodeId) (f : FileId) (x : File) (frame : TableFrame (k.setFile f x) s)
    (blocks : s.blocks = k.blocks) (ended : Over (fdget >>= takeFd i f) s t) : GivesFile k i f x t := by
  have mine : s.procs s.current = k.procs k.current := by
    rw [frame.current, frame.procs]
    rfl
  rcases (over_bind _ _ _ _).mp ended with ⟨fd, u, found, rest⟩ | ⟨e, halted, waits⟩
  · rw [GivesFile, ← mine]
    obtain ⟨-, ⟨full, rfl, rfl⟩ | ⟨c, free, rfl, rfl⟩⟩ := fdget_cases s u fd found
    · have locked : TableFrame (k.setFile f x) (s.lock .procTable) :=
        ⟨frame.current, frame.superblock, frame.inodes, frame.files, frame.procs⟩
      exact .inr ⟨full, take_fd_given_up k (s.lock .procTable) t i f x locked blocks rest⟩
    · exact .inl ⟨c, free, take_fd_given k u t i f x c frame rest⟩
  · exact absurd (fdget_halts s t e halted) (waits _)

theorem file_ends (k t : Kernel) (i : InodeId) (flags : UInt32) (ended : Over (fget i flags >>= takeFile i) k t) :
    (picked k i flags = none ∧ LookupFrame k t) ∨ ∃ f x, picked k i flags = some (f, x) ∧ GivesFile k i f x t := by
  by_cases free : k.locks .openFiles = none
  · rcases Option.eq_none_or_eq_some (picked k i flags) with none | ⟨⟨f, x⟩, pick⟩
    · refine .inl ⟨none, ?_⟩
      rcases (over_bind _ _ _ _).mp ended with ⟨answer, s, got, rest⟩ | ⟨e, halted, -⟩
      · rcases fget_passes k i flags free none with ⟨run, -⟩ | ⟨run, -⟩
        · cases run.symm.trans got
          exact iput_over_lookup k t i (over_iput k t i _ rest fun r u after => over_throw _ u t after)
        · cases run.symm.trans got
      · rcases fget_passes k i flags free none with ⟨run, -⟩ | ⟨run, -⟩
        · cases run.symm.trans halted
        · cases run.symm.trans halted
          exact ⟨rfl, rfl, rfl⟩
    · obtain ⟨s, run, frame, blocks, -⟩ := fget_picks k i flags f x free pick
      refine .inr ⟨f, x, pick, ?_⟩
      rcases (over_bind _ _ _ _).mp ended with ⟨answer, u, got, rest⟩ | ⟨e, halted, -⟩
      · cases run.symm.trans got
        exact fd_ends k s t i f x frame blocks rest
      · cases run.symm.trans halted
  · rcases (over_bind _ _ _ _).mp ended with ⟨answer, s, got, -⟩ | ⟨e, halted, waits⟩
    · cases (fget_blocked k i flags free).symm.trans got
    · cases (fget_blocked k i flags free).symm.trans halted
      exact absurd rfl (waits _)

theorem open_inode_ends (k t : Kernel) (i : InodeId) (flags : UInt32) (ended : Over (openInode i flags) k t) :
    (opens k i flags = none ∧ LookupFrame k t) ∨ ∃ f x, opens k i flags = some (f, x) ∧ GivesFile k i f x t := by
  rw [open_inode_parts] at ended
  replace ended := (over_get _ k t).mp ended
  by_cases regular : (k.inodes i).iMode &&& ifmt = ifreg
  · rw [if_neg (not_not.mpr regular)] at ended
    rw [opens, if_pos regular]
    exact file_ends k t i flags ended
  · rw [if_pos regular] at ended
    rw [opens, if_neg regular]
    exact .inl ⟨rfl, iput_over_lookup k t i (over_iput k t i _ ended fun r s after => over_throw _ s t after)⟩

theorem open_inode_run (k : Kernel) (i : InodeId) (flags : UInt32) (f : FileId) (x : File) (fd : Fin nrOfiles)
    (locks : ∀ l ∈ [Lock.openFiles, .procTable, .proc k.current], k.locks l = none)
    (taken : opens k i flags = some (f, x)) (empty : freeFd (k.procs k.current) = some fd) :
    ∃ t, (openInode i flags).run k = .ok einprogress t := by
  have regular : (k.inodes i).iMode &&& ifmt = ifreg := by
    by_contra other
    rw [opens, if_neg other] at taken
    cases taken
  rw [opens, if_pos regular] at taken
  simp only [List.forall_mem_cons] at locks
  obtain ⟨table, procs, mine, -⟩ := locks
  obtain ⟨s, got, frame, -, free⟩ := fget_picks k i flags f x table taken
  have current : s.current = k.current := frame.current
  have found : fdget.run s = .ok (some fd) s := by
    refine fdget_found s fd (free _ procs) ?_
    rw [current, frame.procs]
    exact empty
  have acquired := acquire_free s (.proc s.current) (by rw [current]; exact free _ mine)
  obtain ⟨t, last⟩ : ∃ t, (takeFd i f (some fd)).run s = .ok einprogress t := by
    rw [takeFd, run_get_bind, EStateM.run_bind, acquired]
    exact ⟨_, rfl⟩
  rw [open_inode_parts, run_get_bind, if_neg (not_not.mpr regular)]
  exact ⟨t, (run_bind_ok _ _ _ _ _).mpr ⟨some f, s, got, (run_bind_ok _ _ _ _ _).mpr ⟨some fd, s, found, last⟩⟩⟩

theorem open_inode_done (k t : Kernel) (i : InodeId) (flags : UInt32) (r : Int)
    (done : (openInode i flags).run k = .ok r t) :
    ∃ f x fd, opens k i flags = some (f, x) ∧ freeFd (k.procs k.current) = some fd ∧
      TableFrame (k.opened f x fd) t := by
  obtain ⟨-, regular, f, fd, s, got, empty, rfl⟩ := open_inode_cases k t i flags r done
  obtain ⟨x, pick, frame⟩ := fget_picked k s i flags f got
  have current : s.current = k.current := frame.current
  have procs : s.procs = k.procs := frame.procs
  rw [current, procs] at empty ⊢
  refine ⟨f, x, fd, ?_, empty, ⟨current, frame.superblock, frame.inodes, frame.files, ?_⟩⟩
  · rw [opens, if_pos regular, pick]
  · simp [Kernel.opened, procs]

end Yaup
