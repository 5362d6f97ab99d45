import Yaup.Lib.Run
import Yaup.Locks

set_option autoImplicit false

namespace Yaup

open Lib

inductive Call where
  | bread (dev : Dev) (blk : Blk)
  | bwrite (b : BufId)
  | bget (dev : Dev) (blk : Blk)
  | brelease (b : BufId)
  | iget (dev : Dev) (num : Ino)
  | iput (i : InodeId)
  | ifree (i : InodeId)
  | sysOpen (path : List UInt8) (flags : UInt32) (mode : UInt16)
  | sysClose (fd : Int)
  | fget (i : InodeId) (flags : UInt32)
  | fdget

def Call.run : Call → Kern Unit
  | .bread dev blk => discard (Yaup.bread dev blk)
  | .bwrite b => discard (Yaup.bwrite b)
  | .bget dev blk => discard (Yaup.bget dev blk)
  | .brelease b => discard (Yaup.brelease b)
  | .iget dev num => discard (Yaup.iget dev num)
  | .iput i => discard (Yaup.iput i)
  | .ifree i => discard (Yaup.ifree i)
  | .sysOpen path flags mode => discard (Yaup.sysOpen path flags mode)
  | .sysClose fd => discard (Yaup.sysClose fd)
  | .fget i flags => discard (Yaup.fget i flags)
  | .fdget => discard Yaup.fdget

inductive CallStep : Kernel → Pid × Call → Kernel → Prop where
  | returns (k t : Kernel) (p : Pid) (call : Call) (done : call.run.run (k.runAs p) = .ok () t) :
      CallStep k (p, call) t

def HoldsNone (p : Pid) (k : Kernel) : Prop := ∀ l, k.locks l ≠ some p

def NeverSelfBlocks (p : Pid) (k : Kernel) : Prop :=
  ∀ (call : Call) (l : Lock) (t : Kernel), call.run.run (k.runAs p) = .error (.blocked l) t → t.locks l ≠ some p

-- iput gives its locks back when the inode is dirty, but its table block is not in a
-- buffer already marked dirty.
def PutsBack (k : Kernel) (i : InodeId) : Prop :=
  (k.inodes i).iFlag &&& idirt ≠ 0 ∧ ¬DirtyHit k (k.inodes i).iDev (tableBlk k (k.inodes i).iDev (k.inodes i).iNum)

def GivesBack (k : Kernel) (p : Pid) : Call → Prop
  | .bwrite b => (k.blocks b).bDirty = false
  | .iput i => PutsBack k i
  | .ifree i => ¬DirtyHit k (k.inodes i).iDev (tableBlk k (k.inodes i).iDev (k.inodes i).iNum)
  | .sysClose fd => ∀ f i, k.descriptor p fd = some f → (k.files f).fCount = 1 → (k.files f).fInode = some i →
      PutsBack k i
  | .fdget => freeFd (k.procs p) ≠ none
  | .bread _ _ | .bget _ _ | .brelease _ | .iget _ _ | .sysOpen _ _ _ | .fget _ _ => True

theorem discard_triple {α : Type} (k : Kernel) (q : Pid) (extra : Lock → Prop) (x : Kern α)
    (post : α → Kernel → Prop) (after : Lock → Prop) (main : Triple (Held k q extra) x post (WaitsForOther k q))
    (reaches : ∀ a t, post a t → Held k q after t) :
    Triple (Held k q extra) (discard x) (fun _ => Held k q after) (WaitsForOther k q) := by
  apply triple_bind _ _ _ _ _ _ main
  intro a
  exact triple_pure _ _ _ _ (reaches a)

def Call.keeps : Call → Lock → Prop
  | .bread _ _ | .bget _ _ | .brelease _ | .iget _ _ | .sysOpen _ _ _ | .fget _ _ => Nothing
  | .bwrite b => fun l => l = .buf b
  | .iput i | .ifree i => InodeOrBuffer i
  | .sysClose _ => SomeInodeOrBuffer
  | .fdget => fun l => l = .procTable

theorem call_triple (k : Kernel) (q : Pid) (call : Call) :
    Triple (Held k q Nothing) call.run (fun _ => Held k q call.keeps) (WaitsForOther k q) := by
  cases call with
  | bread dev blk => exact discard_triple k q _ _ _ _ (bread_triple k q Nothing dev blk id) fun _ _ held => held
  | bget dev blk => exact discard_triple k q _ _ _ _ (bget_triple k q Nothing dev blk id) fun _ _ held => held
  | brelease b => exact discard_triple k q _ _ _ _ (brelease_triple k q Nothing b) fun _ _ held => held
  | iget dev num => exact discard_triple k q _ _ _ _ (iget_triple k q Nothing dev num id id) fun _ _ held => held
  | sysOpen path flags mode =>
      exact discard_triple k q _ _ _ _ (sys_open_triple k q path flags mode) fun _ _ held => held
  | fget i flags => exact discard_triple k q _ _ _ _ (fget_triple k q Nothing i flags id) fun _ _ held => held
  | bwrite b =>
      apply discard_triple k q _ _ _ _ (bwrite_triple k q Nothing b id)
      intro _ t held
      exact held_weaken k q _ _ t held fun _ inside => inside.resolve_left id
  | iput i =>
      apply discard_triple k q _ _ _ _ (iput_triple k q Nothing i id id fun _ => id)
      intro _ t held
      exact held_weaken k q _ _ t held fun _ inside => inside.resolve_left id
  | ifree i =>
      apply discard_triple k q _ _ _ _ (ifree_triple k q Nothing i id id fun _ => id)
      intro _ t held
      exact held_weaken k q _ _ t held fun _ inside => inside.resolve_left id
  | sysClose fd => exact discard_triple k q _ _ _ _ (sys_close_triple k q fd) fun _ _ held => held
  | fdget =>
      apply discard_triple k q _ _ _ _ (fdget_triple k q Nothing id)
      intro _ t held
      exact held_weaken k q _ _ t held fun _ inside => (inside.resolve_left id).2

theorem held_start (k : Kernel) (p : Pid) : Held k p Nothing (k.runAs p) :=
  ⟨rfl, fun _ _ owner => .inl owner⟩

theorem holds_none_never_blocks (p : Pid) (k : Kernel) (free : HoldsNone p k) : NeverSelfBlocks p k := by
  intro call l t halted owner
  exact free l ((call_triple k p call (k.runAs p) (held_start k p)).2 _ t halted l rfl owner)

theorem call_locks (k t : Kernel) (p q : Pid) (call : Call) (done : call.run.run (k.runAs q) = .ok () t)
    (l : Lock) (owner : t.locks l = some p) : k.locks l = some p ∨ (p = q ∧ call.keeps l) :=
  ((call_triple k q call (k.runAs q) (held_start k q)).1 () t done).2 l p owner

theorem bread_locks (k t : Kernel) (dev : Dev) (blk : Blk) (b : BufId) (done : (bread dev blk).run k = .ok b t)
    (l : Lock) (r : Pid) (owner : t.locks l = some r) : k.locks l = some r := by
  obtain ⟨-, ⟨-, -, rfl⟩ | ⟨-, -, rfl⟩ | ⟨-, -, rfl⟩⟩ := bread_cases k t dev blk b done
  · exact owner
  · exact owner
  · by_cases same : l = .buf b
    · subst same
      simp at owner
    · simpa [same] using owner

theorem table_write_locks (k s u w : Kernel) (i : InodeId) (dev : Dev) (blk : Blk) (b : BufId) (r : Int)
    (extra : Lock → Prop) (buffers : ∀ b, ¬extra (.buf b)) (held : ∀ l, k.locks l = some k.current → extra l)
    (read : (bread dev blk).run (k.lock (.ino i)) = .ok b s) (copied : BufferFrame s u) (locks : u.locks = s.locks)
    (dirty : (u.blocks b).bDirty = (s.blocks b).bDirty) (wrote : (bwrite b).run u = .ok r w) :
    (∀ l, (w.unlock (.ino i)).locks l = some k.current → extra l) ↔ ¬DirtyHit k dev blk := by
  have hit : (s.blocks b).bDirty = true ↔ DirtyHit k dev blk := (bread_handed _ s dev blk b read).2.2
  have current : u.current = k.current := copied.current.trans (bread_frame _ s dev blk b read).current
  obtain ⟨-, -, ⟨clean, rfl⟩ | ⟨stale, rfl⟩⟩ := bwrite_cases u w b r wrote
  · have absent : ¬DirtyHit k dev blk := by
      rw [← hit, ← dirty, clean]
      exact Bool.false_ne_true
    refine ⟨fun _ => absent, fun _ l owner => ?_⟩
    by_cases same : l = .ino i
    · subst same
      simp at owner
    · rw [Kernel.unlock_locks, Function.update_of_ne same, locks] at owner
      have before := bread_locks _ s dev blk b read l k.current owner
      rw [Kernel.lock_locks, Function.update_of_ne same] at before
      exact held l before
  · have present : DirtyHit k dev blk := hit.mp (dirty ▸ stale)
    refine ⟨fun given => ?_, fun absent => absurd present absent⟩
    have kept : ((u.wroteBack b).unlock (.ino i)).locks (.buf b) = some k.current := by
      simp [Kernel.wroteBack, current]
    exact absurd (given (.buf b) kept) (buffers b)

theorem iput_puts_back (k t : Kernel) (i : InodeId) (r : Int) (extra : Lock → Prop) (inode : ¬extra (.ino i))
    (buffers : ∀ b, ¬extra (.buf b)) (held : ∀ l, k.locks l = some k.current → extra l)
    (done : (iput i).run k = .ok r t) : (∀ l, t.locks l = some k.current → extra l) ↔ PutsBack k i := by
  obtain ⟨-, -, ⟨clean, rfl⟩ | ⟨flagged, b, s, q, w, read, wrote, rfl⟩⟩ := iput_cases k t i r done
  · refine ⟨fun given => ?_, fun putsBack => absurd clean putsBack.1⟩
    exact absurd (given (.ino i) (by simp)) inode
  · have locks := table_write_locks k s _ w i _ _ b q extra buffers held read (set_block_frame s b _) rfl
      (by simp) wrote
    rw [PutsBack, and_iff_right flagged]
    exact locks

theorem ifree_gives_back (k t : Kernel) (i : InodeId) (r : Int) (held : ∀ l, k.locks l ≠ some k.current)
    (done : (ifree i).run k = .ok r t) :
    (∀ l, t.locks l ≠ some k.current) ↔
      ¬DirtyHit k (k.inodes i).iDev (tableBlk k (k.inodes i).iDev (k.inodes i).iNum) := by
  obtain ⟨-, b, s, q, w, read, wrote, rfl⟩ := ifree_cases k t i r done
  exact table_write_locks k s _ w i _ _ b q (fun _ => False) (fun _ => id) held read (set_block_frame s b _) rfl
    (by simp) wrote

theorem bwrite_gives_back (k t : Kernel) (b : BufId) (r : Int) (held : ∀ l, k.locks l ≠ some k.current)
    (done : (bwrite b).run k = .ok r t) :
    (∀ l, t.locks l ≠ some k.current) ↔ (k.blocks b).bDirty = false := by
  obtain ⟨-, -, ⟨clean, rfl⟩ | ⟨dirty, rfl⟩⟩ := bwrite_cases k t b r done
  · exact ⟨fun _ => clean, fun _ => held⟩
  · refine ⟨fun given => absurd ?_ (given (.buf b)), fun clean => absurd (clean.symm.trans dirty) Bool.false_ne_true⟩
    simp [Kernel.wroteBack]

theorem fdget_gives_back (k t : Kernel) (fd : Option (Fin nrOfiles)) (held : ∀ l, k.locks l ≠ some k.current)
    (done : fdget.run k = .ok fd t) :
    (∀ l, t.locks l ≠ some k.current) ↔ freeFd (k.procs k.current) ≠ none := by
  obtain ⟨-, ⟨full, -, rfl⟩ | ⟨c, found, -, rfl⟩⟩ := fdget_cases k t fd done
  · refine ⟨fun given => absurd ?_ (given .procTable), fun found => absurd full found⟩
    simp
  · rw [found]
    exact ⟨fun _ => Option.some_ne_none c, fun _ => held⟩

theorem sys_close_gives_back (k t : Kernel) (fd r : Int) (held : ∀ l, k.locks l ≠ some k.current)
    (done : (sysClose fd).run k = .ok r t) :
    (∀ l, t.locks l ≠ some k.current) ↔ GivesBack k k.current (.sysClose fd) := by
  obtain ⟨-, f, named, ⟨more, rfl⟩ | ⟨last, u, closed, rfl⟩⟩ := sys_close_cases k t fd r done
  · constructor
    · intro _ g i named' one
      rw [named] at named'
      cases named'
      exact absurd (by rw [one]; decide) more
    · intro _ l
      by_cases same : l = .openFiles
      · subst same
        simp
      · simpa [Kernel.beginClose, same] using held l
  · obtain ⟨i, q, s, inode, put, rfl⟩ := close_last_cases _ u f closed
    have inode' : (k.files f).fInode = some i := by simpa [Kernel.beginClose, File.dropped] using inode
    have before : ∀ l, ((k.beginClose f).setFile f ((k.beginClose f).files f).unflagged).locks l =
        some k.current → l = .openFiles ∨ l = .file f := by
      intro l owner
      by_cases same : l = .openFiles
      · exact .inl same
      · exact absurd (by simpa [Kernel.beginClose, same] using owner) (held l)
    have exact_iput : (∀ l, s.locks l = some k.current → l = .openFiles ∨ l = .file f) ↔ PutsBack k i :=
      iput_puts_back ((k.beginClose f).setFile f ((k.beginClose f).files f).unflagged) s i q _ (by simp) (by simp) before put
    have one := count_drop_zero _ last
    constructor
    · intro given g j named' _ inode''
      rw [named] at named'
      cases named'
      rw [inode'] at inode''
      cases inode''
      refine exact_iput.mp fun l owner => ?_
      by_cases table : l = .openFiles
      · exact .inl table
      · by_cases file : l = .file f
        · exact .inr file
        · exact absurd (by simpa [table, file] using owner) (given l)
    · intro given l owner
      by_cases table : l = .openFiles
      · subst table
        simp at owner
      · by_cases file : l = .file f
        · subst file
          simp at owner
        · have kept : s.locks l = some k.current := by simpa [table, file] using owner
          rcases exact_iput.mpr (given f i named one inode') l kept with same | same
          · exact table same
          · exact file same

theorem call_gives_back (k t : Kernel) (p : Pid) (call : Call) (held : HoldsNone p k)
    (done : call.run.run (k.runAs p) = .ok () t) : HoldsNone p t ↔ GivesBack k p call := by
  have keeps := call_locks k t p p call done
  have returned : (∀ l, ¬call.keeps l) → HoldsNone p t := by
    intro nothing l owner
    rcases keeps l owner with before | ⟨-, kept⟩
    · exact held l before
    · exact nothing l kept
  cases call with
  | bread | bget | brelease | iget | sysOpen | fget => exact ⟨fun _ => trivial, fun _ => returned fun _ => id⟩
  | bwrite b =>
      obtain ⟨r, wrote⟩ := discard_done _ _ _ done
      exact bwrite_gives_back (k.runAs p) t b r held wrote
  | iput i =>
      obtain ⟨r, put⟩ := discard_done _ _ _ done
      exact iput_puts_back (k.runAs p) t i r (fun _ => False) id (fun _ => id) held put
  | ifree i =>
      obtain ⟨r, freed⟩ := discard_done _ _ _ done
      exact ifree_gives_back (k.runAs p) t i r held freed
  | sysClose fd =>
      obtain ⟨r, closed⟩ := discard_done _ _ _ done
      exact sys_close_gives_back (k.runAs p) t fd r held closed
  | fdget =>
      obtain ⟨fd, found⟩ := discard_done _ _ _ done
      exact fdget_gives_back (k.runAs p) t fd held found

def Paired (p : Pid) (k : Kernel) (act : Pid × Call) : Prop := act.1 = p → GivesBack k p act.2

theorem step_paired_iff (p : Pid) (k : Kernel) (act : Pid × Call) (t : Kernel) (held : HoldsNone p k)
    (taken : CallStep k act t) : HoldsNone p t ↔ Paired p k act := by
  cases taken with
  | returns t q call done =>
      by_cases same : q = p
      · subst same
        rw [call_gives_back k t q call held done]
        exact ⟨fun given _ => given, fun paired => paired rfl⟩
      · refine ⟨fun _ own => absurd own same, fun _ l owner => ?_⟩
        rcases call_locks k t p q call done l owner with before | ⟨own, -⟩
        · exact held l before
        · exact same own.symm

-- Over any run a process that starts with no lock stays without locks between its calls,
-- and never waits for itself, exactly when each of its calls gives back what it takes.
theorem locks_paired_iff (k : Kernel) (p : Pid) (moves : List (Move Kernel (Pid × Call))) (last : Kernel)
    (run : Run CallStep k moves last) (held : HoldsNone p k) :
    Throughout (fun s => HoldsNone p s ∧ NeverSelfBlocks p s) moves last ↔
      ∀ move ∈ moves, Paired p move.before move.act := by
  rw [← run_invariant_iff CallStep (Paired p) (HoldsNone p) (step_paired_iff p) k last moves run held]
  constructor
  · intro along
    exact ⟨fun move member => (along.1 move member).1, along.2.1⟩
  · intro along
    have both : ∀ s, HoldsNone p s → HoldsNone p s ∧ NeverSelfBlocks p s := fun s free =>
      ⟨free, holds_none_never_blocks p s free⟩
    exact ⟨fun move member => both _ (along.1 move member), both _ along.2⟩

theorem clean_iput_keeps_lock :
    ¬ ∀ (k : Kernel) (p : Pid) (moves : List (Move Kernel (Pid × Call))) (last : Kernel),
      Run CallStep k moves last → HoldsNone p k →
        Throughout (fun s => HoldsNone p s ∧ NeverSelfBlocks p s) moves last := by
  intro claim
  have done := discard_run _ _ _ _ (iput_clean (Kernel.zero.runAs 0) 0 rfl (by decide))
  have along := claim Kernel.zero 0 _ _ (.cons _ _ _ _ _ (.returns _ _ 0 (.iput 0) done) (.nil _))
    (by simp [HoldsNone, Kernel.zero, freeLocks])
  exact along.2.1 (.ino 0) (by simp)

theorem locks_paired_read :
    ∃ (moves : List (Move Kernel (Pid × Call))) (last : Kernel), moves.length = 2 ∧
      Run CallStep Kernel.zero moves last ∧ HoldsNone 0 Kernel.zero ∧
      Throughout (fun s => HoldsNone 0 s ∧ NeverSelfBlocks 0 s) moves last := by
  have free : HoldsNone 0 Kernel.zero := by simp [HoldsNone, Kernel.zero, freeLocks]
  have read := two_slots_open
  rw [← zero_two_slots] at read
  have wrote := bwrite_run (twoSlots 0 openedBuffer zeroBuffer (fun _ => zeroBlock) freeLocks) 0
  rw [if_pos (by simp [freeLocks]), if_neg (by simp [openedBuffer])] at wrote
  have run := Run.cons _ _ _ _ _ (CallStep.returns Kernel.zero _ 0 (.bread 1 5) (discard_run _ _ _ _ read)) <|
    .cons _ _ _ _ _ (.returns _ _ 0 (.bwrite 0) (discard_run _ _ _ _ wrote)) <|
    .nil _
  refine ⟨_, _, rfl, run, free, (locks_paired_iff _ 0 _ _ run free).mpr ?_⟩
  simp only [List.forall_mem_cons]
  exact ⟨fun _ => trivial, fun _ => rfl, by simp⟩

end Yaup
