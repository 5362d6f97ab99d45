import Yaup.CallEffects
import Yaup.FileCounts
import Yaup.OpenAnswer
import Yaup.ReadBack

set_option autoImplicit false

namespace Yaup

open Lib

theorem effect_disk (mode : Mode) (p : Pid) (s t : Kernel) (effect : Effect mode p s t) : t.disk = s.disk := by
  cases effect <;> rfl

theorem served_moves (first last : Processes) (moves : List (Move Processes Pid)) (served : Served first last moves)
    (related : Pid → Kernel → Kernel → Prop) (refl : ∀ p s, related p s s)
    (effects : ∀ p s t, Effect (amongOthers False) p s t → related p s t) :
    ∀ move ∈ moves, related move.act move.before.state move.after.state := by
  intro move member
  rcases (calls_have_effects first last moves False served False.elim).2 move member with same | effect
  · rw [same]
    exact refl _ _
  · exact effects _ _ _ effect

theorem served_append (first middle last : Processes) (moves later : List (Move Processes Pid))
    (served : Served first middle moves) (run : Run ProcessStep middle later last) (out : ∀ move ∈ later, StaysOut move) :
    Served first last (moves ++ later) :=
  ⟨run_append _ _ _ _ _ _ served.run run, served.idle, served.quiet, fun move member =>
    (List.mem_append.mp member).elim (served.out move) (out move)⟩

def Begins (p : Pid) (call : SysCall) (move : Move Processes Pid) : Prop :=
  move.act = p ∧ move.before.running p = none ∧ move.after.running p = some call.steps

structure CallsAlone (p : Pid) (call : SysCall) (before after : Processes) (moves : List (Move Processes Pid)) : Prop where
  run : Run ProcessStep before moves after
  out : ∀ move ∈ moves, StaysOut move
  mine : ∀ move ∈ moves, move.act = p
  begins : ∃ move ∈ moves, Begins p call move
  others : ∀ q, q ≠ p → after.running q = before.running q
  returns : ∀ t, call.run.run (before.state.runAs p) = .ok () t → after.running p = none ∧ after.state.runAs p = t

theorem kernel_seen_alike (p : Pid) : SeenAlike kernelLocks p := ⟨fun _ _ => rfl, fun _ _ => rfl⟩

theorem call_alone (p : Pid) (call : SysCall) (before : Processes) (idle : before.running p = none)
    (quiet : Quiet before.state) : ∃ after moves, CallsAlone p call before after moves := by
  let mode := amongOthers False
  let inside := before.goes p before.state (some call.steps)
  have begins : ProcessStep before p inside := .begins before p _ idle trivial ⟨call, rfl⟩
  have started : Begins p call ⟨before, p, inside⟩ := ⟨rfl, idle, Function.update_self _ _ _⟩
  have assures := (sys_call_assures mode call (fun _ => trivial) (fun _ => trivial) p (before.state.runAs p)).among id
  obtain ⟨last, moves, on⟩ := alone_goes_on kernelLocks (callTerms mode) p acquire release _ (kernel_plays mode p)
    (kernel_seen_alike p) Whenever Calls call.steps _ (before.state.runAs p) rfl ⟨⟨quiet.clean, quiet.loose⟩, False.elim⟩
    assures inside rfl (Function.update_self _ _ _)
  have same : Prog.alone acquire release call.steps = call.run := sys_call_alone call
  rw [same] at on
  have out : ∀ move ∈ (⟨before, p, inside⟩ : Move Processes Pid) :: moves, StaysOut move := by
    rw [List.forall_mem_cons]
    refine ⟨fun _ => ⟨before.state.wild, rfl⟩, fun move member away => ?_⟩
    obtain ⟨act, busy⟩ := on.mine move member
    exact absurd away (act ▸ busy)
  have mine : ∀ move ∈ (⟨before, p, inside⟩ : Move Processes Pid) :: moves, move.act = p :=
    List.forall_mem_cons.mpr ⟨rfl, fun move member => (on.mine move member).1⟩
  have others : ∀ q, q ≠ p → last.running q = before.running q := fun q other =>
    (on.others q other).trans (Function.update_of_ne other _ _)
  have run : Run ProcessStep before (⟨before, p, inside⟩ :: moves) last := .cons _ _ _ _ _ begins on.run
  rcases returned : call.run.run (before.state.runAs p) with ⟨_, t⟩ | ⟨e, t⟩
  · obtain ⟨done, state⟩ := on.returns t returned
    let after := last.goes p last.state none
    have ends : ProcessStep last p after := .ends last p done
    refine ⟨after, _ ++ [⟨last, p, after⟩], run_append _ _ _ _ _ _ run (.cons _ _ _ _ _ ends (.nil after)), ?_, ?_, ?_, ?_, ?_⟩
    · refine List.forall_mem_append.mpr ⟨out, List.forall_mem_singleton.mpr fun away => ?_⟩
      rw [done] at away
      cases away
    · exact List.forall_mem_append.mpr ⟨mine, List.forall_mem_singleton.mpr rfl⟩
    · exact ⟨_, List.mem_append_left _ List.mem_cons_self, started⟩
    · exact fun q other => (Function.update_of_ne other _ _).trans (others q other)
    · intro u same
      cases returned.symm.trans same
      exact ⟨Function.update_self _ _ _, state⟩
  · refine ⟨last, _, run, out, mine, ⟨_, List.mem_cons_self, started⟩, others, fun u same => ?_⟩
    cases returned.symm.trans same

def BeginsEach (p : Pid) (calls : List SysCall) (moves : List (Move Processes Pid)) : Prop :=
  ∃ started, started.Sublist moves ∧ List.Forall₂ (Begins p) calls started

theorem ten_byte_file_quiet (off : UInt64) : Quiet (tenByteFile off) where
  clean := by
    intro i
    by_cases first : i = 0
    · subst first
      simp [tenByteFile, tenBytes]
    · simp [tenByteFile, first, Kernel.zero]
  loose := fun _ => rfl

def writesTwo : SysCall := .sysWrite (fun _ _ => none) none 0 setLocals 3 [104, 105]

theorem write_then_close (k : Kernel) (fd : Int) (f : FileId) (i : InodeId) (data : Bytes) (s : Kernel) (b : BufId)
    (opened : OpenRegular k fd f i) (read : (bread (k.cursorKey f i).1 (k.cursorKey f i).2).run k = .ok b s)
    (table : k.locks .openFiles = none) (free : k.locks (.ino i) = none) (once : (k.files f).fCount = 1)
    (clean : (k.inodes i).iFlag &&& idirt = 0) (place : Nat) :
    ∃ t, (sysClose fd).run ((s.setBlock b ((s.blocks b).put place data)).setFile f ((k.files f).advance data.length)) = .ok 0 t := by
  have frame := bread_frame k s _ _ b read
  refine sys_close_run _ fd f i ?_ ?_ ?_ (by simpa [File.advance] using once) (by simpa [File.advance] using opened.inode) ?_
  · exact (frame.locks .openFiles (by simp)).trans table
  · exact (frame.locks (.ino i) (by simp)).trans free
  · simpa [frame.procs, frame.current] using opened.named
  · simpa [frame.inodes] using clean

theorem begins_each_in (p : Pid) (calls : List SysCall) (moves all : List (Move Processes Pid)) (within : moves.Sublist all)
    (begins : BeginsEach p calls moves) : BeginsEach p calls all := by
  obtain ⟨started, among, each⟩ := begins
  exact ⟨started, among.trans within, each⟩

-- Process 1 is reading a superblock; process 0 writes to its file, closes it and calls again.
theorem reader_and_writer :
    ∃ (first middle last : Processes) (moves later : List (Move Processes Pid)), first.state = tenByteFile 0 ∧
      Served first middle moves ∧ BeginsEach 1 [.sbread 1] moves ∧ middle.state.locks .mtable = some 1 ∧
      Run ProcessStep middle later last ∧ (∀ move ∈ later, StaysOut move) ∧ (∀ move ∈ later, move.act = 0) ∧
      BeginsEach 0 [writesTwo, .sysClose 3, .sysClose 3] later := by
  let first : Processes := ⟨tenByteFile 0, fun _ => none⟩
  obtain ⟨rest, starts⟩ : ∃ rest, (SysCall.sbread 1).steps = .take .mtable rest := ⟨_, rfl⟩
  let second : Processes := first.goes 1 (tenByteFile 0) (some (.take .mtable rest))
  let middle : Processes := second.goes 1 (((tenByteFile 0).runAs 1).lock .mtable) (some rest)
  have begun : ProcessStep first 1 second := .begins first 1 _ rfl trivial ⟨_, starts.symm⟩
  have took : ProcessStep second 1 middle := .takes second 1 .mtable rest (by simp [second]) rfl
  have served : Served first middle [⟨first, 1, second⟩, ⟨second, 1, middle⟩] := by
    refine ⟨.cons _ _ _ _ _ begun (.cons _ _ _ _ _ took (.nil _)), fun _ => rfl, ten_byte_file_quiet 0, ?_⟩
    rw [List.forall_mem_cons, List.forall_mem_singleton]
    refine ⟨fun _ => ⟨(tenByteFile 0).wild, rfl⟩, fun idle => ?_⟩
    simp [second] at idle
  have opened := ten_byte_file_open 0 (by decide)
  have ready := ten_byte_file_ready 0
  have may : hasPerm ((tenByteFile 0).procs 0) tenBytes iwusr iwgrp iwoth = true := by decide
  let k := middle.state.runAs 0
  have openedHere : OpenRegular k 3 0 0 :=
    ⟨opened.named, opened.inode, opened.regular, opened.size, opened.cursor, opened.apart⟩
  obtain ⟨b, s, read, wrote⟩ := sys_write_within k 3 0 0 (ballocBuffer (fun _ _ => none) none 0) setLocals [104, 105] openedHere
    ⟨rfl, rfl, ready.first, ready.room⟩ ⟨tenBytes, rfl, may⟩ (by simp [k, middle, Pool.goes, tenByteFile, blkSz])
  obtain ⟨u, ends⟩ := write_then_close k 3 0 0 [104, 105] s b openedHere read rfl rfl rfl
    ((ten_byte_file_quiet 0).clean 0) _
  obtain ⟨third, writing, written⟩ := call_alone 0 writesTwo middle rfl
    (calls_have_effects first middle _ False served False.elim).1.2.quiet
  obtain ⟨idleThird, stateThird⟩ := written.returns _ ((run_bind_ok _ _ _ _ _).mpr ⟨_, _, wrote, rfl⟩)
  have servedThird := served_append first middle third _ writing served written.run written.out
  obtain ⟨fourth, closing, closed⟩ := call_alone 0 (.sysClose 3) third idleThird
    (calls_have_effects first third _ False servedThird False.elim).1.2.quiet
  obtain ⟨idleFourth, -⟩ := closed.returns u (by
    rw [stateThird]
    exact (run_bind_ok _ _ _ _ _).mpr ⟨_, _, ends, rfl⟩)
  have servedFourth := served_append first third fourth _ closing servedThird closed.run closed.out
  obtain ⟨last, again, closedAgain⟩ := call_alone 0 (.sysClose 3) fourth idleFourth
    (calls_have_effects first fourth _ False servedFourth False.elim).1.2.quiet
  obtain ⟨x, inX, beginsX⟩ := written.begins
  obtain ⟨y, inY, beginsY⟩ := closed.begins
  obtain ⟨z, inZ, beginsZ⟩ := closedAgain.begins
  refine ⟨first, middle, last, _, writing ++ (closing ++ again), rfl, served, ⟨[⟨first, 1, second⟩], by simp, ?_⟩, ?_, ?_, ?_, ?_,
    [x, y, z], ?_, ?_⟩
  · refine .cons ⟨rfl, rfl, ?_⟩ .nil
    simp [second, starts]
  · simp [middle, Pool.goes]
  · exact run_append _ _ _ _ _ _ written.run (run_append _ _ _ _ _ _ closed.run closedAgain.run)
  · exact List.forall_mem_append.mpr ⟨written.out, List.forall_mem_append.mpr ⟨closed.out, closedAgain.out⟩⟩
  · exact List.forall_mem_append.mpr ⟨written.mine, List.forall_mem_append.mpr ⟨closed.mine, closedAgain.mine⟩⟩
  · exact (List.singleton_sublist.mpr inX).append ((List.singleton_sublist.mpr inY).append (List.singleton_sublist.mpr inZ))
  · exact .cons beginsX (.cons beginsY (.cons beginsZ .nil))

theorem reader_and_writer_whole :
    ∃ (first last : Processes) (moves : List (Move Processes Pid)), first.state = tenByteFile 0 ∧ Served first last moves ∧
      BeginsEach 1 [.sbread 1] moves ∧ BeginsEach 0 [writesTwo, .sysClose 3, .sysClose 3] moves := by
  obtain ⟨first, middle, last, moves, later, file, served, reads, -, run, out, -, writes⟩ := reader_and_writer
  refine ⟨first, last, moves ++ later, file, served_append first middle last moves later served run out, ?_, ?_⟩
  · exact begins_each_in _ _ _ _ (List.sublist_append_left moves later) reads
  · exact begins_each_in _ _ _ _ (List.sublist_append_right moves later) writes

theorem disk_untouched (first last : Processes) (moves : List (Move Processes Pid)) (served : Served first last moves) :
    Throughout (fun pool => pool.state.disk = first.state.disk) moves last :=
  run_relates _ (fun s t : Processes => t.state.disk = s.state.disk) (fun _ => rfl)
    (fun _ _ _ one two => two.trans one) first last moves served.run
    (served_moves first last moves served (fun _ s t => t.disk = s.disk) (fun _ _ => rfl) (effect_disk _))

theorem disk_untouched_writing :
    ∃ first last moves, Served first last moves ∧ BeginsEach 1 [.sbread 1] moves ∧
      BeginsEach 0 [writesTwo, .sysClose 3, .sysClose 3] moves ∧
      Throughout (fun pool : Processes => pool.state.disk = first.state.disk) moves last := by
  obtain ⟨first, last, moves, -, served, reads, writes⟩ := reader_and_writer_whole
  exact ⟨first, last, moves, served, reads, writes, disk_untouched first last moves served⟩

-- At most one buffer and one inode have each key; (0, 0) is the key of a slot never used.
structure KeysApart (k : Kernel) : Prop where
  blocks : ApartBut (bufferKeys k) (0, 0) none
  inodes : ApartBut (inodeNames k) (0, 0) none

theorem keys_apart_tidy (k : Kernel) (apart : KeysApart k) : Tidy k :=
  ⟨⟨none, apart.blocks, fun out => absurd rfl out⟩, ⟨none, apart.inodes, fun out => absurd rfl out⟩⟩

-- Between any two statements of the calls, no block has two buffers and no inode two slots,
-- but for the one slot whose key the holder of the table's lock is storing.
theorem keys_stay_apart (first last : Processes) (moves : List (Move Processes Pid)) (served : Served first last moves)
    (apart : KeysApart first.state) :
    Throughout (fun pool => Tidy pool.state) moves last := by
  obtain ⟨along, done⟩ := (calls_have_effects first last moves True served fun _ => keys_apart_tidy _ apart).1
  exact ⟨fun move member => (along move member).tidy trivial, done.tidy trivial⟩

theorem ten_byte_file_apart : KeysApart (tenByteFile 0) where
  blocks := fun b c _ _ _ named => absurd rfl named
  inodes := by
    have blank : ∀ i : InodeId, i ≠ 0 → inodeNames (tenByteFile 0) i = (0, 0) := by
      intro i other
      simp [inodeNames, tenByteFile, other, Kernel.zero, Inode.named]
    intro i j _ _ same named
    have first : i = 0 := by_contra fun other => named (blank i other)
    have second : j = 0 := by_contra fun other => named (same.trans (blank j other))
    exact first.trans second.symm

theorem keys_stay_apart_writing :
    ∃ first last moves, Served first last moves ∧ BeginsEach 1 [.sbread 1] moves ∧
      BeginsEach 0 [writesTwo, .sysClose 3, .sysClose 3] moves ∧
      Throughout (fun pool : Processes => Tidy pool.state) moves last := by
  obtain ⟨first, last, moves, file, served, reads, writes⟩ := reader_and_writer_whole
  have apart : KeysApart first.state := file ▸ ten_byte_file_apart
  exact ⟨first, last, moves, served, reads, writes, keys_stay_apart first last moves served apart⟩

theorem others_keep_out (first middle last : Processes) (moves later : List (Move Processes Pid)) (p : Pid)
    (served : Served first middle moves) (run : Run ProcessStep middle later last) (out : ∀ move ∈ later, StaysOut move)
    (away : ∀ move ∈ later, move.act ≠ p) : Throughout (fun pool => Excluded p middle.state pool.state) later last := by
  have whole := served_append first middle last moves later served run out
  have each := served_moves first last _ whole (fun q s t => q ≠ p → Excluded p s t) (fun _ _ _ => excluded_refl _ _)
    fun q s t effect other => effect_excluded _ p q s t other effect
  exact run_relates _ (fun s t : Processes => Excluded p s.state t.state) (fun _ => excluded_refl _ _)
    (fun _ _ _ => excluded_trans p _ _ _) middle last later run fun move member =>
      each move (List.mem_append_right _ member) (away move member)

theorem others_keep_out_writing :
    ∃ (middle last : Processes) (later : List (Move Processes Pid)), middle.state.locks .mtable = some 1 ∧
      BeginsEach 0 [writesTwo, .sysClose 3, .sysClose 3] later ∧
      Throughout (fun pool : Processes => Excluded 1 middle.state pool.state) later last := by
  obtain ⟨first, middle, last, moves, later, -, served, -, holds, run, out, mine, writes⟩ := reader_and_writer
  refine ⟨middle, last, later, holds, writes, others_keep_out first middle last moves later 1 served run out ?_⟩
  intro move member
  rw [mine move member]
  decide

-- The entry of p in the process table: nothing of it changes but descriptors from 3 on, each
-- of which stays on the file that it was first given.
structure Handed (p : Pid) (s t : Kernel) : Prop where
  stay : ∀ fd f, (s.procs p).pFilp fd = some f → (t.procs p).pFilp fd = some f
  low : ∀ fd, fd.val < 3 → (t.procs p).pFilp fd = (s.procs p).pFilp fd
  uid : (t.procs p).pUid = (s.procs p).pUid
  gid : (t.procs p).pGid = (s.procs p).pGid
  cwd : (t.procs p).pCwd = (s.procs p).pCwd

theorem same_entry_handed (p : Pid) (s t : Kernel) (same : t.procs p = s.procs p) : Handed p s t where
  stay := fun fd _ given => (congrArg (Proc.pFilp · fd) same).trans given
  low := fun fd _ => congrArg (Proc.pFilp · fd) same
  uid := congrArg Proc.pUid same
  gid := congrArg Proc.pGid same
  cwd := congrArg Proc.pCwd same

theorem handed_trans (p : Pid) (s t u : Kernel) (one : Handed p s t) (two : Handed p t u) : Handed p s u where
  stay := fun fd f given => two.stay fd f (one.stay fd f given)
  low := fun fd below => (two.low fd below).trans (one.low fd below)
  uid := two.uid.trans one.uid
  gid := two.gid.trans one.gid
  cwd := two.cwd.trans one.cwd

theorem effect_handed (mode : Mode) (p q : Pid) (s t : Kernel) (effect : Effect mode q s t) : Handed p s t := by
  by_cases own : q = p
  · subst own
    cases effect with
    | points fd f low empty =>
        have others : ∀ given, given ≠ fd → Function.update (s.procs q).pFilp fd (some f) given = (s.procs q).pFilp given :=
          fun given other => Function.update_of_ne other _ _
        have entry : (((s.runAs q).setProc q { s.procs q with
            pFilp := Function.update (s.procs q).pFilp fd (some f) }).procs q) = { s.procs q with
            pFilp := Function.update (s.procs q).pFilp fd (some f) } := Function.update_self _ _ _
        refine ⟨fun given g stays => ?_, fun given below => ?_, ?_, ?_, ?_⟩
        · have other : given ≠ fd := by
            rintro rfl
            exact absurd (empty.symm.trans stays) nofun
          rw [entry]
          exact (others given other).trans stays
        · have other : given ≠ fd := by
            rintro rfl
            omega
          rw [entry]
          exact others given other
        all_goals rw [entry]
    | _ => exact same_entry_handed q s _ rfl
  · exact same_entry_handed p s t (effect_excluded mode p q s t own effect).procs

theorem sys_open_sets (k t : Kernel) (path : List UInt8) (flags : UInt32) (mode : UInt16) (r : Int)
    (done : (sysOpen path flags mode).run k = .ok r t) :
    ∃ fd f, 3 ≤ fd.val ∧ (k.procs k.current).pFilp fd = none ∧ (t.procs k.current).pFilp fd = some f := by
  obtain ⟨i, s, looked, -⟩ := (run_bind_ok _ _ _ _ _).mp done
  have frame := namei_lookup path k s i looked
  obtain ⟨-, f, x, fd, -, free, opened⟩ := open_answer k path flags mode s t i r looked done
  obtain ⟨high, unused⟩ := free_fd_some _ fd free
  rw [frame.current, frame.procs] at unused
  refine ⟨fd, f, high, unused, ?_⟩
  rw [opened.procs]
  simp [Kernel.opened, frame.current]

theorem descriptors_stay (first middle last : Processes) (moves later : List (Move Processes Pid)) (p : Pid)
    (served : Served first middle moves) (run : Run ProcessStep middle later last) (out : ∀ move ∈ later, StaysOut move) :
    Throughout (fun pool => Handed p middle.state pool.state) later last ∧
      ∀ move ∈ later, move.act ≠ p → move.after.state.procs p = move.before.state.procs p := by
  have whole := served_append first middle last moves later served run out
  have each := served_moves first last _ whole (fun q s t => Handed p s t ∧ (q ≠ p → t.procs p = s.procs p))
    (fun _ _ => ⟨same_entry_handed p _ _ rfl, fun _ => rfl⟩)
    fun q s t effect => ⟨effect_handed _ p q s t effect, fun other => (effect_excluded _ p q s t other effect).procs⟩
  refine ⟨?_, fun move member => (each move (List.mem_append_right _ member)).2⟩
  exact run_relates _ (fun s t : Processes => Handed p s.state t.state) (fun _ => same_entry_handed p _ _ rfl)
    (fun _ _ _ => handed_trans p _ _ _) middle last later run fun move member => (each move (List.mem_append_right _ member)).1

theorem ten_byte_file_opens_root : ∃ t, (sysOpen [47, 0] 1 0).run (tenByteFile 0) = .ok einprogress t := by
  have stop : stopFile (tenByteFile 0) 0 = some 0 :=
    (stop_file_some (tenByteFile 0) 0 0).mpr ⟨.inr rfl, fun g below => absurd below (Fin.not_lt_zero g)⟩
  have seen : fileNum (tenByteFile 0) 0 ≠ none := Option.some_ne_none _
  have taken : opens (tenByteFile 0) 0 1 = some (0, ((tenByteFile 0).files 0).shared) := by
    rw [opens, if_pos (by decide)]
    unfold picked
    rw [stop]
    dsimp only
    rw [if_neg seen]
  have free : freeFd ((tenByteFile 0).procs 0) = some 4 := by
    simp only [freeFd, Fin.find?_eq_some_iff]
    decide
  obtain ⟨t, done⟩ := open_inode_run (tenByteFile 0) 0 1 0 _ 4 (fun _ _ => rfl) taken free
  exact ⟨t, (run_bind_ok _ _ _ _ _).mpr ⟨0, tenByteFile 0, namei_root (tenByteFile 0) [], done⟩⟩

theorem descriptors_stay_closing :
    ∃ (first middle last : Processes) (moves later : List (Move Processes Pid)), Served first middle moves ∧
      BeginsEach 0 [.sysOpen [47, 0] 1 0] moves ∧ (∃ fd f, (middle.state.procs 0).pFilp fd = some f ∧
        (first.state.procs 0).pFilp fd = none) ∧ BeginsEach 1 [.sbread 1] later ∧ BeginsEach 0 [.sysClose 4] later ∧
      Throughout (fun pool : Processes => Handed 0 middle.state pool.state) later last ∧
      ∀ move ∈ later, move.act ≠ 0 → move.after.state.procs 0 = move.before.state.procs 0 := by
  let first : Processes := ⟨tenByteFile 0, fun _ => none⟩
  obtain ⟨t, opened⟩ := ten_byte_file_opens_root
  obtain ⟨middle, moves, opening⟩ := call_alone 0 (.sysOpen [47, 0] 1 0) first rfl (ten_byte_file_quiet 0)
  obtain ⟨idle, state⟩ := opening.returns t ((run_bind_ok _ _ _ _ _).mpr ⟨_, _, opened, rfl⟩)
  obtain ⟨fd, f, -, unset, set⟩ := sys_open_sets _ _ _ _ _ _ opened
  have entry : (middle.state.runAs 0).procs 0 = t.procs 0 := congrArg (fun k : Kernel => k.procs 0) state
  have served : Served first middle moves := ⟨opening.run, fun _ => rfl, ten_byte_file_quiet 0, opening.out⟩
  obtain ⟨third, reading, read⟩ := call_alone 1 (.sbread 1) middle (opening.others 1 (by decide))
    (calls_have_effects first middle _ False served False.elim).1.2.quiet
  have servedThird := served_append first middle third _ reading served read.run read.out
  obtain ⟨last, closing, closed⟩ := call_alone 0 (.sysClose 4) third ((read.others 0 (by decide)).trans idle)
    (calls_have_effects first third _ False servedThird False.elim).1.2.quiet
  obtain ⟨x, inX, beginsX⟩ := opening.begins
  obtain ⟨y, inY, beginsY⟩ := read.begins
  obtain ⟨z, inZ, beginsZ⟩ := closed.begins
  have run : Run ProcessStep middle (reading ++ closing) last := run_append _ _ _ _ _ _ read.run closed.run
  refine ⟨first, middle, last, moves, reading ++ closing, served, ⟨[x], List.singleton_sublist.mpr inX, .cons beginsX .nil⟩,
    ⟨fd, f, ?_, unset⟩, ?_, ?_, descriptors_stay first middle last moves _ 0 served run ?_⟩
  · exact (congrArg (Proc.pFilp · fd) entry).trans set
  · exact ⟨[y], List.singleton_sublist.mpr (List.mem_append_left _ inY), .cons beginsY .nil⟩
  · exact ⟨[z], List.singleton_sublist.mpr (List.mem_append_right _ inZ), .cons beginsZ .nil⟩
  · exact List.forall_mem_append.mpr ⟨read.out, closed.out⟩

end Yaup
