import Yaup.FileTable
import Yaup.FlagGuard

set_option autoImplicit false

namespace Yaup

open Lib

def CursorsBounded (k : Kernel) : Prop :=
  ∀ f i, (k.files f).fInode = some i → (k.files f).fOff ≤ (k.inodes i).iSize

inductive CursorCall where
  | sysOpen (path : List UInt8) (flags : UInt32) (mode : UInt16)
  | sysRead (unset : Unset) (fd : Int) (buffsize : UInt64)
  | sysWrite (getFreePosAt : Kernel → UInt8 → Option UInt64) (block : Option BufId) (turns : Nat) (unset : Unset)
      (fd : Int) (buf : Bytes)
  | sysSeek (fd : Int) (offset : UInt64) (whence : Int)
  | sysClose (fd : Int)

structure CursorAct where
  p : Pid
  wild : Wild
  call : CursorCall

def CursorCall.Leaves (k t : Kernel) : CursorCall → Prop
  | .sysOpen path flags mode => Yaup.Leaves (Yaup.sysOpen path flags mode) k t
  | .sysRead unset fd buffsize => Yaup.Leaves (Yaup.sysRead unset fd buffsize) k t
  | .sysWrite getFreePosAt block turns unset fd buf =>
      Yaup.Leaves (Yaup.sysWrite (ballocBuffer getFreePosAt block turns) unset fd buf) k t
  | .sysSeek fd offset whence => Yaup.Leaves (Yaup.sysSeek fd offset whence) k t
  | .sysClose fd => Yaup.Leaves (Yaup.sysClose fd) k t

def CursorStep (k : Kernel) (act : CursorAct) (t : Kernel) : Prop := act.call.Leaves (begun k act.p act.wild) t

def Inside (k : Kernel) (fd : Int) (n : Nat) : Prop :=
  ∀ f i, (k.procs k.current).filp fd = some (some f) → (k.files f).fInode = some i →
    (k.files f).fOff.toNat + n ≤ (k.inodes i).iSize.toNat

def ClampExact (unset : Unset) (buffsize : UInt64) : Prop :=
  ∀ off size, unset.clamp = some (off, size) → off + buffsize ≥ size → off ≤ size

def ReadsInside (k : Kernel) : CursorCall → Prop
  | .sysRead unset fd buffsize =>
      ClampExact unset buffsize ∧
        ∀ count data t, (sysRead unset fd buffsize).run k = .ok (count, data) t → Inside k fd data.length
  | _ => True

def clamped (off size buffsize : UInt64) : UInt64 := if off + buffsize ≥ size then size - off else buffsize

-- A read or a write that comes to its block has its bytes inside the file, and no cursor
-- past 0 is of an inode in a slot that a lookup may load anew.
def KeepsCursors (k : Kernel) : CursorCall → Prop
  | .sysOpen _ _ _ => ∀ f i, (k.files f).fInode = some i → (k.inodes i).iCount = 0 → (k.files f).fOff = 0
  | .sysRead unset fd buffsize =>
      ClampExact unset buffsize ∧
        ∀ off size, unset.clamp = some (off, size) → Reaches k unset fd irusr irgrp iroth →
          Inside k fd (clamped off size buffsize).toNat
  | .sysWrite _ _ _ unset fd buf => Reaches k unset fd iwusr iwgrp iwoth → Inside k fd buf.length
  | _ => True

theorem bounded_steady : Steady CursorsBounded := by
  intro s t frame good f i inode
  rw [frame.files] at inode ⊢
  rw [frame.inodes]
  exact good f i inode

theorem bounded_set_file (k : Kernel) (f : FileId) (x : File) (good : CursorsBounded k)
    (inside : ∀ i, x.fInode = some i → x.fOff ≤ (k.inodes i).iSize) : CursorsBounded (k.setFile f x) := by
  intro g i inode
  by_cases same : g = f
  · subst same
    rw [Kernel.setFile_files, Function.update_self] at inode ⊢
    exact inside i inode
  · rw [Kernel.setFile_files, Function.update_of_ne same] at inode ⊢
    exact good g i inode

theorem bounded_iput (i : InodeId) : Keeps CursorsBounded (iput i) := by
  refine iput_keeps _ bounded_steady i fun s good _ f j inode => ?_
  have size : ((s.setInode i (s.inodes i).written).inodes j).iSize = (s.inodes j).iSize := by
    by_cases same : j = i
    · subst same
      rw [Kernel.setInode_inodes, Function.update_self]
      rfl
    · rw [Kernel.setInode_inodes, Function.update_of_ne same]
  rw [size]
  exact good f j inode

structure Settled (k : Kernel) : Prop where
  bounded : CursorsBounded k
  idle : ∀ f i, (k.files f).fInode = some i → (k.inodes i).iCount = 0 → (k.files f).fOff = 0

theorem settled_stable : LoadStable Settled where
  steady := by
    rintro s t frame ⟨bounded, idle⟩
    refine ⟨bounded_steady s t frame bounded, ?_⟩
    rw [frame.files, frame.inodes]
    exact idle
  loads := by
    rintro s i x unused ⟨bounded, idle⟩
    have start : ∀ f, (s.files f).fInode = some i → (s.files f).fOff = 0 := fun f inode =>
      idle f i inode ((free_inode_some s i).mp unused).1
    refine ⟨fun f j inode => ?_, fun f j inode count => ?_⟩
    · by_cases same : j = i
      · subst same
        have zero : ((s.setInode j x).files f).fOff = 0 := start f inode
        rw [zero]
        exact UInt64.zero_le
      · rw [Kernel.setInode_inodes, Function.update_of_ne same]
        exact bounded f j inode
    · by_cases same : j = i
      · subst same
        exact start f inode
      · rw [Kernel.setInode_inodes, Function.update_of_ne same] at count
        exact idle f j inode count

theorem bounded_open_inode (i : InodeId) (flags : UInt32) : Keeps CursorsBounded (openInode i flags) := by
  refine open_inode_keeps _ bounded_steady i flags (bounded_iput i) ?_ ?_ ?_ fun _ _ good => good
  · exact fun s f good => bounded_set_file s f _ good (good f)
  · exact fun s f good => bounded_set_file s f _ good fun _ _ => UInt64.zero_le
  · exact fun s f good => bounded_set_file s f _ good (good f)

theorem sys_open_bounded (k t : Kernel) (path : List UInt8) (flags : UInt32) (mode : UInt16) (settled : Settled k)
    (left : Leaves (sysOpen path flags mode) k t) : CursorsBounded t := by
  have whole : Triple Settled (sysOpen path flags mode) (fun _ => CursorsBounded) fun _ => CursorsBounded := by
    refine keeps_then Settled CursorsBounded _ _ (namei_keeps Settled settled_stable path) (fun _ good => good.bounded) ?_
    intro i s start
    exact bounded_open_inode i flags s start.bounded
  rcases left with ⟨a, done⟩ | ⟨e, halted⟩
  · exact (whole k settled).1 a t done
  · exact (whole k settled).2 e t halted

theorem open_file_keeps (holds : Kernel → Prop) (steady : Steady holds) (unset : Unset) (fd : Int) (usr grp oth : UInt16)
    (bad denied : String) : Keeps holds (openFile unset fd usr grp oth bad denied) := by
  unfold openFile
  split
  · exact keeps_halt holds _ _
  · refine keeps_get holds _ fun k _ => keeps_bind holds _ _ (acquire_keeps holds steady _) fun _ => ?_
    split
    · exact keeps_throw holds _
    · split
      · exact keeps_halt holds _ _
      · exact keeps_bind holds _ _ (release_keeps holds steady _) fun _ => keeps_pure holds _
    · exact keeps_throw holds _

theorem file_block_keeps (holds : Kernel → Prop) (steady : Steady holds) (f : FileId) : Keeps holds (fileBlock f) := by
  refine keeps_get holds _ fun k _ => ?_
  generalize fileKey k f = key
  cases key with
  | none => exact keeps_throw holds _
  | some key => exact bread_keeps holds steady key.1 key.2

theorem balloc_keeps (holds : Kernel → Prop) (steady : Steady holds) (getFreePosAt : Kernel → UInt8 → Option UInt64)
    (unset : Option BufId) (turns : Nat) (dev : Dev) : Keeps holds (balloc getFreePosAt unset turns dev) := by
  have scans : ∀ b left, Keeps holds (ballocScan getFreePosAt dev b left) := by
    intro b left
    induction left with
    | zero => exact keeps_pure holds _
    | succ left ih =>
        refine keeps_get holds _ fun k _ => ?_
        split
        · exact keeps_throw holds _
        · split
          · exact bget_keeps holds steady dev _
          · exact ih
  rw [balloc]
  induction turns generalizing unset with
  | zero => exact keeps_throw holds _
  | succ turns ih =>
      refine keeps_get holds _ fun k _ => ?_
      split
      · refine keeps_bind holds _ _ (bread_keeps holds steady _ _) fun b => ?_
        exact keeps_bind holds _ _ (scans b blkSz) fun b => ih (some b)
      · exact keeps_pure holds _

theorem new_block_keeps (holds : Kernel → Prop) (steady : Steady holds) (getFreePosAt : Kernel → UInt8 → Option UInt64)
    (unset : Option BufId) (turns : Nat) (f : FileId) :
    Keeps holds (newBlock (ballocBuffer getFreePosAt unset turns) f) := by
  refine keeps_get holds _ fun k _ => ?_
  split
  · exact keeps_throw holds _
  · refine keeps_bind holds _ _ (balloc_keeps holds steady getFreePosAt unset turns _) fun b => ?_
    cases b with
    | none => exact keeps_throw holds _
    | some b => exact keeps_pure holds _

structure RoomFor (f : FileId) (n : Nat) (k : Kernel) : Prop where
  bounded : CursorsBounded k
  room : ∀ i, (k.files f).fInode = some i → (k.files f).fOff.toNat + n ≤ (k.inodes i).iSize.toNat

theorem room_steady (f : FileId) (n : Nat) : Steady (RoomFor f n) := by
  rintro s t frame ⟨bounded, room⟩
  refine ⟨bounded_steady s t frame bounded, ?_⟩
  rw [frame.files, frame.inodes]
  exact room

theorem room_advance (f : FileId) (n : Nat) (k : Kernel) (start : RoomFor f (n + 1) k) :
    RoomFor f n (k.setFile f ((k.files f).advance 1)) := by
  have moved : ∀ i, (k.files f).fInode = some i → ((k.files f).advance 1).fOff.toNat + n ≤ (k.inodes i).iSize.toNat := by
    intro i inode
    have room := start.room i inode
    have size := (k.inodes i).iSize.toNat_lt
    have next : ((k.files f).advance 1).fOff.toNat = (k.files f).fOff.toNat + 1 := by
      have one : (UInt64.ofNat 1).toNat = 1 := rfl
      rw [File.advance, UInt64.toNat_add, one, Nat.mod_eq_of_lt (by omega)]
    omega
  refine ⟨bounded_set_file k f _ start.bounded fun i inode => ?_, fun i inode => ?_⟩
  · have inside := moved i inode
    exact UInt64.le_iff_toNat_le.mpr (by omega)
  · rw [Kernel.setFile_files, Function.update_self] at inode ⊢
    exact moved i inode

theorem read_loop_bounded (f : FileId) (n : Nat) (b : BufId) (i : Fin blkSz) :
    Triple (RoomFor f n) (readLoop f n b i) (fun _ => CursorsBounded) fun _ => CursorsBounded := by
  induction n generalizing b i with
  | zero => exact triple_pure _ _ _ _ fun _ start => start.bounded
  | succ n ih =>
      have done : ∀ rest : Bytes, ∀ byte, Triple CursorsBounded (pure (byte :: rest) : Kern Bytes)
          (fun _ => CursorsBounded) fun _ => CursorsBounded := fun rest byte => keeps_pure _ _
      refine triple_get _ _ _ _ fun k start => ?_
      refine triple_bind _ _ _ (fun _ => RoomFor f n) _ _ (triple_modify _ (fun _ => _) _ _ fun _ _ => ?_) fun _ => ?_
      · exact room_advance f n k start
      · split
        · exact triple_bind _ _ _ _ _ _ (ih b _) fun rest => done rest _
        · have steady := room_steady f n
          have weaker : ∀ s, RoomFor f n s → CursorsBounded s := fun _ room => room.bounded
          refine keeps_then _ _ _ _ (brelease_keeps _ steady b) weaker fun _ => ?_
          refine keeps_then _ _ _ _ (file_block_keeps _ steady f) weaker fun c => ?_
          refine triple_get _ _ _ _ fun k _ => ?_
          exact triple_bind _ _ _ _ _ _ (ih c _) fun rest => done rest _

theorem write_loop_bounded (getFreePosAt : Kernel → UInt8 → Option UInt64) (block : Option BufId) (turns : Nat)
    (f : FileId) (data : Bytes) (b : BufId) (i : Fin blkSz) :
    Triple (RoomFor f data.length) (writeLoop (ballocBuffer getFreePosAt block turns) f data b i)
      (fun _ => CursorsBounded) fun _ => CursorsBounded := by
  induction data generalizing b i with
  | nil => exact triple_pure _ _ _ _ fun _ start => start.bounded
  | cons byte rest ih =>
      refine triple_bind _ _ _ (fun _ => RoomFor f rest.length) _ _ (triple_modify _ _ _ _ fun k start => ?_) fun _ => ?_
      · exact room_advance f rest.length (k.setBlock b _) ⟨start.bounded, start.room⟩
      · split
        · exact ih b _
        · have steady := room_steady f rest.length
          have weaker : ∀ s, RoomFor f rest.length s → CursorsBounded s := fun _ room => room.bounded
          refine keeps_then _ _ _ _ (modify_keeps _ steady _ fun _ => ⟨rfl, rfl, rfl, rfl, rfl⟩) weaker fun _ => ?_
          refine keeps_then _ _ _ _ (brelease_keeps _ steady b) weaker fun _ => ?_
          refine keeps_then _ _ _ _ (new_block_keeps _ steady getFreePosAt block turns f) weaker fun c => ?_
          refine triple_get _ _ _ _ fun k _ => ?_
          exact triple_bind _ _ _ _ _ _ (ih c _) fun later => keeps_pure _ _

theorem head_bounded {α : Type} (k t : Kernel) (unset : Unset) (fd : Int) (usr grp oth : UInt16) (bad denied : String)
    (n : Nat) (rest : FileId → BufId → Kern α) (good : CursorsBounded k)
    (room : Reaches k unset fd usr grp oth → Inside k fd n)
    (loop : ∀ f b, Triple (RoomFor f n) (rest f b) (fun _ => CursorsBounded) fun _ => CursorsBounded)
    (left : Leaves (do
      let f ← openFile unset fd usr grp oth bad denied
      let b ← fileBlock f
      rest f b) k t) : CursorsBounded t := by
  rcases leaves_bind _ _ k t left with ⟨f, s, opened, shows⟩ | stopped
  · obtain ⟨rfl, named, -⟩ := open_file_ok k s unset fd usr grp oth bad denied f opened
    rcases leaves_bind _ _ s t shows with ⟨b, u, shown, reads⟩ | stopped
    · have reaches := reaches_block s u unset fd usr grp oth bad denied f b opened shown
      have frame := (file_block_keeps (TableFrame s) (table_steady s) f s (table_frame_refl s)).1 b u shown
      have start : RoomFor f n u := by
        refine room_steady f n s u frame ⟨good, fun i inode => ?_⟩
        exact room reaches f i named inode
      rcases reads with ⟨a, done⟩ | ⟨e, halted⟩
      · exact (loop f b u start).1 a t done
      · exact (loop f b u start).2 e t halted
    · exact leaves_keeps _ _ (file_block_keeps _ bounded_steady f) s t good (.inr stopped)
  · exact leaves_keeps _ _ (open_file_keeps _ bounded_steady unset fd usr grp oth bad denied) k t good (.inr stopped)

theorem sys_read_bounded (k t : Kernel) (unset : Unset) (fd : Int) (buffsize : UInt64) (good : CursorsBounded k)
    (room : ∀ off size, unset.clamp = some (off, size) → Reaches k unset fd irusr irgrp iroth →
      Inside k fd (clamped off size buffsize).toNat)
    (left : Leaves (sysRead unset fd buffsize) k t) : CursorsBounded t := by
  cases clamp : unset.clamp with
  | none =>
      rcases left with ⟨a, done⟩ | ⟨e, halted⟩
      · rw [sysRead, clamp, fault_run] at done
        cases done
      · rw [sysRead, clamp, fault_run] at halted
        cases halted
        exact good
  | some pair =>
      rw [Leaves, sys_read_run unset pair.1 pair.2 fd buffsize k clamp] at left
      refine head_bounded k t unset fd _ _ _ _ _ _ _ good (room pair.1 pair.2 clamp) (fun f b => ?_) left
      refine triple_get _ _ _ _ fun s _ => ?_
      exact triple_bind _ _ _ _ _ _ (read_loop_bounded f _ b _) fun data => keeps_pure _ _

theorem sys_write_bounded (k t : Kernel) (getFreePosAt : Kernel → UInt8 → Option UInt64) (block : Option BufId)
    (turns : Nat) (unset : Unset) (fd : Int) (buf : Bytes) (good : CursorsBounded k)
    (room : Reaches k unset fd iwusr iwgrp iwoth → Inside k fd buf.length)
    (left : Leaves (sysWrite (ballocBuffer getFreePosAt block turns) unset fd buf) k t) : CursorsBounded t := by
  rw [Leaves, sys_write_run] at left
  refine head_bounded k t unset fd _ _ _ _ _ _ _ good room (fun f b => ?_) left
  refine triple_get _ _ _ _ fun s _ => ?_
  exact triple_bind _ _ _ _ _ _ (write_loop_bounded getFreePosAt block turns f buf b _) fun later => keeps_pure _ _

theorem sys_seek_bounded (fd : Int) (offset : UInt64) (whence : Int) :
    Keeps CursorsBounded (sysSeek fd offset whence) := by
  unfold sysSeek
  split
  · exact keeps_halt _ _ _
  · refine keeps_get _ _ fun k _ => keeps_bind _ _ _ (acquire_keeps _ bounded_steady _) fun _ => ?_
    split
    · exact keeps_throw _ _
    · exact keeps_throw _ _
    · rename_i f named
      refine keeps_bind _ _ _ (release_keeps _ bounded_steady _) fun _ => keeps_get _ _ fun s good => ?_
      split
      · exact keeps_throw _ _
      · rename_i off aimed
        by_cases zero : off ≤ 0
        · simp only [if_pos zero]
          split
          · exact keeps_halt _ _ _
          · exact keeps_halt _ _ _
        · simp only [if_neg zero]
          split
          · exact keeps_throw _ _
          · rename_i i inode
            split
            · exact keeps_halt _ _ _
            · rename_i low
              refine keeps_bind _ _ _ (keeps_set _ _ ?_) fun _ => keeps_pure _ _
              refine bounded_set_file s f _ good fun j same => ?_
              cases inode.symm.trans same
              exact UInt64.le_of_lt (UInt64.not_le.mp low)

theorem sys_close_bounded (fd : Int) : Keeps CursorsBounded (sysClose fd) := by
  have last : ∀ f, Keeps CursorsBounded (closeLast f) := by
    intro f
    refine keeps_bind _ _ _ (keeps_modify _ _ fun s good => bounded_set_file s f _ good (good f)) fun _ => ?_
    refine keeps_get _ _ fun k _ => ?_
    split
    · exact keeps_throw _ _
    · refine keeps_bind _ _ _ (bounded_iput _) fun _ => ?_
      refine keeps_bind _ _ _ (keeps_modify _ _ fun s good => bounded_set_file s f _ good fun i none => ?_) fun _ => ?_
      · cases none
      · exact modify_keeps _ bounded_steady _ fun _ => ⟨rfl, rfl, rfl, rfl, rfl⟩
  have released : Keeps CursorsBounded (do
      release .openFiles
      return 0 : Kern Int) := keeps_bind _ _ _ (release_keeps _ bounded_steady _) fun _ => keeps_pure _ _
  unfold sysClose
  by_cases bad : fd > nrOfiles ∨ fd < 0
  · simp only [if_pos bad]
    exact keeps_halt _ _ _
  · simp only [if_neg bad]
    refine keeps_get _ _ fun k _ => ?_
    split
    · split
      · exact keeps_throw _ _
      · rename_i f named
        refine keeps_bind _ _ _ (acquire_keeps _ bounded_steady _) fun _ => ?_
        refine keeps_bind _ _ _ (keeps_modify _ _ fun s good => bounded_set_file s f _ good (good f)) fun _ => ?_
        refine keeps_get _ _ fun s _ => ?_
        split
        · exact keeps_bind _ _ _ (last f) fun _ => released
        · exact released
    · exact keeps_throw _ _

theorem call_bounded (k t : Kernel) (call : CursorCall) (good : CursorsBounded k) (guard : KeepsCursors k call)
    (left : call.Leaves k t) : CursorsBounded t := by
  cases call with
  | sysOpen path flags mode => exact sys_open_bounded k t path flags mode ⟨good, guard⟩ left
  | sysRead unset fd buffsize => exact sys_read_bounded k t unset fd buffsize good guard.2 left
  | sysWrite getFreePosAt block turns unset fd buf =>
      exact sys_write_bounded k t getFreePosAt block turns unset fd buf good guard left
  | sysSeek fd offset whence => exact leaves_keeps _ _ (sys_seek_bounded fd offset whence) k t good left
  | sysClose fd => exact leaves_keeps _ _ (sys_close_bounded fd) k t good left

theorem call_reads_inside (k : Kernel) (call : CursorCall) (guard : KeepsCursors k call) : ReadsInside k call := by
  cases call with
  | sysRead unset fd buffsize =>
      refine ⟨guard.1, fun count data t done => ?_⟩
      obtain ⟨off, size, clamp, -, length⟩ := sys_read_ok unset fd buffsize k t count data done
      have same : data.length = (clamped off size buffsize).toNat := length
      rw [same]
      refine guard.2 off size clamp ?_
      rw [sys_read_run unset off size fd buffsize k clamp] at done
      obtain ⟨f, s, opened, rest⟩ := (run_bind_ok _ _ _ _ _).mp done
      obtain ⟨rfl, -, -⟩ := open_file_ok k s unset fd _ _ _ _ _ f opened
      obtain ⟨b, u, shown, -⟩ := (run_bind_ok _ _ _ _ _).mp rest
      exact reaches_block s u unset fd _ _ _ _ _ f b opened shown
  | _ => trivial

theorem cursors_stay_bounded (first last : Kernel) (moves : List (Move Kernel CursorAct))
    (run : Run CursorStep first moves last) (start : CursorsBounded first)
    (guarded : ∀ move ∈ moves, KeepsCursors (begun move.before move.act.p move.act.wild) move.act.call) :
    Throughout CursorsBounded moves last ∧
      ∀ move ∈ moves, ReadsInside (begun move.before move.act.p move.act.wild) move.act.call := by
  refine ⟨?_, fun move member => call_reads_inside _ _ (guarded move member)⟩
  let guard := fun (k : Kernel) (act : CursorAct) => KeepsCursors (begun k act.p act.wild) act.call
  refine run_invariant CursorStep guard CursorsBounded ?_ first last moves run start guarded
  exact fun before act after good step kept => call_bounded (begun before act.p act.wild) after act.call good kept step

theorem ten_byte_file_bounded (off : UInt64) (low : off ≤ 10) : CursorsBounded (tenByteFile off) := by
  refine bounded_set_file _ 0 _ ?_ fun i inode => ?_
  · intro f i inode
    cases inode
  · cases inode
    exact low

theorem cursors_stay_read :
    ∃ (moves : List (Move Kernel CursorAct)) (last : Kernel), moves.length = 1 ∧
      Run CursorStep (tenByteFile 0) moves last ∧ Throughout CursorsBounded moves last ∧
      ∀ move ∈ moves, ReadsInside (begun move.before move.act.p move.act.wild) move.act.call := by
  let act : CursorAct := ⟨0, (tenByteFile 0).wild, .sysRead setLocals 3 10⟩
  obtain ⟨t, step⟩ : ∃ t, CursorStep (tenByteFile 0) act t := leaves_somewhere _ _
  have run := Run.cons _ _ _ _ _ step (.nil t)
  refine ⟨_, t, rfl, run, cursors_stay_bounded _ t _ run (ten_byte_file_bounded 0 (by decide)) fun move member => ?_⟩
  rw [List.mem_singleton.mp member]
  refine ⟨fun off size clamp _ => ?_, fun off size clamp _ f i named inode => ?_⟩
  · cases clamp
    decide
  · cases clamp
    cases (ten_byte_file_open 0 (by decide)).named.symm.trans named
    cases inode
    change ((tenByteFile 0).files 0).fOff.toNat + (clamped 0 10 10).toNat ≤ ((tenByteFile 0).inodes 0).iSize.toNat
    decide

theorem write_passes_size :
    ¬∀ (first last : Kernel) (moves : List (Move Kernel CursorAct)), Run CursorStep first moves last →
      CursorsBounded first → Throughout CursorsBounded moves last ∧
        ∀ move ∈ moves, ReadsInside (begun move.before move.act.p move.act.wild) move.act.call := by
  intro claim
  let data : Bytes := List.replicate 11 97
  let act : CursorAct := ⟨0, (tenByteFile 0).wild, .sysWrite (fun _ _ => none) none 0 setLocals 3 data⟩
  have opened := ten_byte_file_open 0 (by decide)
  obtain ⟨b, s, shown, done⟩ := sys_write_within (tenByteFile 0) 3 0 0 (ballocBuffer (fun _ _ => none) none 0) setLocals
    data opened (ten_byte_file_ready 0) ⟨tenBytes, rfl, by decide⟩ (by decide)
  have step : CursorStep (tenByteFile 0) act _ := .inl ⟨_, done⟩
  have last := (claim _ _ _ (.cons _ _ _ _ _ step (.nil _)) (ten_byte_file_bounded 0 (by decide))).1.2 0 0
  have inodes : s.inodes 0 = tenBytes := congrFun (bread_frame _ s _ _ b shown).inodes 0
  rw [Kernel.setFile_files, Function.update_self, Kernel.setFile_inodes, Kernel.setBlock_inodes, inodes] at last
  exact absurd (last opened.inode) (by decide)

end Yaup
