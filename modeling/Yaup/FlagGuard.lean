import Yaup.BufferBalance
import Yaup.LockOrder

set_option autoImplicit false

namespace Yaup

open Lib

-- Nothing keeps a call from the block at the cursor of its file: not the lock of its
-- process, the permission, the descriptor, the address, or the buffer table.
def Reaches (k : Kernel) (unset : Unset) (fd : Int) (usr grp oth : UInt16) : Prop :=
  k.locks (.proc k.current) = none ∧ MayOpen k unset usr grp oth ∧
    ∃ f dev blk, (k.procs k.current).filp fd = some (some f) ∧ fileKey k f = some (dev, blk) ∧
      k.locks .buffer = none ∧ (findBlock k dev blk ≠ none ∨ freeBlock k ≠ none)

theorem open_file_unlocked (k t : Kernel) (unset : Unset) (fd : Int) (usr grp oth : UInt16) (bad denied : String)
    (f : FileId) (done : (openFile unset fd usr grp oth bad denied).run k = .ok f t) :
    k.locks (.proc k.current) = none := by
  rw [openFile] at done
  by_cases high : fd ≥ nrOfiles
  · simp [high] at done
  · simp only [if_neg high] at done
    obtain ⟨_, s, seen, rest⟩ := (run_bind_ok _ _ _ _ _).mp done
    cases seen
    obtain ⟨_, s, taken, -⟩ := (run_bind_ok _ _ _ _ _).mp rest
    exact (acquire_ok k s _ taken).1

theorem reaches_block (k t : Kernel) (unset : Unset) (fd : Int) (usr grp oth : UInt16) (bad denied : String) (f : FileId)
    (b : BufId) (opened : (openFile unset fd usr grp oth bad denied).run k = .ok f k)
    (shown : (fileBlock f).run k = .ok b t) : Reaches k unset fd usr grp oth := by
  obtain ⟨-, named, may⟩ := open_file_ok k k unset fd usr grp oth bad denied f opened
  rw [file_block_run] at shown
  obtain ⟨dev, blk, key, read⟩ := bread_key_ok k t _ b shown
  exact ⟨open_file_unlocked k k unset fd usr grp oth bad denied f opened, may, f, dev, blk, named, key,
    (bread_returns_iff k dev blk).mp ⟨b, t, read⟩⟩

def SameBlocks (k t : Kernel) : Prop := t.blocks = k.blocks ∧ t.disk = k.disk

theorem open_file_halts (k t : Kernel) (unset : Unset) (fd : Int) (usr grp oth : UInt16) (bad denied : String)
    (e : Halt) (halted : (openFile unset fd usr grp oth bad denied).run k = .error e t) : SameBlocks k t := by
  rw [openFile] at halted
  by_cases high : fd ≥ nrOfiles
  · simp only [if_pos high] at halted
    cases halted
    exact ⟨rfl, rfl⟩
  · simp only [if_neg high] at halted
    rw [run_get_bind] at halted
    rcases (run_bind_error _ _ _ _ _).mp halted with blocked | ⟨_, s, taken, rest⟩
    · by_cases free : k.locks (.proc k.current) = none
      · rw [acquire_free k _ free] at blocked
        cases blocked
      · rw [acquire_blocked k _ free] at blocked
        cases blocked
        exact ⟨rfl, rfl⟩
    · obtain ⟨-, rfl⟩ := acquire_ok k s _ taken
      split at rest
      · cases rest
        exact ⟨rfl, rfl⟩
      · split at rest
        · cases rest
          exact ⟨rfl, rfl⟩
        · cases rest
      · cases rest
        exact ⟨rfl, rfl⟩

theorem bread_halts (k t : Kernel) (dev : Dev) (blk : Blk) (e : Halt) (halted : (bread dev blk).run k = .error e t) :
    SameBlocks k t := by
  by_cases free : k.locks .buffer = none
  · have never : ¬(findBlock k dev blk ≠ none ∨ freeBlock k ≠ none) := by
      intro slot
      obtain ⟨b, u, done⟩ := (bread_returns_iff k dev blk).mpr ⟨free, slot⟩
      cases halted.symm.trans done
    obtain ⟨miss, full⟩ := not_or.mp never
    rw [bread_full k dev blk free (not_not.mp miss) (not_not.mp full)] at halted
    cases halted
    exact ⟨rfl, rfl⟩
  · rw [bread_blocked k dev blk free] at halted
    cases halted
    exact ⟨rfl, rfl⟩

namespace Steps

variable {α : Type}

abbrev Stops (x : Steps α) (k t : Kernel) : Prop := Prog.Stops acquire release x k t

theorem stops_bind {β : Type} (x : Steps α) (f : α → Steps β) (k t : Kernel) :
    Stops (x >>= f) k t ↔ Stops x k t ∨ ∃ a u, Returns x k [] a u ∧ Stops (f a) u t :=
  Prog.stops_bind _ _ x f k t

theorem stops_state (f : Kernel → Steps α) (k t : Kernel) : Stops (Prog.state >>= f) k t ↔ Stops (f k) k t := Iff.rfl

theorem file_block_stops (f : FileId) (k : Kernel) (never : ¬∃ b t, (Yaup.fileBlock f).run k = .ok b t) :
    ∃ t, Stops (fileBlock f) k t := by
  rw [file_block_run] at never
  have looked : ∀ t, Stops (fileBlock f) k t ↔ Stops (breadKey (fileKey k f)) k t := stops_state _ k
  simp only [looked]
  revert never
  generalize fileKey k f = key
  intro never
  cases key with
  | none => exact ⟨k, Prog.stops_halt _ _ _ k⟩
  | some key =>
      suffices ∃ t, Stops (bget key.1 key.2) k t by
        obtain ⟨t, stops⟩ := this
        exact ⟨t, (stops_bind _ _ k t).mpr (.inl stops)⟩
      refine Prog.stops_silent _ _ _ k (bget_silent key.1 key.2) ?_
      rintro ⟨b, t, got⟩
      change (alone (bget key.1 key.2)).run k = .ok b t at got
      rw [alone_bget] at got
      exact never ⟨b, _, (run_bind_ok _ _ _ _ _).mpr ⟨b, t, got, bread_body_run t b⟩⟩

theorem file_block_halts (f : FileId) (k t : Kernel) (stops : Stops (fileBlock f) k t) :
    SameBlocks k t ∧ ¬∃ b u, (Yaup.fileBlock f).run k = .ok b u := by
  obtain ⟨-, e, halted⟩ := stops
  change (alone (fileBlock f)).run k = .error e t at halted
  rw [alone_file_block] at halted
  refine ⟨?_, fun ⟨b, u, shown⟩ => by cases halted.symm.trans shown⟩
  rw [file_block_run] at halted
  cases key : fileKey k f with
  | none =>
      rw [key] at halted
      cases halted
      exact ⟨rfl, rfl⟩
  | some key' =>
      rw [key] at halted
      exact bread_halts k t key'.1 key'.2 e halted

theorem head_stops_iff (unset : Unset) (fd : Int) (usr grp oth : UInt16) (bad denied : String)
    (rest : FileId → Steps α) (k : Kernel) (goes : ∀ f t, Stops (rest f) k t ↔ Stops (fileBlock f) k t) :
    ((∃ t, Stops (openFile unset fd usr grp oth bad denied >>= rest) k t) ↔ ¬Reaches k unset fd usr grp oth) ∧
      ∀ t, Stops (openFile unset fd usr grp oth bad denied >>= rest) k t → SameBlocks k t := by
  have silent := open_file_silent unset fd usr grp oth bad denied
  have same := alone_open_file unset fd usr grp oth bad denied
  have parts : ∀ t, Stops (openFile unset fd usr grp oth bad denied >>= rest) k t →
      SameBlocks k t ∧ ¬Reaches k unset fd usr grp oth := by
    intro t stops
    rcases (stops_bind _ _ k t).mp stops with ⟨-, e, halted⟩ | ⟨f, u, ⟨opened, -⟩, after⟩
    · change (alone (openFile unset fd usr grp oth bad denied)).run k = .error e t at halted
      rw [same] at halted
      refine ⟨open_file_halts k t unset fd usr grp oth bad denied e halted, ?_⟩
      rintro ⟨free, may, f, dev, blk, named, key, slot⟩
      cases halted.symm.trans (open_file_run k unset fd usr grp oth bad denied f free named may)
    · change (alone (openFile unset fd usr grp oth bad denied)).run k = .ok f u at opened
      rw [same] at opened
      obtain ⟨rfl, found, -⟩ := open_file_ok k u unset fd usr grp oth bad denied f opened
      obtain ⟨kept, never⟩ := file_block_halts f u t ((goes f t).mp after)
      refine ⟨kept, ?_⟩
      rintro ⟨free, may, g, dev, blk, named, key, slot⟩
      cases found.symm.trans named
      rw [file_block_run, key] at never
      exact never ((bread_returns_iff u dev blk).mpr slot)
  refine ⟨⟨fun ⟨t, stops⟩ => (parts t stops).2, fun barred => ?_⟩, fun t stops => (parts t stops).1⟩
  by_cases returns : ∃ f t, (Yaup.openFile unset fd usr grp oth bad denied).run k = .ok f t
  · obtain ⟨f, t, opened⟩ := returns
    obtain ⟨rfl, -, -⟩ := open_file_ok k t unset fd usr grp oth bad denied f opened
    obtain ⟨u, stops⟩ : ∃ u, Stops (fileBlock f) t u := file_block_stops f t fun ⟨b, u, shown⟩ =>
      barred (reaches_block t u unset fd usr grp oth bad denied f b opened shown)
    rw [← same] at opened
    exact ⟨u, (stops_bind _ _ t u).mpr (.inr ⟨f, t, ⟨opened, silent t⟩, (goes f u).mpr stops⟩)⟩
  · rw [← same] at returns
    obtain ⟨t, stops⟩ := Prog.stops_silent _ _ _ k silent returns
    exact ⟨t, (stops_bind _ _ k t).mpr (.inl stops)⟩

-- Past the test of the flag, which no flag fails, comes the read of the block.
theorem block_stops_iff (f : FileId) (k t : Kernel) (rest : BufId → Steps α) :
    Stops (fileBlock f >>= rest) k t ↔ Stops (fileBlock f) k t := by
  rw [stops_bind]
  constructor
  · rintro (stops | ⟨b, u, shown, -⟩)
    · exact stops
    · cases file_block_notes f k u [] b shown
  · exact .inl

theorem sys_read_stops_iff (unset : Unset) (fd : Int) (buffsize : UInt64) (k : Kernel) :
    ((∃ t, Stops (sysRead unset fd buffsize) k t) ↔ unset.clamp = none ∨ ¬Reaches k unset fd irusr irgrp iroth) ∧
      ∀ t, Stops (sysRead unset fd buffsize) k t → SameBlocks k t := by
  unfold sysRead
  cases unset.clamp with
  | none =>
      refine ⟨iff_of_true ⟨k, Prog.stops_halt _ _ _ k⟩ (.inl rfl), ?_⟩
      rintro t ⟨-, e, halted⟩
      cases halted
      exact ⟨rfl, rfl⟩
  | some pair =>
      rw [or_iff_right (Option.some_ne_none pair)]
      refine head_stops_iff unset fd irusr irgrp iroth _ _ _ k fun f t => ?_
      have mask : (if fread = 0 then 1 else 0 : UInt8) = 0 := rfl
      rw [stops_state, mask, UInt8.and_zero, if_neg fun other => other rfl]
      exact block_stops_iff f k t _

theorem sys_write_stops_iff (balloc : Dev → Steps BufId) (unset : Unset) (fd : Int) (buf : Bytes) (k : Kernel) :
    ((∃ t, Stops (sysWrite balloc unset fd buf) k t) ↔ ¬Reaches k unset fd iwusr iwgrp iwoth) ∧
      ∀ t, Stops (sysWrite balloc unset fd buf) k t → SameBlocks k t := by
  unfold sysWrite
  refine head_stops_iff unset fd iwusr iwgrp iwoth _ _ _ k fun f t => ?_
  have mask : (if fwrt = 0 then 1 else 0 : UInt8) = 0 := rfl
  rw [stops_state, mask, UInt8.and_zero, if_neg fun other => other rfl]
  exact block_stops_iff f k t _

end Steps

def Flagged (k : Kernel) (fd : Int) (flag : UInt8) : Prop :=
  ∃ f, (k.procs k.current).filp fd = some (some f) ∧ (k.files f).fFlag &&& flag ≠ 0

structure Issued where
  p : Pid
  wild : Wild
  op : Operation

def Ends (k : Kernel) (issued : Issued) (t : Kernel) : Prop :=
  issued.op.run.run (begun k issued.p issued.wild) = .ok () t ∨
    ∃ e, issued.op.run.run (begun k issued.p issued.wild) = .error e t

def FlagGuards (k : Kernel) (t : Kernel) : Operation → Prop
  | .sysRead unset fd buffsize =>
      Flagged k fd fread ∨ (Steps.sysRead unset fd buffsize).Stops k t ∧ SameBlocks k t
  | .sysWrite getFreePosAt block turns unset fd buf =>
      Flagged k fd fwrt ∨
        (Steps.sysWrite (Steps.ballocBuffer getFreePosAt block turns) unset fd buf).Stops k t ∧ SameBlocks k t
  | _ => True

def OtherwiseBarred (k : Kernel) : Operation → Prop
  | .sysRead unset fd _ => Flagged k fd fread ∨ unset.clamp = none ∨ ¬Reaches k unset fd irusr irgrp iroth
  | .sysWrite _ _ _ unset fd _ => Flagged k fd fwrt ∨ ¬Reaches k unset fd iwusr iwgrp iwoth
  | _ => True

theorem stops_as_ended {α : Type} (x : Steps α) (k u t : Kernel) (call : Kern Unit) (same : x.only.alone = call)
    (ended : call.run k = .ok () t ∨ ∃ e, call.run k = .error e t) (stops : x.Stops k u) : t = u := by
  obtain ⟨-, e, halted⟩ := (Steps.stops_bind x (fun _ => pure ()) k u).mpr (.inl stops)
  have halted' : call.run k = .error e u := by
    rw [← same]
    exact halted
  rcases ended with returned | ⟨e', stopped⟩
  · cases halted'.symm.trans returned
  · cases halted'.symm.trans stopped
    rfl

theorem flag_guards_iff (k t : Kernel) (op : Operation)
    (ended : op.run.run k = .ok () t ∨ ∃ e, op.run.run k = .error e t) : FlagGuards k t op ↔ OtherwiseBarred k op := by
  have same := operation_alone op
  cases op with
  | sysRead unset fd buffsize =>
      obtain ⟨barred, kept⟩ := Steps.sys_read_stops_iff unset fd buffsize k
      rw [FlagGuards, OtherwiseBarred, ← barred]
      refine or_congr_right ⟨fun stops => ⟨t, stops.1⟩, ?_⟩
      rintro ⟨u, stops⟩
      obtain rfl := stops_as_ended _ k u t _ same ended stops
      exact ⟨stops, kept _ stops⟩
  | sysWrite getFreePosAt block turns unset fd buf =>
      obtain ⟨barred, kept⟩ := Steps.sys_write_stops_iff (Steps.ballocBuffer getFreePosAt block turns) unset fd buf k
      rw [FlagGuards, OtherwiseBarred, ← barred]
      refine or_congr_right ⟨fun stops => ⟨t, stops.1⟩, ?_⟩
      rintro ⟨u, stops⟩
      obtain rfl := stops_as_ended _ k u t _ same ended stops
      exact ⟨stops, kept _ stops⟩
  | _ => exact Iff.rfl

theorem flags_guard_iff (first last : Kernel) (moves : List (Move Kernel Issued)) (run : Run Ends first moves last) :
    ∀ move ∈ moves,
      (FlagGuards (begun move.before move.act.p move.act.wild) move.after move.act.op ↔
        OtherwiseBarred (begun move.before move.act.p move.act.wild) move.act.op) := by
  intro move member
  exact flag_guards_iff _ _ move.act.op (run_moves_taken Ends first last moves run move member)

theorem operation_ends (op : Operation) (k : Kernel) :
    ∃ t, op.run.run k = .ok () t ∨ ∃ e, op.run.run k = .error e t := by
  cases op.run.run k with
  | ok a t => exact ⟨t, .inl rfl⟩
  | error e t => exact ⟨t, .inr ⟨e, rfl⟩⟩

-- Descriptor 3 of process 0 on the file of ten bytes, opened with FWRT alone.
def writeOnly : Kernel := (tenByteFile 0).setFile 0 ⟨0o100700, fwrt, 1, 0, some 0⟩

theorem write_only_reaches : Reaches writeOnly setLocals 3 irusr irgrp iroth := by
  have opened := ten_byte_file_open 0 (by decide)
  have key := file_key_opened (tenByteFile 0) 3 0 0 opened
  have ready := ten_byte_file_ready 0
  have same : fileKey writeOnly 0 = fileKey (tenByteFile 0) 0 := by
    rw [fileKey, fileKey, opened.inode]
    rfl
  exact ⟨ready.free, ⟨tenBytes, rfl, by decide⟩, 0, _, _, opened.named, same.trans key, ready.table, .inr ready.room⟩

theorem read_through_write_only :
    ¬∀ (first last : Kernel) (moves : List (Move Kernel Issued)), Run Ends first moves last →
      ∀ move ∈ moves, FlagGuards (begun move.before move.act.p move.act.wild) move.after move.act.op := by
  intro claim
  let op : Operation := .sysRead setLocals 3 1
  obtain ⟨t, ended⟩ := operation_ends op writeOnly
  have guards := claim writeOnly t [⟨writeOnly, ⟨0, writeOnly.wild, op⟩, t⟩] (.cons _ _ _ _ _ ended (.nil t))
    _ List.mem_cons_self
  rcases (flag_guards_iff writeOnly t op ended).mp guards with ⟨f, named, flag⟩ | unset | barred
  · cases (ten_byte_file_open 0 (by decide)).named.symm.trans named
    revert flag
    decide
  · cases unset
  · exact barred write_only_reaches

-- There sys_read stops at its clamp, and sys_write finds its flag.
theorem flags_guard_write_only :
    ∃ (moves : List (Move Kernel Issued)) (last : Kernel),
      moves.map (fun move => move.act.op) =
        [.sysRead ⟨none, none⟩ 3 1, .sysWrite (fun _ _ => none) none 0 setLocals 3 [120]] ∧ Run Ends writeOnly moves last ∧
      ∀ move ∈ moves, FlagGuards (begun move.before move.act.p move.act.wild) move.after move.act.op := by
  let stopped : Operation := .sysRead ⟨none, none⟩ 3 1
  let flagged : Operation := .sysWrite (fun _ _ => none) none 0 setLocals 3 [120]
  obtain ⟨t, ended⟩ := operation_ends flagged writeOnly
  have run : Run Ends writeOnly [⟨writeOnly, ⟨0, writeOnly.wild, stopped⟩, writeOnly⟩,
      ⟨writeOnly, ⟨0, writeOnly.wild, flagged⟩, t⟩] t :=
    .cons _ _ _ _ _ (.inr ⟨_, rfl⟩) (.cons _ _ _ _ _ ended (.nil t))
  refine ⟨_, t, rfl, run, fun move member => (flags_guard_iff _ _ _ run move member).mpr ?_⟩
  rcases List.mem_pair.mp member with rfl | rfl
  · exact .inr (.inl rfl)
  · have flag : (writeOnly.files 0).fFlag &&& fwrt ≠ 0 := by decide
    exact .inl ⟨0, (ten_byte_file_open 0 (by decide)).named, flag⟩

end Yaup
