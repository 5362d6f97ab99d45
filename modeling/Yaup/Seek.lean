import Yaup.ReadBack

set_option autoImplicit false

namespace Yaup

open Lib

section
variable (k : Kernel) (fd : Int) (f : FileId) (i : InodeId) (offset : UInt64) (whence : Int)

def Refuses : Prop := ∃ msg t, (sysSeek fd offset whence).run k = .error (.panic msg) t

def SeeksTo (target : UInt64) : Prop :=
  (∀ off t, (sysSeek fd offset whence).run k = .ok off t → (t.files f).fOff = target) ∧
    (target < (k.inodes i).iSize → ¬Refuses k fd offset whence)

-- From the end: one target for the file and the offset, wherever the cursor is, and each byte
-- of the file is the target of some offset.
structure SeekRight : Prop where
  set : whence = seekSet → SeeksTo k fd f i offset whence offset
  cur : whence = seekCur → SeeksTo k fd f i offset whence ((k.files f).fOff + offset)
  fromEnd : whence = seekEnd → ∃ target : UInt64 → UInt64, (∀ place < (k.inodes i).iSize, ∃ back, target back = place) ∧
    ∀ back cursor, SeeksTo (k.moveTo f cursor) fd f i back whence (target back)
  kept : ∀ e t, (sysSeek fd offset whence).run k = .error e t → (t.files f).fOff = (k.files f).fOff

theorem sys_seek_waits (taken : k.locks (.proc k.current) ≠ none) (low : fd < nrOfiles) :
    (sysSeek fd offset whence).run k = .error (.blocked (.proc k.current)) k := by
  have inside : ¬ fd ≥ nrOfiles := Int.not_le.mpr low
  rw [sysSeek, if_neg inside]
  simp only [EStateM.run_bind, EStateM.run_get, acquire_blocked k _ taken]

def Kernel.seekEnds (k : Kernel) (f : FileId) (i : InodeId) : Option UInt64 → EStateM.Result Halt Kernel UInt64
  | none => .error (.panic "sys_seek: invalid reference position") k
  | some off =>
      if 0 < off ∧ off < (k.inodes i).iSize then .ok off (k.moveTo f off)
      else .error (.panic "sys_seek: bad offset") k

theorem sys_seek_run (free : k.locks (.proc k.current) = none)
    (named : (k.procs k.current).filp fd = some (some f)) (inode : (k.files f).fInode = some i) :
    (sysSeek fd offset whence).run k = k.seekEnds f i (seekOff (k.files f) offset whence) := by
  have inside : ¬ fd ≥ nrOfiles := Int.not_le.mpr (filp_low _ fd _ named)
  rw [sysSeek, if_neg inside]
  simp only [EStateM.run_bind, EStateM.run_get, acquire_free k _ free, named, release_run,
    Kernel.unlock_lock k _ free]
  cases seekOff (k.files f) offset whence with
  | none => rfl
  | some off =>
      by_cases zero : off = 0
      · subst zero
        rfl
      · have positive : 0 < off := UInt64.pos_iff_ne_zero.mpr zero
        have above : ¬ off ≤ 0 := UInt64.not_le.mpr positive
        by_cases small : off < (k.inodes i).iSize
        · have within : ¬ off ≥ (k.inodes i).iSize := UInt64.not_le.mpr small
          simp only [Kernel.seekEnds, Kernel.moveTo, if_neg above, if_neg within, if_pos (And.intro positive small),
            inode, EStateM.run_bind, EStateM.run_pure, EStateM.run_set]
        · have beyond : off ≥ (k.inodes i).iSize := UInt64.not_lt.mp small
          simp only [Kernel.seekEnds, if_neg above, if_pos beyond, if_neg fun both : 0 < off ∧ _ => small both.2,
            inode, EStateM.run_bind, panic_run]

theorem seeks_to_iff (target off : UInt64) (free : k.locks (.proc k.current) = none)
    (named : (k.procs k.current).filp fd = some (some f)) (inode : (k.files f).fInode = some i)
    (aimed : seekOff (k.files f) offset whence = some off) :
    SeeksTo k fd f i offset whence target ↔
      ((0 < off ∧ off < (k.inodes i).iSize → off = target) ∧
        (target < (k.inodes i).iSize → 0 < off ∧ off < (k.inodes i).iSize)) := by
  rw [SeeksTo, Refuses, sys_seek_run k fd f i offset whence free named inode, aimed, Kernel.seekEnds]
  by_cases takes : 0 < off ∧ off < (k.inodes i).iSize
  · have cursor : ((k.moveTo f off).files f).fOff = off := by
      rw [Kernel.moveTo, Kernel.setFile_files, Function.update_self]
    rw [if_pos takes]
    constructor
    · rintro ⟨sets, -⟩
      exact ⟨fun _ => cursor.symm.trans (sets off _ rfl), fun _ => takes⟩
    · rintro ⟨same, -⟩
      refine ⟨fun off' t done => ?_, fun _ refused => ?_⟩
      · cases done
        exact cursor.trans (same takes)
      · obtain ⟨msg, t, halted⟩ := refused
        cases halted
  · rw [if_neg takes]
    constructor
    · rintro ⟨-, accepts⟩
      exact ⟨fun took => absurd took takes, fun low => absurd ⟨_, _, rfl⟩ (accepts low)⟩
    · rintro ⟨-, accepts⟩
      refine ⟨fun off' t done => ?_, fun low => absurd (accepts low) takes⟩
      cases done

theorem seeks_to_target (target : UInt64) (free : k.locks (.proc k.current) = none)
    (named : (k.procs k.current).filp fd = some (some f)) (inode : (k.files f).fInode = some i)
    (aimed : seekOff (k.files f) offset whence = some target) :
    SeeksTo k fd f i offset whence target ↔ (target = 0 → (k.inodes i).iSize = 0) := by
  rw [seeks_to_iff k fd f i offset whence target target free named inode aimed]
  constructor
  · rintro ⟨-, accepts⟩ zero
    by_contra nonempty
    have low : target < (k.inodes i).iSize := zero ▸ UInt64.pos_iff_ne_zero.mpr nonempty
    exact UInt64.lt_irrefl _ (zero ▸ (accepts low).1)
  · intro start
    refine ⟨fun _ => rfl, fun low => ⟨UInt64.pos_iff_ne_zero.mpr fun zero => ?_, low⟩⟩
    rw [start zero] at low
    exact UInt64.not_lt_zero low

theorem seeks_to_waits (target : UInt64) (taken : k.locks (.proc k.current) ≠ none)
    (named : (k.procs k.current).filp fd = some (some f)) : SeeksTo k fd f i offset whence target := by
  rw [SeeksTo, Refuses, sys_seek_waits k fd offset whence taken (filp_low _ fd _ named)]
  refine ⟨fun off t done => ?_, fun _ refused => ?_⟩
  · cases done
  · obtain ⟨msg, t, halted⟩ := refused
    cases halted

theorem seeks_from_end (free : k.locks (.proc k.current) = none)
    (named : (k.procs k.current).filp fd = some (some f)) (inode : (k.files f).fInode = some i) :
    (∃ target : UInt64 → UInt64, (∀ place < (k.inodes i).iSize, ∃ back, target back = place) ∧
      ∀ back cursor, SeeksTo (k.moveTo f cursor) fd f i back seekEnd (target back)) ↔ (k.inodes i).iSize = 0 := by
  have each : ∀ back cursor target, SeeksTo (k.moveTo f cursor) fd f i back seekEnd target ↔
      ((0 < cursor - back ∧ cursor - back < (k.inodes i).iSize → cursor - back = target) ∧
        (target < (k.inodes i).iSize → 0 < cursor - back ∧ cursor - back < (k.inodes i).iSize)) := by
    intro back cursor target
    refine seeks_to_iff (k.moveTo f cursor) fd f i back seekEnd target (cursor - back) free named ?_ ?_
    · simpa [Kernel.moveTo] using inode
    · simp [Kernel.moveTo, seekOff, seekEnd, seekCur]
  constructor
  · rintro ⟨target, onto, right⟩
    by_contra nonempty
    have start : 0 < (k.inodes i).iSize := UInt64.pos_iff_ne_zero.mpr nonempty
    obtain ⟨back, first⟩ := onto 0 start
    have accepts := ((each back back (target back)).mp (right back back)).2
    rw [first, UInt64.sub_self] at accepts
    exact UInt64.lt_irrefl _ (accepts start).1
  · intro empty
    refine ⟨id, fun place low => ⟨place, rfl⟩, fun back cursor => (each back cursor back).mpr ⟨fun inside => ?_, fun low => ?_⟩⟩
    · exact absurd (empty ▸ inside.2) UInt64.not_lt_zero
    · exact absurd (empty ▸ low) UInt64.not_lt_zero

theorem seek_error_keeps (named : (k.procs k.current).filp fd = some (some f)) (inode : (k.files f).fInode = some i)
    (e : Halt) (t : Kernel) (halted : (sysSeek fd offset whence).run k = .error e t) :
    (t.files f).fOff = (k.files f).fOff := by
  by_cases free : k.locks (.proc k.current) = none
  · rw [sys_seek_run k fd f i offset whence free named inode] at halted
    cases aimed : seekOff (k.files f) offset whence with
    | none =>
        rw [aimed] at halted
        cases halted
        rfl
    | some off =>
        rw [aimed, Kernel.seekEnds] at halted
        split at halted
        · cases halted
        · cases halted
          rfl
  · rw [sys_seek_waits k fd offset whence free (filp_low _ fd _ named)] at halted
    cases halted
    rfl

theorem seek_right_iff (named : (k.procs k.current).filp fd = some (some f)) (inode : (k.files f).fInode = some i) :
    SeekRight k fd f i offset whence ↔
      k.locks (.proc k.current) ≠ none ∨
        ((whence = seekSet → offset = 0 → (k.inodes i).iSize = 0) ∧
          (whence = seekCur → (k.files f).fOff + offset = 0 → (k.inodes i).iSize = 0) ∧
          (whence = seekEnd → (k.inodes i).iSize = 0)) := by
  have kept := seek_error_keeps k fd f i offset whence named inode
  by_cases free : k.locks (.proc k.current) = none
  · rw [or_iff_right (not_not.mpr free)]
    have set : whence = seekSet → (SeeksTo k fd f i offset whence offset ↔ (offset = 0 → (k.inodes i).iSize = 0)) := by
      rintro rfl
      exact seeks_to_target k fd f i offset seekSet offset free named inode rfl
    have cur : whence = seekCur → (SeeksTo k fd f i offset whence ((k.files f).fOff + offset) ↔
        ((k.files f).fOff + offset = 0 → (k.inodes i).iSize = 0)) := by
      rintro rfl
      exact seeks_to_target k fd f i offset seekCur _ free named inode rfl
    have fromEnd : whence = seekEnd → ((∃ target : UInt64 → UInt64,
        (∀ place < (k.inodes i).iSize, ∃ back, target back = place) ∧
          ∀ back cursor, SeeksTo (k.moveTo f cursor) fd f i back whence (target back)) ↔ (k.inodes i).iSize = 0) := by
      rintro rfl
      exact seeks_from_end k fd f i free named inode
    constructor
    · intro right
      exact ⟨fun w => (set w).mp (right.set w), fun w => (cur w).mp (right.cur w),
        fun w => (fromEnd w).mp (right.fromEnd w)⟩
    · rintro ⟨first, second, third⟩
      exact ⟨fun w => (set w).mpr (first w), fun w => (cur w).mpr (second w), fun w => (fromEnd w).mpr (third w), kept⟩
  · refine iff_of_true ⟨fun _ => ?_, fun _ => ?_, fun _ => ⟨id, fun place _ => ⟨place, rfl⟩, fun back cursor => ?_⟩, kept⟩
      (.inl free)
    · exact seeks_to_waits k fd f i offset whence _ free named
    · exact seeks_to_waits k fd f i offset whence _ free named
    · exact seeks_to_waits (k.moveTo f cursor) fd f i back whence _ free named

end

-- The file of ten bytes goes to byte 4, and not back to its start.
theorem seek_right_four : SeekRight (tenByteFile 0) 3 0 0 4 seekSet :=
  (seek_right_iff (tenByteFile 0) 3 0 0 4 seekSet (ten_byte_file_open 0 (by decide)).named rfl).mpr
    (.inr ⟨fun _ zero => absurd zero (by decide), fun other => absurd other (by decide),
      fun other => absurd other (by decide)⟩)

theorem seek_refuses_start : ¬SeekRight (tenByteFile 4) 3 0 0 0 seekSet := by
  intro right
  have low : (0 : UInt64) < ((tenByteFile 4).inodes 0).iSize := by decide
  refine (right.set rfl).2 low ⟨"sys_seek: bad offset", tenByteFile 4, ?_⟩
  exact sys_seek_run (tenByteFile 4) 3 0 0 0 seekSet rfl (ten_byte_file_open 4 (by decide)).named rfl

end Yaup
