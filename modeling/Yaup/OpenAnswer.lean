import Yaup.FileSharing

set_option autoImplicit false

namespace Yaup

open Lib

structure Openable (k : Kernel) (i : InodeId) : Prop where
  regular : (k.inodes i).iMode &&& ifmt = ifreg
  slot : ∃ f, (k.files f).fCount = 0
  descriptor : ∃ fd : Fin nrOfiles, 3 ≤ fd.val ∧ (k.procs k.current).pFilp fd = none

def DescriptorGiven (k t : Kernel) (r : Int) (name : Dev × Ino) : Prop :=
  ∃ fd : Fin nrOfiles, r = fd.val ∧ 3 ≤ fd.val ∧ (k.procs k.current).pFilp fd = none ∧
    (∃ f, (t.procs k.current).pFilp fd = some f ∧ OpenOn t f name) ∧
      ∀ other, other ≠ fd → (t.procs k.current).pFilp other = (k.procs k.current).pFilp other

structure NotOpened (k t : Kernel) (r : Int) : Prop where
  negative : r < 0
  counts : ∀ i, (t.inodes i).iCount = (k.inodes i).iCount
  files : t.files = k.files
  descriptors : ∀ p, (t.procs p).pFilp = (k.procs p).pFilp

structure OpenRight (k : Kernel) (path : List UInt8) (flags : UInt32) (mode : UInt16) : Prop where
  opens : ∀ i s, (namei path).run k = .ok i s → Openable s i →
    ∃ r t, (sysOpen path flags mode).run k = .ok r t ∧ DescriptorGiven k t r (s.inodes i).named
  refuses : (∀ i s, (namei path).run k = .ok i s → ¬Openable s i) →
    ∃ r t, (sysOpen path flags mode).run k = .ok r t ∧ NotOpened k t r

theorem namei_lookup (path : List UInt8) (k s : Kernel) (i : InodeId) (looked : (namei path).run k = .ok i s) :
    LookupFrame k s :=
  (namei_keeps (LookupFrame k) (lookup_stable k) path k ⟨rfl, rfl, rfl⟩).1 i s looked

theorem open_inode_answers (k t : Kernel) (i : InodeId) (flags : UInt32) (f : FileId) (x : File) (fd : Fin nrOfiles)
    (taken : opens k i flags = some (f, x)) (empty : freeFd (k.procs k.current) = some fd)
    (ended : Over (openInode i flags) k t) : (openInode i flags).run k = .ok einprogress t := by
  have regular : (k.inodes i).iMode &&& ifmt = ifreg := by
    by_contra other
    rw [opens, if_neg other] at taken
    cases taken
  rw [opens, if_pos regular] at taken
  rw [open_inode_parts] at ended ⊢
  rw [run_get_bind, if_neg (not_not.mpr regular)]
  replace ended := (over_get _ k t).mp ended
  rw [if_neg (not_not.mpr regular)] at ended
  have table : k.locks .openFiles = none := by
    by_contra held
    rcases (over_bind _ _ _ _).mp ended with ⟨answer, s, got, -⟩ | ⟨e, halted, waits⟩
    · cases (fget_blocked k i flags held).symm.trans got
    · cases (fget_blocked k i flags held).symm.trans halted
      exact waits _ rfl
  obtain ⟨s, got, frame, -, -⟩ := fget_picks k i flags f x table taken
  have mine : s.procs s.current = k.procs k.current := by
    rw [frame.current, frame.procs]
    rfl
  rcases (over_bind _ _ _ _).mp ended with ⟨answer, u, again, rest⟩ | ⟨e, halted, -⟩
  · cases got.symm.trans again
    rcases (over_bind _ _ _ _).mp rest with ⟨c, v, found, last⟩ | ⟨e, halted, waits⟩
    · obtain ⟨-, ⟨full, -, -⟩ | ⟨c', free, rfl, rfl⟩⟩ := fdget_cases s v c found
      · rw [mine, empty] at full
        cases full
      · obtain ⟨unlocked, after⟩ := over_acquire _ _ v t last
        have done : (takeFd i f (some c')).run v = .ok einprogress t := by
          rw [takeFd, run_get_bind, EStateM.run_bind, acquire_free v _ unlocked]
          rcases after with ⟨r, done⟩ | ⟨e, halted, -⟩
          · cases done
            rfl
          · cases halted
        exact (run_bind_ok _ _ _ _ _).mpr ⟨some f, v, got, (run_bind_ok _ _ _ _ _).mpr ⟨some c', v, found, done⟩⟩
    · exact absurd (fdget_halts s t e halted) (waits _)
  · cases got.symm.trans halted

theorem free_fd_some (p : Proc) (fd : Fin nrOfiles) (found : freeFd p = some fd) : 3 ≤ fd.val ∧ p.pFilp fd = none := by
  simp only [freeFd, Fin.find?_eq_some_iff, decide_eq_true_eq] at found
  exact found.1

theorem sys_open_done (k s t : Kernel) (path : List UInt8) (flags : UInt32) (mode : UInt16) (i : InodeId) (r : Int)
    (looked : (namei path).run k = .ok i s) (done : (sysOpen path flags mode).run k = .ok r t) :
    (openInode i flags).run s = .ok r t := by
  obtain ⟨_, _, again, opened⟩ := (run_bind_ok _ _ _ _ _).mp done
  rw [looked] at again
  cases again
  exact opened

section
variable (k : Kernel) (path : List UInt8) (flags : UInt32) (mode : UInt16)

theorem open_answer (s t : Kernel) (i : InodeId) (r : Int) (looked : (namei path).run k = .ok i s)
    (done : (sysOpen path flags mode).run k = .ok r t) :
    r = einprogress ∧ ∃ f x fd, opens s i flags = some (f, x) ∧ freeFd (s.procs s.current) = some fd ∧
      TableFrame (s.opened f x fd) t := by
  have opened := sys_open_done k s t path flags mode i r looked done
  exact ⟨(open_inode_cases s t i flags r opened).1, open_inode_done s t i flags r opened⟩

theorem given_at_35 (s t : Kernel) (i : InodeId) (f : FileId) (x : File) (fd : Fin nrOfiles)
    (frame : LookupFrame k s) (free : freeFd (s.procs s.current) = some fd)
    (opened : TableFrame (s.opened f x fd) t) :
    DescriptorGiven k t einprogress (s.inodes i).named ↔
      fd.val = 35 ∧ OpenOn (s.setFile f x) f (s.inodes i).named := by
  obtain ⟨high, unused⟩ := free_fd_some _ fd free
  rw [frame.current, frame.procs] at unused
  have table : (t.procs k.current).pFilp = Function.update (k.procs k.current).pFilp fd (some f) := by
    rw [opened.procs]
    simp [Kernel.opened, frame.current, frame.procs]
  have on : ∀ name, OpenOn t f name ↔ OpenOn (s.setFile f x) f name := by
    intro name
    rw [OpenOn, OpenOn, opened.files, opened.inodes]
    rfl
  constructor
  · rintro ⟨c, answer, -, before, ⟨g, given, names⟩, -⟩
    have same : c = fd := by
      by_contra other
      rw [table, Function.update_of_ne other, before] at given
      cases given
    subst same
    rw [table, Function.update_self] at given
    cases given
    refine ⟨?_, (on _).mp names⟩
    exact (Int.ofNat_inj.mp answer).symm
  · rintro ⟨value, names⟩
    refine ⟨fd, ?_, high, unused, ⟨f, ?_, (on _).mpr names⟩, fun other apart => ?_⟩
    · rw [value]
      rfl
    · rw [table, Function.update_self]
    · rw [table, Function.update_of_ne apart]

theorem sys_open_right_iff (t : Kernel) (ended : Over (sysOpen path flags mode) k t) :
    OpenRight k path flags mode ↔
      ∃ i s f x fd, (namei path).run k = .ok i s ∧ Openable s i ∧ freeFd (s.procs s.current) = some fd ∧
        fd.val = 35 ∧ opens s i flags = some (f, x) ∧ OpenOn (s.setFile f x) f (s.inodes i).named := by
  constructor
  · intro right
    by_cases may : ∃ i s, (namei path).run k = .ok i s ∧ Openable s i
    · obtain ⟨i, s, looked, openable⟩ := may
      obtain ⟨r, u, done, given⟩ := right.opens i s looked openable
      obtain ⟨rfl, f, x, fd, taken, free, frame⟩ := open_answer k path flags mode s u i r looked done
      obtain ⟨value, names⟩ :=
        (given_at_35 k s u i f x fd (namei_lookup path k s i looked) free frame).mp given
      exact ⟨i, s, f, x, fd, looked, openable, free, value, taken, names⟩
    · obtain ⟨r, u, done, refused⟩ := right.refuses fun i s looked openable => may ⟨i, s, looked, openable⟩
      obtain ⟨i, s, looked, opened⟩ := (run_bind_ok _ _ _ _ _).mp done
      have positive := (open_inode_cases s u i flags r opened).1
      have negative := refused.negative
      rw [positive] at negative
      exact absurd negative (by decide)
  · rintro ⟨i, s, f, x, fd, looked, openable, free, value, taken, names⟩
    refine ⟨fun j u again _ => ?_, fun none => absurd openable (none i s looked)⟩
    cases looked.symm.trans again
    have ends : Over (openInode i flags) s t := by
      rcases (over_bind _ _ _ _).mp ended with ⟨j, u, again, rest⟩ | ⟨e, halted, -⟩
      · cases looked.symm.trans again
        exact rest
      · cases looked.symm.trans halted
    have opened := open_inode_answers s t i flags f x fd taken free ends
    have done : (sysOpen path flags mode).run k = .ok einprogress t :=
      (run_bind_ok _ _ _ _ _).mpr ⟨i, s, looked, opened⟩
    obtain ⟨-, g, y, c, again, same, frame⟩ := open_answer k path flags mode s t i _ looked done
    cases taken.symm.trans again
    cases free.symm.trans same
    exact ⟨_, t, done, (given_at_35 k s t i f x fd (namei_lookup path k s i looked) free frame).mpr ⟨value, names⟩⟩

end

theorem two_devices_openable : Openable twoDevices 0 := ⟨by decide, ⟨1, by decide⟩, ⟨4, by decide⟩⟩

theorem open_answers_35 : ¬OpenRight twoDevices [47, 0] 1 0 := by
  intro right
  have root := namei_root twoDevices []
  obtain ⟨r, t, done, given⟩ := right.opens 0 twoDevices root two_devices_openable
  obtain ⟨rfl, f, x, fd, -, free, frame⟩ := open_answer twoDevices [47, 0] 1 0 twoDevices t 0 r root done
  have same : fd = 4 := Option.some.inj (free.symm.trans two_devices_fd)
  obtain ⟨value, -⟩ := (given_at_35 twoDevices twoDevices t 0 f x fd ⟨rfl, rfl, rfl⟩ free frame).mp given
  rw [same] at value
  exact absurd value (by decide)

def manyOpen : Kernel :=
  twoDevices.setProc 0 { twoDevices.procs 0 with pFilp := fun fd => if 3 ≤ fd.val ∧ fd.val < 35 then some 0 else none }

theorem many_open_fd : freeFd (manyOpen.procs manyOpen.current) = some 35 := by
  simp only [freeFd, Fin.find?_eq_some_iff]
  decide

theorem many_open_opens : opens manyOpen 0 1 = some (0, (manyOpen.files 0).shared) := by
  have stop : stopFile manyOpen 0 = some 0 :=
    (stop_file_some manyOpen 0 0).mpr ⟨.inr rfl, fun g below => absurd below (Fin.not_lt_zero g)⟩
  have seen : fileNum manyOpen 0 ≠ none := Option.some_ne_none _
  rw [opens, if_pos (by decide)]
  unfold picked
  rw [stop]
  dsimp only
  rw [if_neg seen]

theorem sys_open_right_35 : OpenRight manyOpen [47, 0] 1 0 := by
  have root := namei_root manyOpen []
  obtain ⟨t, done⟩ := open_inode_run manyOpen 0 1 0 _ 35 (fun _ _ => rfl) many_open_opens many_open_fd
  have run : (sysOpen [47, 0] 1 0).run manyOpen = .ok einprogress t :=
    (run_bind_ok _ _ _ _ _).mpr ⟨0, manyOpen, root, done⟩
  exact (sys_open_right_iff manyOpen [47, 0] 1 0 t (.inl ⟨_, run⟩)).mpr
    ⟨0, manyOpen, 0, _, 35, root, ⟨by decide, ⟨1, by decide⟩, ⟨35, by decide⟩⟩, many_open_fd, rfl, many_open_opens,
      (shared_open_on manyOpen 0 _).mpr ⟨0, rfl, rfl⟩⟩

end Yaup
