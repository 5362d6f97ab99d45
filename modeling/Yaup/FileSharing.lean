import Yaup.FileTable

set_option autoImplicit false

namespace Yaup

open Lib

def Goes (k : Kernel) (i : InodeId) (f : FileId) : Prop :=
  fileNum k f ≠ none ∧ fileNum k f ≠ some (k.inodes i).iNum

def SlotUsed (k : Kernel) (f : FileId) : Prop := (k.files f).fCount ≠ 0

def OpenOn (k : Kernel) (f : FileId) (name : Dev × Ino) : Prop :=
  ∃ j, (k.files f).fInode = some j ∧ (k.inodes j).named = name

def AnswerRight (k t : Kernel) (i : InodeId) : Option FileId → Prop
  | some f => OpenOn t f (k.inodes i).named
  | none => ∀ f, SlotUsed k f ∧ ¬OpenOn k f (k.inodes i).named

def FgetRight (k : Kernel) (i : InodeId) (flags : UInt32) : Prop :=
  k.locks .openFiles = none →
    (∀ f, (∀ g < f, Goes k i g) → SlotUsed k f) ∧
      ∃ answer t, (fget i flags).run k = .ok answer t ∧ AnswerRight k t i answer

-- The first slot with the inode's number is open on the inode's device too, and has no
-- unused slot before it; or all slots are in use, and none has the number.
def NumberFound (k : Kernel) (i : InodeId) : Prop :=
  (∃ f, OpenOn k f (k.inodes i).named ∧ (∀ g < f, Goes k i g) ∧ ∀ g ≤ f, SlotUsed k g) ∨
    ∀ f, Goes k i f ∧ SlotUsed k f

theorem open_on_number (k : Kernel) (i : InodeId) (f : FileId) (opened : OpenOn k f (k.inodes i).named) :
    fileNum k f = some (k.inodes i).iNum := by
  obtain ⟨j, inode, named⟩ := opened
  rw [fileNum, inode]
  exact congrArg (fun name : Dev × Ino => some name.2) named

theorem shared_open_on (k : Kernel) (f : FileId) (name : Dev × Ino) :
    OpenOn (k.setFile f (k.files f).shared) f name ↔ OpenOn k f name := by
  simp [OpenOn, File.shared]

theorem fget_right_iff (k : Kernel) (i : InodeId) (flags : UInt32) :
    FgetRight k i flags ↔ (k.locks .openFiles = none → NumberFound k i) := by
  refine imp_congr_right fun free => ?_
  constructor
  · rintro ⟨used, answer, t, got, right⟩
    rcases Option.eq_none_or_eq_some (stopFile k i) with miss | ⟨f, stop⟩
    · have goes := (stop_file_none k i).mp miss
      exact .inr fun f => ⟨goes f, used f fun g _ => goes g⟩
    · obtain ⟨hit, earlier⟩ := (stop_file_some k i f).mp stop
      by_cases seen : fileNum k f = none
      · cases (fget_wild k i flags f free stop seen).symm.trans got
      · cases (fget_hit k i flags f free stop seen).symm.trans got
        refine .inl ⟨f, (shared_open_on k f _).mp right, earlier, fun g upto => ?_⟩
        exact used g fun h below => earlier h (lt_of_lt_of_le below upto)
  · rintro (⟨f, opened, earlier, used⟩ | all)
    · have number := open_on_number k i f opened
      have seen : fileNum k f ≠ none := by
        rw [number]
        exact Option.some_ne_none _
      have stop := (stop_file_some k i f).mpr ⟨.inr number, earlier⟩
      refine ⟨fun g read => used g (not_lt.mp fun beyond => (read f beyond).2 number), some f, _,
        fget_hit k i flags f free stop seen, (shared_open_on k f _).mpr opened⟩
    · have miss := (stop_file_none k i).mpr fun f => (all f).1
      have full := (free_file_none k).mpr fun f => (all f).2
      refine ⟨fun f _ => (all f).2, none, k, fget_full k i flags free miss full, fun f => ⟨(all f).2, fun opened => ?_⟩⟩
      exact (all f).1.2 (open_on_number k i f opened)

def DescriptorRight (k t : Kernel) (flags : UInt32) : Prop :=
  ∃ fd f, (k.procs k.current).pFilp fd = none ∧ (t.procs k.current).pFilp fd = some f ∧
    (t.files f).fFlag.toUInt32 = flags ∧ (t.files f).fOff = 0

-- The first slot with the number is open with the very same flags and a cursor at the
-- start; or none has the number, and the flags fit f_flag.
def FreshFile (k : Kernel) (i : InodeId) (flags : UInt32) : Prop :=
  (∃ f, stopFile k i = some f ∧ (k.files f).fFlag.toUInt32 = flags ∧ (k.files f).fOff = 0) ∨
    (stopFile k i = none ∧ flags.toUInt8.toUInt32 = flags)

theorem picked_fresh (k : Kernel) (i : InodeId) (flags : UInt32) (f : FileId) (x : File)
    (pick : picked k i flags = some (f, x)) : (x.fFlag.toUInt32 = flags ∧ x.fOff = 0) ↔ FreshFile k i flags := by
  rw [FreshFile]
  unfold picked at pick
  rcases Option.eq_none_or_eq_some (stopFile k i) with miss | ⟨g, stop⟩
  · rw [miss] at pick ⊢
    obtain ⟨g, -, same⟩ := Option.map_eq_some_iff.mp pick
    obtain ⟨rfl, rfl⟩ := Prod.mk.inj same
    simp [File.opened]
  · rw [stop] at pick ⊢
    dsimp only at pick
    split at pick
    · cases pick
    · obtain ⟨rfl, rfl⟩ := Prod.mk.inj (Option.some.inj pick)
      simp [File.shared]

theorem open_inode_fresh (k t : Kernel) (i : InodeId) (flags : UInt32) (r : Int)
    (done : (openInode i flags).run k = .ok r t) : DescriptorRight k t flags ↔ FreshFile k i flags := by
  obtain ⟨f, x, fd, opened, empty, frame⟩ := open_inode_done k t i flags r done
  have pick : picked k i flags = some (f, x) := by
    rw [opens] at opened
    split at opened
    · exact opened
    · cases opened
  rw [← picked_fresh k i flags f x pick]
  have file : t.files f = x := by
    rw [frame.files]
    exact Function.update_self f x k.files
  have table : (t.procs k.current).pFilp = Function.update (k.procs k.current).pFilp fd (some f) := by
    rw [frame.procs]
    simp [Kernel.opened]
  have unused : (k.procs k.current).pFilp fd = none := by
    simp only [freeFd, Fin.find?_eq_some_iff, decide_eq_true_eq] at empty
    exact empty.1.2
  constructor
  · rintro ⟨c, g, before, given, right⟩
    rw [table] at given
    by_cases same : c = fd
    · rw [same, Function.update_self] at given
      cases given
      rwa [file] at right
    · rw [Function.update_of_ne same, before] at given
      cases given
  · intro right
    refine ⟨fd, f, unused, ?_, by rwa [file]⟩
    rw [table, Function.update_self]

theorem opens_right_iff (k : Kernel) (i : InodeId) (flags : UInt32) :
    (FgetRight k i flags ↔ (k.locks .openFiles = none → NumberFound k i)) ∧
      ∀ (path : List UInt8) (mode : UInt16) (u t : Kernel) (j : InodeId) (r : Int), (namei path).run k = .ok j u →
        (sysOpen path flags mode).run k = .ok r t → (DescriptorRight u t flags ↔ FreshFile u j flags) := by
  refine ⟨fget_right_iff k i flags, fun path mode u t j r looked done => ?_⟩
  obtain ⟨_, _, again, opened⟩ := (run_bind_ok _ _ _ _ _).mp done
  rw [looked] at again
  cases again
  exact open_inode_fresh u t j flags r opened

def fileInode (dev : Dev) : Inode := { Kernel.zero.inodes 0 with iMode := ifreg, iNum := 5, iDev := dev, iCount := 1 }

-- Inode 5 of device 1 is in slot 0 of the cache, inode 5 of device 2 in slot 1, and slot 0
-- of the file table is open on the first, to read, by descriptor 3 of process 0.
def twoDevices : Kernel :=
  (((Kernel.zero.setInode 0 (fileInode 1)).setInode 1 (fileInode 2)).setFile 0 ⟨ifreg, 1, 1, 0, some 0⟩).setProc 0
    { Kernel.zero.procs 0 with pFilp := Function.update (fun _ => none) 3 (some 0) }

theorem two_devices_first : OpenOn twoDevices 0 (1, 5) := ⟨0, rfl, rfl⟩

theorem fget_other_device :
    ¬∀ (k : Kernel) (i : InodeId) (flags : UInt32), FgetRight k i flags ∧
      ∀ (path : List UInt8) (mode : UInt16) (u t : Kernel) (j : InodeId) (r : Int), (namei path).run k = .ok j u →
        (sysOpen path flags mode).run k = .ok r t → DescriptorRight u t flags := by
  intro claim
  have number : fileNum twoDevices 0 = some (twoDevices.inodes 1).iNum := rfl
  rcases (fget_right_iff twoDevices 1 1).mp (claim twoDevices 1 1).1 rfl with ⟨f, ⟨j, inode, named⟩, earlier, -⟩ | all
  · by_cases first : f = 0
    · subst first
      cases inode
      revert named
      decide
    · exact (earlier 0 (Fin.pos_of_ne_zero first)).2 number
  · exact (all 0).1.2 number

theorem two_devices_stop : stopFile twoDevices 0 = some 0 :=
  (stop_file_some twoDevices 0 0).mpr ⟨.inr rfl, fun g below => absurd below (Fin.not_lt_zero g)⟩

theorem two_devices_opens : ∃ x, opens twoDevices 0 1 = some (0, x) := by
  have seen : fileNum twoDevices 0 ≠ none := by decide
  rw [opens, if_pos (by decide)]
  unfold picked
  rw [two_devices_stop]
  dsimp only
  rw [if_neg seen]
  exact ⟨_, rfl⟩

theorem two_devices_fd : freeFd (twoDevices.procs 0) = some 4 := by
  simp only [freeFd, Fin.find?_eq_some_iff]
  decide

theorem opens_right_shared :
    FgetRight twoDevices 0 1 ∧
      ∃ t r, (sysOpen [47, 0] 1 0).run twoDevices = .ok r t ∧ DescriptorRight twoDevices t 1 := by
  obtain ⟨right, opened⟩ := opens_right_iff twoDevices 0 1
  have root := namei_root twoDevices []
  obtain ⟨x, taken⟩ := two_devices_opens
  obtain ⟨t, done⟩ := open_inode_run twoDevices 0 1 0 x 4 (fun _ _ => rfl) taken two_devices_fd
  have run : (sysOpen [47, 0] 1 0).run twoDevices = .ok einprogress t :=
    (run_bind_ok _ _ _ _ _).mpr ⟨0, twoDevices, root, done⟩
  refine ⟨right.mpr fun _ => .inl ⟨0, two_devices_first, fun g below => absurd below (Fin.not_lt_zero g), ?_⟩, t, _, run, ?_⟩
  · intro g upto
    rw [Fin.le_zero_iff.mp upto]
    exact Ne.symm (by decide)
  · exact (opened [47, 0] 0 twoDevices t 0 _ root run).mpr (.inl ⟨0, two_devices_stop, rfl, rfl⟩)

end Yaup
