import Mathlib.Data.Fintype.Prod
import Yaup.FileTable
import Yaup.Lib.Tally
import Yaup.ReadWrite

set_option autoImplicit false

namespace Yaup

open Lib

def filpTable (k : Kernel) (entry : Pid × Fin nrOfiles) : Option FileId := (k.procs entry.1).pFilp entry.2

def pointers (k : Kernel) (f : FileId) : Nat := tally (filpTable k) f

structure FilesCounted (k : Kernel) : Prop where
  counts : ∀ f, (k.files f).fCount.toNat = pointers k f
  unused : ∀ f, (k.files f).fCount = 0 → (∀ p fd, (k.procs p).pFilp fd ≠ some f) ∧ (k.files f).fInode = none

inductive FileAct where
  | sysOpen (p : Pid) (w : Wild) (path : List UInt8) (flags : UInt32) (mode : UInt16)
  | sysClose (p : Pid) (w : Wild) (fd : Int)

def FileStep (k : Kernel) : FileAct → Kernel → Prop
  | .sysOpen p w path flags mode, t => Over (sysOpen path flags mode) (begun k p w) t
  | .sysClose p w fd, t => Over (sysClose fd) (begun k p w) t

def StaysInside (move : Move Kernel FileAct) : Prop :=
  match move.act with
  | .sysOpen p w path flags _ => ∀ u i f x, (namei path).run (begun move.before p w) = .ok i u →
      opens u i flags = some (f, x) → x.fCount.toNat = (u.files f).fCount.toNat + 1
  | .sysClose p _ fd => (¬(fd > nrOfiles ∨ fd < 0) → fd.toNat < nrOfiles) ∧
      ∀ f, (move.before.procs p).filp fd = some (some f) →
        ((move.before.files f).fCount - 1).toNat + 1 = (move.before.files f).fCount.toNat

-- sys_open shares no slot that 255 descriptors point to, and where its process has no
-- descriptor left, it had found the file open already and can drop the inode; and sys_close
-- is of no open descriptor, and not of number NR_OFILES.
def KeepsCounts (k : Kernel) : FileAct → Prop
  | .sysOpen p w path flags _ => ∀ u i f x, (namei path).run (begun k p w) = .ok i u →
      opens u i flags = some (f, x) →
        (u.files f).fCount ≠ 255 ∧
          (freeFd (u.procs u.current) = none → stopFile u i = some f ∧ ¬Unwritable u i)
  | .sysClose p _ fd => fd ≠ nrOfiles ∧ ∀ f, (k.procs p).filp fd ≠ some (some f)

theorem pointers_same (k t : Kernel) (procs : t.procs = k.procs) : pointers t = pointers k := by
  have same : filpTable t = filpTable k := by
    funext entry
    rw [filpTable, filpTable, procs]
  funext f
  rw [pointers, pointers, same]

theorem counted_same (k t : Kernel) (files : t.files = k.files) (procs : t.procs = k.procs) :
    FilesCounted t ↔ FilesCounted k := by
  have same := pointers_same k t procs
  constructor
  · rintro ⟨counts, unused⟩
    rw [files, same] at counts
    rw [files, procs] at unused
    exact ⟨counts, unused⟩
  · rintro ⟨counts, unused⟩
    refine ⟨?_, ?_⟩
    · rw [files, same]
      exact counts
    · rw [files, procs]
      exact unused

theorem lookup_counted (k t : Kernel) (frame : LookupFrame k t) : FilesCounted t ↔ FilesCounted k :=
  counted_same k t frame.files frame.procs

theorem count_grows (c : UInt8) : (c + 1).toNat = c.toNat + 1 ↔ c ≠ 255 := by
  rw [UInt8.toNat_add]
  have bound := c.toNat_lt
  have top : c = 255 ↔ c.toNat = 255 := UInt8.toNat_inj.symm
  rw [ne_eq, top]
  have one : (1 : UInt8).toNat = 1 := rfl
  omega

theorem opened_filp (k : Kernel) (f : FileId) (x : File) (fd c : Fin nrOfiles) (p : Pid) :
    ((k.opened f x fd).procs p).pFilp c =
      if p = k.current ∧ c = fd then some f else (k.procs p).pFilp c := by
  by_cases mine : p = k.current
  · subst mine
    by_cases same : c = fd
    · simp [Kernel.opened, same]
    · simp [Kernel.opened, same]
  · simp [Kernel.opened, mine]

theorem pointers_opened (k : Kernel) (f : FileId) (x : File) (fd : Fin nrOfiles)
    (empty : (k.procs k.current).pFilp fd = none) :
    pointers (k.opened f x fd) f = pointers k f + 1 ∧ ∀ g, g ≠ f → pointers (k.opened f x fd) g = pointers k g := by
  refine tally_given (filpTable k) (filpTable (k.opened f x fd)) (k.current, fd) f empty ?_ ?_
  · rw [filpTable, opened_filp, if_pos ⟨rfl, rfl⟩]
  · rintro ⟨p, c⟩ other
    rw [filpTable, opened_filp, if_neg fun here => other (Prod.ext here.1 here.2)]
    rfl

theorem opened_counted (k : Kernel) (f : FileId) (x : File) (fd : Fin nrOfiles) (good : FilesCounted k)
    (empty : (k.procs k.current).pFilp fd = none) (count : x.fCount.toNat = (k.files f).fCount.toNat + 1) :
    FilesCounted (k.opened f x fd) := by
  obtain ⟨mine, others⟩ := pointers_opened k f x fd empty
  have files : (k.opened f x fd).files = Function.update k.files f x := rfl
  refine ⟨fun g => ?_, fun g idle => ?_⟩
  · by_cases same : g = f
    · subst same
      rw [files, Function.update_self, mine, count, good.counts]
    · rw [files, Function.update_of_ne same, others g same, good.counts]
  · have other : g ≠ f := by
      rintro rfl
      rw [files, Function.update_self] at idle
      rw [idle] at count
      cases count
    rw [files, Function.update_of_ne other] at idle ⊢
    obtain ⟨unpointed, bare⟩ := good.unused g idle
    refine ⟨fun p c => ?_, bare⟩
    rw [opened_filp]
    split
    · exact fun same => other (Option.some.inj same).symm
    · exact unpointed p c

theorem free_fd_empty (p : Proc) (fd : Fin nrOfiles) (found : freeFd p = some fd) : p.pFilp fd = none := by
  simp only [freeFd, Fin.find?_eq_some_iff, decide_eq_true_eq] at found
  exact found.1.2

theorem picked_count (k : Kernel) (i : InodeId) (flags : UInt32) (f : FileId) (x : File)
    (pick : picked k i flags = some (f, x)) :
    x.fCount = (k.files f).fCount + 1 ∧
      ((stopFile k i = some f ∧ x.dropped = k.files f) ∨
        (stopFile k i = none ∧ (k.files f).fCount = 0 ∧ x.dropped.fInode = some i)) := by
  unfold picked at pick
  rcases Option.eq_none_or_eq_some (stopFile k i) with miss | ⟨g, stop⟩
  · rw [miss] at pick ⊢
    obtain ⟨g, unused, same⟩ := Option.map_eq_some_iff.mp pick
    obtain ⟨rfl, rfl⟩ := Prod.mk.inj same
    exact ⟨rfl, .inr ⟨rfl, ((free_file_some k g).mp unused).1, rfl⟩⟩
  · rw [stop] at pick ⊢
    dsimp only at pick
    split at pick
    · cases pick
    · obtain ⟨rfl, rfl⟩ := Prod.mk.inj (Option.some.inj pick)
      exact ⟨rfl, .inl ⟨rfl, by simp [File.shared, File.dropped]⟩⟩

theorem opens_picked (k : Kernel) (i : InodeId) (flags : UInt32) (f : FileId) (x : File)
    (opened : opens k i flags = some (f, x)) : picked k i flags = some (f, x) := by
  rw [opens] at opened
  split at opened
  · exact opened
  · cases opened

theorem gives_file_counted (k t : Kernel) (i : InodeId) (flags : UInt32) (f : FileId) (x : File) (good : FilesCounted k)
    (opened : opens k i flags = some (f, x)) (gives : GivesFile k i f x t) :
    (FilesCounted t ∧ x.fCount.toNat = (k.files f).fCount.toNat + 1) ↔
      (k.files f).fCount ≠ 255 ∧ (freeFd (k.procs k.current) = none → stopFile k i = some f ∧ ¬Unwritable k i) := by
  obtain ⟨count, kind⟩ := picked_count k i flags f x (opens_picked k i flags f x opened)
  rw [count, count_grows, and_comm]
  refine and_congr_right fun room => ?_
  have grown : x.fCount.toNat = (k.files f).fCount.toNat + 1 := by rw [count, count_grows]; exact room
  rcases gives with ⟨fd, found, frame⟩ | ⟨full, ⟨writable, frame⟩ | ⟨stuck, frame⟩⟩
  · have kept := opened_counted k f x fd good (free_fd_empty _ fd found) grown
    refine iff_of_true ((lookup_counted _ t frame).mpr kept) fun full => ?_
    cases found.symm.trans full
  · rw [lookup_counted _ t frame]
    rcases kind with ⟨stop, same⟩ | ⟨miss, idle, inode⟩
    · rw [same, set_file_same]
      exact iff_of_true good fun _ => ⟨stop, writable⟩
    · refine iff_of_false (fun kept => ?_) fun guard => ?_
      · have dropped : ((k.setFile f x.dropped).files f).fCount = 0 := by
          simp [File.dropped, count, idle]
        have bare := (kept.unused f dropped).2
        rw [Kernel.setFile_files, Function.update_self, inode] at bare
        cases bare
      · cases miss.symm.trans (guard full).1
  · rw [lookup_counted _ t frame]
    refine iff_of_false (fun kept => ?_) fun guard => (guard full).2 stuck
    have more := kept.counts f
    rw [pointers_same k (k.setFile f x) rfl, Kernel.setFile_files, Function.update_self, grown, good.counts] at more
    omega

theorem filp_inside (p : Proc) (fd : Int) (f : FileId) (named : p.filp fd = some (some f)) :
    ¬(fd > nrOfiles ∨ fd < 0) ∧ ∃ inside : fd.toNat < nrOfiles, p.pFilp ⟨fd.toNat, inside⟩ = some f := by
  rw [Proc.filp] at named
  split at named
  · rename_i inside
    exact ⟨by omega, inside.2, Option.some.inj named⟩
  · cases named

theorem close_refused (k t : Kernel) (fd : Int) (empty : ∀ f, (k.procs k.current).filp fd ≠ some (some f))
    (ended : Over (sysClose fd) k t) : t = k := by
  unfold sysClose at ended
  by_cases bad : fd > nrOfiles ∨ fd < 0
  · rw [if_pos bad] at ended
    exact over_throw _ k t ended
  · rw [if_neg bad] at ended
    replace ended := (over_get _ k t).mp ended
    by_cases inside : fd.toNat < nrOfiles
    · rw [dif_pos inside] at ended
      cases taken : (k.procs k.current).pFilp ⟨fd.toNat, inside⟩ with
      | none =>
          rw [taken] at ended
          exact over_throw _ k t ended
      | some f =>
          refine absurd ?_ (empty f)
          rw [Proc.filp, dif_pos ⟨by omega, inside⟩, taken]
    · rw [dif_neg inside] at ended
      exact over_throw _ k t ended

theorem close_last_keeps (k : Kernel) (f : FileId) (c : UInt8) :
    Keeps (fun s => s.procs = k.procs ∧ (s.files f).fCount = c) (closeLast f) := by
  let holds := fun s : Kernel => s.procs = k.procs ∧ (s.files f).fCount = c
  have steady : Steady holds := fun s t frame same => ⟨frame.procs.trans same.1, by rw [frame.files]; exact same.2⟩
  refine keeps_bind holds _ _ (keeps_modify holds _ fun s same => ⟨same.1, by simpa using same.2⟩) fun _ => ?_
  refine keeps_get holds _ fun s _ => ?_
  split
  · exact keeps_throw holds _
  · refine keeps_bind holds _ _ (iput_keeps holds steady _ fun u same _ => same) fun _ => ?_
    refine keeps_bind holds _ _ (keeps_modify holds _ fun u same => ⟨same.1, by simpa using same.2⟩) fun _ => ?_
    exact modify_keeps holds steady _ fun u => ⟨rfl, rfl, rfl, rfl, rfl⟩

theorem close_taken (k t : Kernel) (fd : Int) (f : FileId) (named : (k.procs k.current).filp fd = some (some f))
    (ended : Over (sysClose fd) k t) : t.procs = k.procs ∧ (t.files f).fCount = (k.files f).fCount - 1 := by
  obtain ⟨good, inside, taken⟩ := filp_inside _ fd f named
  unfold sysClose at ended
  rw [if_neg good] at ended
  replace ended := (over_get _ k t).mp ended
  rw [dif_pos inside, taken] at ended
  obtain ⟨-, ended⟩ := over_acquire _ _ k t ended
  let holds := fun s : Kernel => s.procs = k.procs ∧ (s.files f).fCount = (k.files f).fCount - 1
  have steady : Steady holds := fun s t frame same => ⟨frame.procs.trans same.1, by rw [frame.files]; exact same.2⟩
  rcases (over_bind _ _ _ _).mp ended with ⟨_, s, dropped, ended⟩ | ⟨e, halted, -⟩
  · cases dropped
    refine over_keeps holds _ ?_ _ t ?_ ended
    · refine keeps_get holds _ fun s _ => ?_
      split
      · refine keeps_bind holds _ _ (close_last_keeps k f _) fun _ => ?_
        exact keeps_bind holds _ _ (release_keeps holds steady _) fun _ => keeps_pure holds _
      · exact keeps_bind holds _ _ (release_keeps holds steady _) fun _ => keeps_pure holds _
    · exact ⟨rfl, congrArg File.fCount (Function.update_self f _ k.files)⟩
  · cases halted

theorem begun_counted (k : Kernel) (p : Pid) (w : Wild) : FilesCounted (begun k p w) ↔ FilesCounted k :=
  counted_same k (begun k p w) rfl rfl

theorem pointed_used (k : Kernel) (f : FileId) (p : Pid) (fd : Int) (good : FilesCounted k)
    (named : (k.procs p).filp fd = some (some f)) : 0 < (k.files f).fCount.toNat := by
  obtain ⟨-, inside, pointed⟩ := filp_inside _ fd f named
  rw [good.counts]
  exact tally_pos (filpTable k) (p, ⟨fd.toNat, inside⟩) f pointed

theorem sys_close_counted (k t : Kernel) (p : Pid) (w : Wild) (fd : Int) (good : FilesCounted k)
    (ended : Over (sysClose fd) (begun k p w) t) :
    (FilesCounted t ∧ StaysInside ⟨k, .sysClose p w fd, t⟩) ↔ KeepsCounts k (.sysClose p w fd) := by
  by_cases empty : ∀ f, (k.procs p).filp fd ≠ some (some f)
  · have kept : FilesCounted t := by
      rw [close_refused (begun k p w) t fd empty ended]
      exact (begun_counted k p w).mpr good
    constructor
    · rintro ⟨-, inside, -⟩
      refine ⟨fun last => ?_, empty⟩
      have below : fd.toNat < nrOfiles := inside (by omega)
      omega
    · rintro ⟨other, -⟩
      refine ⟨kept, fun good => by omega, fun f named => absurd named (empty f)⟩
  · obtain ⟨f, named⟩ := not_forall_not.mp empty
    refine iff_of_false ?_ fun guard => guard.2 f named
    rintro ⟨kept, -⟩
    obtain ⟨procs, closed⟩ := close_taken (begun k p w) t fd f named ended
    have count : (t.files f).fCount = (k.files f).fCount - 1 := closed
    have same := pointers_same k t procs
    have used := pointed_used k f p fd good named
    have less := kept.counts f
    rw [same, count, ← good.counts f] at less
    have drop := drop_count (k.files f).fCount _ rfl used
    omega

theorem sys_open_counted (k t : Kernel) (p : Pid) (w : Wild) (path : List UInt8) (flags : UInt32) (mode : UInt16)
    (good : FilesCounted k) (ended : Over (sysOpen path flags mode) (begun k p w) t) :
    (FilesCounted t ∧ StaysInside ⟨k, .sysOpen p w path flags mode, t⟩) ↔
      KeepsCounts k (.sysOpen p w path flags mode) := by
  have start : LookupFrame (begun k p w) (begun k p w) := ⟨rfl, rfl, rfl⟩
  obtain ⟨walked, stuck⟩ := namei_keeps _ (lookup_stable (begun k p w)) path (begun k p w) start
  have counted : ∀ u, LookupFrame (begun k p w) u → FilesCounted u := fun u frame =>
    (lookup_counted _ u frame).mpr ((begun_counted k p w).mpr good)
  rcases (over_bind _ _ _ _).mp ended with ⟨i, u, looked, rest⟩ | ⟨e, halted, -⟩
  · have before := counted u (walked i u looked)
    have sole : ∀ v j, (namei path).run (begun k p w) = .ok j v → j = i ∧ v = u := by
      intro v j again
      cases looked.symm.trans again
      exact ⟨rfl, rfl⟩
    rcases open_inode_ends u t i flags rest with ⟨none, frame⟩ | ⟨f, x, opened, gives⟩
    · have never : ∀ f x, opens u i flags ≠ some (f, x) := by simp [none]
      refine iff_of_true ⟨(lookup_counted u t frame).mpr before, ?_⟩ ?_
      · intro v j f x again opened
        obtain ⟨rfl, rfl⟩ := sole v j again
        exact absurd opened (never f x)
      · intro v j f x again opened
        obtain ⟨rfl, rfl⟩ := sole v j again
        exact absurd opened (never f x)
    · have exact_open := gives_file_counted u t i flags f x before opened gives
      constructor
      · rintro ⟨kept, inside⟩ v j g y again other
        obtain ⟨rfl, rfl⟩ := sole v j again
        cases opened.symm.trans other
        exact exact_open.mp ⟨kept, inside v j f x looked opened⟩
      · intro guard
        obtain ⟨kept, grown⟩ := exact_open.mpr (guard u i f x looked opened)
        refine ⟨kept, fun v j g y again other => ?_⟩
        obtain ⟨rfl, rfl⟩ := sole v j again
        cases opened.symm.trans other
        exact grown
  · have never : ∀ v j, (namei path).run (begun k p w) ≠ .ok j v := fun v j done => by
      cases halted.symm.trans done
    refine iff_of_true ⟨counted t (stuck e t halted), ?_⟩ ?_
    · intro v j f x done
      exact absurd done (never v j)
    · intro v j f x done
      exact absurd done (never v j)

theorem file_step_counted (k : Kernel) (act : FileAct) (t : Kernel) (good : FilesCounted k) (taken : FileStep k act t) :
    (FilesCounted t ∧ StaysInside ⟨k, act, t⟩) ↔ KeepsCounts k act := by
  cases act with
  | sysOpen p w path flags mode => exact sys_open_counted k t p w path flags mode good taken
  | sysClose p w fd => exact sys_close_counted k t p w fd good taken

theorem file_counts_iff (first last : Kernel) (moves : List (Move Kernel FileAct))
    (run : Run FileStep first moves last) (start : FilesCounted first) :
    (Throughout FilesCounted moves last ∧ ∀ move ∈ moves, StaysInside move) ↔
      ∀ move ∈ moves, KeepsCounts move.before move.act :=
  run_right_iff FileStep KeepsCounts FilesCounted StaysInside file_step_counted first last moves run start

theorem close_last_run (k : Kernel) (f : FileId) (i : InodeId) (free : k.locks (.ino i) = none)
    (inode : (k.files f).fInode = some i) (clean : (k.inodes i).iFlag &&& idirt = 0) :
    ∃ t, (closeLast f).run k = .ok () t := by
  have kept : ((k.setFile f (k.files f).unflagged).files f).fInode = some i := by simp [File.unflagged, inode]
  have put := iput_clean (k.setFile f (k.files f).unflagged) i free clean
  let v := (k.setFile f (k.files f).unflagged).lock (.ino i)
  refine ⟨(v.setFile f (v.files f).closed).unlock (.file f), ?_⟩
  refine (run_bind_ok _ _ _ _ _).mpr ⟨(), k.setFile f (k.files f).unflagged, rfl, ?_⟩
  rw [run_get_bind, kept]
  exact (run_bind_ok _ _ _ _ _).mpr ⟨0, v, put, rfl⟩

theorem sys_close_run (k : Kernel) (fd : Int) (f : FileId) (i : InodeId) (table : k.locks .openFiles = none)
    (free : k.locks (.ino i) = none) (named : (k.procs k.current).filp fd = some (some f))
    (last : (k.files f).fCount = 1) (inode : (k.files f).fInode = some i) (clean : (k.inodes i).iFlag &&& idirt = 0) :
    ∃ t, (sysClose fd).run k = .ok 0 t := by
  obtain ⟨good, inside, taken⟩ := filp_inside _ fd f named
  have dropped : ((k.beginClose f).files f).fCount = 0 := by simp [Kernel.beginClose, File.dropped, last]
  obtain ⟨s, closed⟩ := close_last_run (k.beginClose f) f i (by simpa [Kernel.beginClose] using free)
    (by simp [Kernel.beginClose, File.dropped, inode]) clean
  unfold sysClose
  rw [if_neg good, run_get_bind, dif_pos inside, taken]
  refine ⟨s.unlock .openFiles, (run_bind_ok _ _ _ _ _).mpr ⟨(), k.lock .openFiles, acquire_free k _ table, ?_⟩⟩
  refine (run_bind_ok _ _ _ _ _).mpr ⟨(), k.beginClose f, rfl, ?_⟩
  rw [run_get_bind, if_pos dropped]
  exact (run_bind_ok _ _ _ _ _).mpr ⟨(), s, closed, rfl⟩

theorem zero_counted : FilesCounted Kernel.zero := by
  refine ⟨fun f => ?_, fun f _ => ⟨fun p fd same => ?_, rfl⟩⟩
  · exact ((tally_zero (filpTable Kernel.zero) f).mpr fun _ same => by cases same).symm
  · cases same

def oneOpen : Kernel := Kernel.zero.opened 0 ⟨ifreg, 1, 1, 0, some 0⟩ 3

theorem one_open_counted : FilesCounted oneOpen := opened_counted Kernel.zero 0 _ 3 zero_counted rfl rfl

theorem sys_close_keeps_pointer :
    ¬∀ (first last : Kernel) (moves : List (Move Kernel FileAct)), Run FileStep first moves last →
      FilesCounted first → Throughout FilesCounted moves last ∧ ∀ move ∈ moves, StaysInside move := by
  intro claim
  have named : ((begun oneOpen 0 oneOpen.wild).procs 0).filp 3 = some (some 0) := rfl
  obtain ⟨t, done⟩ := sys_close_run (begun oneOpen 0 oneOpen.wild) 3 0 0 rfl rfl named rfl rfl rfl
  have ended : Over (sysClose 3) (begun oneOpen 0 oneOpen.wild) t := .inl ⟨0, done⟩
  have step : FileStep oneOpen (.sysClose 0 oneOpen.wild 3) t := ended
  obtain ⟨along, inside⟩ := claim oneOpen t _ (.cons _ _ _ _ _ step (.nil t)) one_open_counted
  have guard := (sys_close_counted oneOpen t 0 oneOpen.wild 3 one_open_counted ended).mp
    ⟨along.2, inside _ List.mem_cons_self⟩
  exact guard.2 0 named

-- Slot 0 of the inode cache has a regular file, and a NULL f_inode reads as number 7.
def rootFile : Kernel := (Kernel.zero.setInode 0 { Kernel.zero.inodes 0 with iMode := ifreg }).withWild
  { Kernel.zero.wild with nullNum := some 7 }

theorem root_file_stop : stopFile rootFile 0 = none := by
  have seven : ∀ f, fileNum rootFile f = some 7 := fun _ => rfl
  have zero : (rootFile.inodes 0).iNum = 0 := rfl
  refine (stop_file_none rootFile 0).mpr fun f => ?_
  rw [seven, zero]
  exact ⟨Option.some_ne_none _, by decide⟩

theorem root_file_opens : ∃ x, opens rootFile 0 1 = some (0, x) := by
  have unused : freeFile rootFile = some 0 := (free_file_some rootFile 0).mpr
    ⟨rfl, fun g below => absurd below (Fin.not_lt_zero g)⟩
  rw [opens, if_pos (by decide)]
  unfold picked
  rw [root_file_stop, unused]
  exact ⟨_, rfl⟩

theorem root_file_fd : freeFd (rootFile.procs 0) = some 3 := by
  simp only [freeFd, Fin.find?_eq_some_iff]
  decide

theorem file_counts_open :
    ∃ (moves : List (Move Kernel FileAct)) (last : Kernel), moves.length = 1 ∧ Run FileStep rootFile moves last ∧
      FilesCounted rootFile ∧ Throughout FilesCounted moves last ∧ ∀ move ∈ moves, StaysInside move := by
  have start : FilesCounted rootFile := (counted_same Kernel.zero rootFile rfl rfl).mpr zero_counted
  have root := namei_root rootFile []
  obtain ⟨x, taken⟩ := root_file_opens
  obtain ⟨t, done⟩ := open_inode_run rootFile 0 1 0 x 3 (fun _ _ => rfl) taken root_file_fd
  have step : FileStep rootFile (.sysOpen 0 rootFile.wild [47, 0] 1 0) t :=
    .inl ⟨einprogress, (run_bind_ok _ _ _ _ _).mpr ⟨0, rootFile, root, done⟩⟩
  have run := Run.cons _ _ _ _ _ step (.nil t)
  refine ⟨_, t, rfl, run, start, (file_counts_iff rootFile t _ run start).mpr fun move member => ?_⟩
  rw [List.mem_singleton.mp member]
  intro u i f y looked opened
  cases root.symm.trans looked
  cases taken.symm.trans opened
  refine ⟨?_, fun full => ?_⟩
  · decide
  · cases root_file_fd.symm.trans full

end Yaup
