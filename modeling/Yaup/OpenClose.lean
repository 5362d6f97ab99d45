import Yaup.Namei

set_option autoImplicit false

namespace Yaup

open Lib

def ifmt : UInt16 := 0o170000
def ifreg : UInt16 := 0o100000
def einprogress : Int := 35

-- f->f_inode->i_num, which fget reads for every slot of the file table.
def fileNum (k : Kernel) (f : FileId) : Option Ino :=
  match (k.files f).fInode with
  | some i => some (k.inodes i).iNum
  | none => k.wild.nullNum

-- The loop of fget; it also stops at a slot whose inode number cannot be read.
def fgetLoop (k : Kernel) (i : InodeId) : FileId ⊕ Option FileId :=
  scan (fun f => decide (fileNum k f = none ∨ fileNum k f = some (k.inodes i).iNum))
    (fun f => decide ((k.files f).fCount = 0)) none (List.finRange nrFiles)

def fgetFound (i : InodeId) (flags : UInt32) : FileId ⊕ Option FileId → Kern (Option FileId)
  | .inl f => do
      let k ← get
      if fileNum k f = none then fault
      modify fun k => k.setFile f { k.files f with fCount := (k.files f).fCount + 1 }
      release .openFiles
      return some f
  | .inr none => do
      release .openFiles
      return none
  | .inr (some empty) => do
      modify fun k => k.setFile empty {
        fCount := (k.files empty).fCount + 1
        fFlag := flags.toUInt8
        fInode := some i
        fMode := (k.inodes i).iMode
        fOff := 0 }
      initlock (.file empty)
      release .openFiles
      return some empty

def fget (i : InodeId) (flags : UInt32) : Kern (Option FileId) := do
  acquire .openFiles
  let k ← get
  fgetFound i flags (fgetLoop k i)

def freeFd (p : Proc) : Option (Fin nrOfiles) :=
  Fin.find? fun fd => decide (3 ≤ fd.val ∧ p.pFilp fd = none)

-- none for its answer -1, which it gives without releasing the table.
def fdget : Kern (Option (Fin nrOfiles)) := do
  acquire .procTable
  let k ← get
  match freeFd (k.procs k.current) with
  | some fd =>
      release .procTable
      return some fd
  | none => return none

def openInode (i : InodeId) (flags : UInt32) : Kern Int := do
  let k ← get
  if (k.inodes i).iMode &&& ifmt ≠ ifreg then
    let _ ← iput i
    panic "sys_open: this is not a regular file"
  match ← fget i flags with
  | none =>
      let _ ← iput i
      panic "sys_open: cannot get file struct"
  | some f =>
      match ← fdget with
      | none =>
          let _ ← iput i
          modify fun k => k.setFile f { k.files f with fCount := (k.files f).fCount - 1 }
          panic "sys_open: cannot get a valid fd"
      | some fd =>
          let k ← get
          acquire (.proc k.current)
          modify fun k => k.setProc k.current { k.procs k.current with
            pFilp := Function.update (k.procs k.current).pFilp fd (some f) }
          release (.proc k.current)
          return einprogress

-- namei never answers NULL, and the branch of O_CREAT is empty.
def sysOpen (path : List UInt8) (flags : UInt32) (_mode : UInt16) : Kern Int := do
  let i ← namei path
  openInode i flags

-- The last close of a file gives up its inode; iput of a NULL inode traps.
def closeLast (f : FileId) : Kern Unit := do
  modify fun k => k.setFile f { k.files f with fFlag := 0 }
  let k ← get
  match (k.files f).fInode with
  | none => fault
  | some i =>
      let _ ← iput i
      modify fun k => k.setFile f { k.files f with fInode := none, fMode := 0, fOff := 0 }
      modify (·.unlock (.file f))

-- The descriptor NR_OFILES passes the check, and is past the end of p_filp.
def sysClose (fd : Int) : Kern Int := do
  if fd > nrOfiles ∨ fd < 0 then
    panic "sys_close: bad fd"
  let k ← get
  if inside : fd.toNat < nrOfiles then
    match (k.procs k.current).pFilp ⟨fd.toNat, inside⟩ with
    | none => panic "sys_close: bad file table"
    | some f =>
        acquire .openFiles
        modify fun k => k.setFile f { k.files f with fCount := (k.files f).fCount - 1 }
        let k ← get
        if (k.files f).fCount = 0 then
          closeLast f
        release .openFiles
        return 0
  else fault

theorem fdget_found (k : Kernel) (fd : Fin nrOfiles) (free : k.locks .procTable = none)
    (found : freeFd (k.procs k.current) = some fd) : fdget.run k = .ok (some fd) k := by
  rw [fdget, acquire_get .procTable k _ free, Kernel.lock_procs, Kernel.lock_current, found]
  simp only [EStateM.run_bind, release_run, EStateM.run_pure, Kernel.unlock_lock k .procTable free]

theorem fdget_full (k : Kernel) (free : k.locks .procTable = none) (full : freeFd (k.procs k.current) = none) :
    fdget.run k = .ok none (k.lock .procTable) := by
  rw [fdget, acquire_get .procTable k _ free, Kernel.lock_procs, Kernel.lock_current, full, EStateM.run_pure]

theorem fdget_cases (k t : Kernel) (fd : Option (Fin nrOfiles)) (done : fdget.run k = .ok fd t) :
    k.locks .procTable = none ∧
      ((freeFd (k.procs k.current) = none ∧ fd = none ∧ t = k.lock .procTable) ∨
        (∃ c, freeFd (k.procs k.current) = some c ∧ fd = some c ∧ t = k)) := by
  by_cases free : k.locks .procTable = none
  · refine ⟨free, ?_⟩
    cases found : freeFd (k.procs k.current) with
    | none =>
        rw [fdget_full k free found] at done
        cases done
        exact .inl ⟨rfl, rfl, rfl⟩
    | some c =>
        rw [fdget_found k c free found] at done
        cases done
        exact .inr ⟨c, rfl, rfl, rfl⟩
  · rw [fdget, EStateM.run_bind, acquire_blocked k .procTable free] at done
    cases done

def File.dropped (x : File) : File := { x with fCount := x.fCount - 1 }

def File.unflagged (x : File) : File := { x with fFlag := 0 }

def File.closed (x : File) : File := { x with fInode := none, fMode := 0, fOff := 0 }

def Kernel.descriptor (k : Kernel) (p : Pid) (fd : Int) : Option FileId :=
  if inside : fd.toNat < nrOfiles then (k.procs p).pFilp ⟨fd.toNat, inside⟩ else none

def Kernel.beginClose (k : Kernel) (f : FileId) : Kernel :=
  (k.lock .openFiles).setFile f (k.files f).dropped

theorem close_last_cases (k t : Kernel) (f : FileId) (done : (closeLast f).run k = .ok () t) :
    ∃ i r s, (k.files f).fInode = some i ∧
      (iput i).run (k.setFile f (k.files f).unflagged) = .ok r s ∧
      t = (s.setFile f (s.files f).closed).unlock (.file f) := by
  rw [closeLast, EStateM.run_bind, EStateM.run_modify] at done
  simp only [EStateM.run_bind, EStateM.run_get, Kernel.setFile_files, Function.update_self] at done
  cases inode : (k.files f).fInode with
  | none =>
      rw [inode] at done
      cases done
  | some i =>
      rw [inode] at done
      obtain ⟨r, s, put, rest⟩ := (run_bind_ok _ _ _ _ _).mp done
      cases rest
      rw [← inode] at put
      exact ⟨i, r, s, rfl, put, rfl⟩

theorem sys_close_cases (k t : Kernel) (fd r : Int) (done : (sysClose fd).run k = .ok r t) :
    k.locks .openFiles = none ∧ ∃ f, k.descriptor k.current fd = some f ∧
      (((k.files f).fCount - 1 ≠ 0 ∧ t = (k.beginClose f).unlock .openFiles) ∨
        ((k.files f).fCount - 1 = 0 ∧ ∃ s, (closeLast f).run (k.beginClose f) = .ok () s ∧
          t = s.unlock .openFiles)) := by
  dsimp only [sysClose] at done
  split at done
  · cases done
  rw [EStateM.run_bind, EStateM.run_get] at done
  dsimp only at done
  split at done
  · rename_i inside
    cases taken : (k.procs k.current).pFilp ⟨fd.toNat, inside⟩ with
    | none =>
        simp only [taken] at done
        cases done
    | some f =>
        have named : k.descriptor k.current fd = some f := by rw [Kernel.descriptor, dif_pos inside, taken]
        simp only [taken] at done
        by_cases free : k.locks .openFiles = none
        · refine ⟨free, f, named, ?_⟩
          rw [EStateM.run_bind, acquire_free k .openFiles free] at done
          simp only [EStateM.run_bind, EStateM.run_modify, EStateM.run_get] at done
          have counted : ((k.beginClose f).files f).fCount = (k.files f).fCount - 1 := by
            simp [Kernel.beginClose, File.dropped]
          change (if ((k.beginClose f).files f).fCount = 0 then _ else _ : Kern Int).run (k.beginClose f) = _ at done
          rw [counted] at done
          by_cases last : (k.files f).fCount - 1 = 0
          · rw [if_pos last] at done
            obtain ⟨_, s, closed, rest⟩ := (run_bind_ok _ _ _ _ _).mp done
            cases rest
            exact .inr ⟨last, s, closed, rfl⟩
          · rw [if_neg last] at done
            cases done
            exact .inl ⟨last, rfl⟩
        · rw [EStateM.run_bind, acquire_blocked k .openFiles free] at done
          cases done
  · cases done

def File.shared (x : File) : File := { x with fCount := x.fCount + 1 }

def File.opened (x : File) (i : InodeId) (mode : UInt16) (flags : UInt32) : File where
  fMode := mode
  fFlag := flags.toUInt8
  fCount := x.fCount + 1
  fOff := 0
  fInode := some i

theorem fget_cases (k t : Kernel) (i : InodeId) (flags : UInt32) (answer : Option FileId)
    (done : (fget i flags).run k = .ok answer t) :
    k.locks .openFiles = none ∧
      ((answer = none ∧ t = (k.lock .openFiles).unlock .openFiles) ∨
        ∃ f, answer = some f ∧
          (t = ((k.lock .openFiles).setFile f (k.files f).shared).unlock .openFiles ∨
            t = (((k.lock .openFiles).setFile f ((k.files f).opened i (k.inodes i).iMode flags)).unlock
              (.file f)).unlock .openFiles)) := by
  by_cases free : k.locks .openFiles = none
  · refine ⟨free, ?_⟩
    rw [fget, acquire_get .openFiles k _ free] at done
    revert done
    generalize fgetLoop (k.lock .openFiles) i = found
    intro done
    cases found with
    | inl f =>
        dsimp only [fgetFound] at done
        rw [EStateM.run_bind, EStateM.run_get] at done
        dsimp only at done
        split at done
        · cases done
        · cases done
          exact .inr ⟨f, rfl, .inl rfl⟩
    | inr empty =>
        cases empty with
        | none =>
            cases done
            exact .inl ⟨rfl, rfl⟩
        | some f =>
            cases done
            exact .inr ⟨f, rfl, .inr rfl⟩
  · rw [fget, EStateM.run_bind, acquire_blocked k .openFiles free] at done
    cases done

theorem fget_tables (k t : Kernel) (i : InodeId) (flags : UInt32) (answer : Option FileId)
    (done : (fget i flags).run k = .ok answer t) :
    t.inodes = k.inodes ∧
      ∃ f, ∀ g, (t.files g).fInode = (k.files g).fInode ∨ (g = f ∧ (t.files g).fInode = some i) := by
  obtain ⟨-, ⟨-, rfl⟩ | ⟨f, -, rfl | rfl⟩⟩ := fget_cases k t i flags answer done
  · exact ⟨rfl, 0, fun _ => .inl rfl⟩
  · refine ⟨rfl, f, fun g => .inl ?_⟩
    by_cases same : g = f
    · subst same
      simp [File.shared]
    · simp [same]
  · refine ⟨rfl, f, fun g => ?_⟩
    by_cases same : g = f
    · subst same
      exact .inr ⟨rfl, by simp [File.opened]⟩
    · exact .inl (by simp [same])

theorem open_inode_cases (k t : Kernel) (i : InodeId) (flags : UInt32) (r : Int)
    (done : (openInode i flags).run k = .ok r t) :
    r = einprogress ∧ (k.inodes i).iMode &&& ifmt = ifreg ∧
      ∃ f fd s, (fget i flags).run k = .ok (some f) s ∧ freeFd (s.procs s.current) = some fd ∧
        t = s.setProc s.current { s.procs s.current with
          pFilp := Function.update (s.procs s.current).pFilp fd (some f) } := by
  dsimp only [openInode] at done
  rw [EStateM.run_bind, EStateM.run_get] at done
  dsimp only at done
  split at done
  · obtain ⟨_, s, put, after⟩ := (run_bind_ok _ _ _ _ _).mp done
    cases after
  rename_i regular
  obtain ⟨file, s, got, rest⟩ := (run_bind_ok _ _ _ _ _).mp done
  cases file with
  | none =>
      obtain ⟨_, u, put, after⟩ := (run_bind_ok _ _ _ _ _).mp rest
      cases after
  | some f =>
      obtain ⟨fd, u, found, last⟩ := (run_bind_ok _ _ _ _ _).mp rest
      obtain ⟨-, ⟨-, rfl, rfl⟩ | ⟨c, empty, rfl, rfl⟩⟩ := fdget_cases s u fd found
      · obtain ⟨_, v, put, after⟩ := (run_bind_ok _ _ _ _ _).mp last
        cases after
      · obtain ⟨_, _, seen, after⟩ := (run_bind_ok _ _ _ _ _).mp last
        cases seen
        obtain ⟨_, v, taken, after⟩ := (run_bind_ok _ _ _ _ _).mp after
        obtain ⟨free, rfl⟩ := acquire_ok u v _ taken
        cases after
        let x : Proc := { u.procs u.current with pFilp := Function.update (u.procs u.current).pFilp c (some f) }
        have back : ((u.lock (.proc u.current)).unlock (.proc u.current)).setProc u.current x = u.setProc u.current x := by
          rw [Kernel.unlock_lock u _ free]
        exact ⟨rfl, not_not.mp regular, f, c, u, got, empty, back⟩

end Yaup
