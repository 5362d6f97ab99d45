import Yaup.InodeRefs

set_option autoImplicit false

namespace Yaup

open Lib

structure TableFrame (k t : Kernel) : Prop where
  current : t.current = k.current
  superblock : t.superblock = k.superblock
  inodes : t.inodes = k.inodes
  files : t.files = k.files
  procs : t.procs = k.procs

def Steady (holds : Kernel → Prop) : Prop := ∀ s t, TableFrame s t → holds s → holds t

structure LoadStable (holds : Kernel → Prop) : Prop where
  steady : Steady holds
  loads : ∀ s i x, freeInode s = some i → holds s → holds (s.setInode i x)

theorem table_frame_refl (k : Kernel) : TableFrame k k := ⟨rfl, rfl, rfl, rfl, rfl⟩

theorem ended_ok {α : Type} (holds : Kernel → Prop) (a : α) (t : Kernel) (after : holds t) :
    (∀ b u, EStateM.Result.ok a t = (.ok b u : EStateM.Result Halt Kernel α) → holds u) ∧
      ∀ e u, EStateM.Result.ok a t = (.error e u : EStateM.Result Halt Kernel α) → holds u := by
  refine ⟨fun b u same => ?_, fun e u same => ?_⟩
  · cases same
    exact after
  · cases same

theorem ended_error {α : Type} (holds : Kernel → Prop) (e : Halt) (t : Kernel) (after : holds t) :
    (∀ b u, EStateM.Result.error e t = (.ok b u : EStateM.Result Halt Kernel α) → holds u) ∧
      ∀ d u, EStateM.Result.error e t = (.error d u : EStateM.Result Halt Kernel α) → holds u := by
  refine ⟨fun b u same => ?_, fun d u same => ?_⟩
  · cases same
  · cases same
    exact after

def Leaves {α : Type} (call : Kern α) (k t : Kernel) : Prop :=
  (∃ a, call.run k = .ok a t) ∨ ∃ e, call.run k = .error e t

theorem leaves_keeps {α : Type} (holds : Kernel → Prop) (x : Kern α) (keeps : Keeps holds x) (k t : Kernel)
    (start : holds k) (left : Leaves x k t) : holds t := by
  rcases left with ⟨a, done⟩ | ⟨e, halted⟩
  · exact (keeps k start).1 a t done
  · exact (keeps k start).2 e t halted

theorem leaves_somewhere {α : Type} (x : Kern α) (k : Kernel) : ∃ t, Leaves x k t := by
  cases ended : x.run k with
  | ok a t => exact ⟨t, .inl ⟨a, ended⟩⟩
  | error e t => exact ⟨t, .inr ⟨e, ended⟩⟩

theorem leaves_bind {α β : Type} (x : Kern α) (f : α → Kern β) (k t : Kernel) (left : Leaves (x >>= f) k t) :
    (∃ a s, x.run k = .ok a s ∧ Leaves (f a) s t) ∨ ∃ e, x.run k = .error e t := by
  rcases left with ⟨b, done⟩ | ⟨e, halted⟩
  · obtain ⟨a, s, first, rest⟩ := (run_bind_ok _ _ _ _ _).mp done
    exact .inl ⟨a, s, first, .inl ⟨b, rest⟩⟩
  · rcases (run_bind_error _ _ _ _ _).mp halted with first | ⟨a, s, first, rest⟩
    · exact .inr ⟨e, first⟩
    · exact .inl ⟨a, s, first, .inr ⟨e, rest⟩⟩

section
variable (holds : Kernel → Prop) (steady : Steady holds)
include steady

theorem acquire_keeps (l : Lock) : Keeps holds (acquire l) := by
  refine keeps_get holds _ fun k same => ?_
  split
  · exact keeps_set holds _ (steady k _ ⟨rfl, rfl, rfl, rfl, rfl⟩ same)
  · exact keeps_throw holds _

theorem release_keeps (l : Lock) : Keeps holds (release l) :=
  keeps_modify holds _ fun k => steady k _ ⟨rfl, rfl, rfl, rfl, rfl⟩

theorem modify_keeps (f : Kernel → Kernel) (same : ∀ k, TableFrame k (f k)) :
    Keeps holds (modify f : Kern Unit) :=
  keeps_modify holds f fun k => steady k _ (same k)

theorem bget_keeps (dev : Dev) (blk : Blk) : Keeps holds (bget dev blk) := by
  refine keeps_bind holds _ _ (acquire_keeps holds steady _) fun _ => keeps_get holds _ fun k same => ?_
  split
  · exact keeps_bind holds _ _ (release_keeps holds steady _) fun _ => keeps_pure holds _
  · split
    · refine keeps_bind holds _ _ (keeps_set holds _ (steady k _ ⟨rfl, rfl, rfl, rfl, rfl⟩ same)) fun _ => ?_
      refine keeps_bind holds _ _ (release_keeps holds steady _) fun _ => ?_
      exact keeps_bind holds _ _ (release_keeps holds steady _) fun _ => keeps_pure holds _
    · exact keeps_throw holds _

theorem bread_keeps (dev : Dev) (blk : Blk) : Keeps holds (bread dev blk) := by
  refine keeps_bind holds _ _ (bget_keeps holds steady dev blk) fun b => keeps_get holds _ fun k _ => ?_
  split
  · refine keeps_bind holds _ _ (modify_keeps holds steady _ fun _ => ⟨rfl, rfl, rfl, rfl, rfl⟩) fun _ => ?_
    refine keeps_bind holds _ _ (modify_keeps holds steady _ fun _ => ⟨rfl, rfl, rfl, rfl, rfl⟩) fun _ => ?_
    exact keeps_pure holds _
  · exact keeps_pure holds _

theorem brelease_keeps (b : BufId) : Keeps holds (brelease b) := by
  refine keeps_get holds _ fun k _ => ?_
  split
  · exact keeps_throw holds _
  · refine keeps_bind holds _ _ (keeps_get holds _ fun k _ => keeps_pure holds _) fun held => ?_
    split
    · refine keeps_bind holds _ _ (modify_keeps holds steady _ fun _ => ⟨rfl, rfl, rfl, rfl, rfl⟩) fun _ => ?_
      exact keeps_bind holds _ _ (release_keeps holds steady _) fun _ => keeps_pure holds _
    · exact keeps_pure holds _

theorem bwrite_keeps (b : BufId) : Keeps holds (bwrite b) := by
  refine keeps_bind holds _ _ (acquire_keeps holds steady _) fun _ => keeps_get holds _ fun k _ => ?_
  split
  · exact keeps_bind holds _ _ (release_keeps holds steady _) fun _ => keeps_pure holds _
  · refine keeps_bind holds _ _ (modify_keeps holds steady _ fun _ => ⟨rfl, rfl, rfl, rfl, rfl⟩) fun _ => ?_
    refine keeps_bind holds _ _ (modify_keeps holds steady _ fun _ => ⟨rfl, rfl, rfl, rfl, rfl⟩) fun _ => ?_
    refine keeps_get holds _ fun k same => ?_
    split
    · refine keeps_bind holds _ _ (keeps_set holds _ (steady k _ ⟨rfl, rfl, rfl, rfl, rfl⟩ same)) fun _ => ?_
      exact keeps_pure holds _
    · exact keeps_pure holds _

theorem iput_keeps (i : InodeId)
    (wrote : ∀ s, holds s → (s.inodes i).iFlag &&& idirt ≠ 0 → holds (s.setInode i (s.inodes i).written)) :
    Keeps holds (iput i) := by
  intro k same
  by_cases free : k.locks (.ino i) = none
  · by_cases dirty : (k.inodes i).iFlag &&& idirt = 0
    · rw [iput_clean k i free dirty]
      exact ended_ok holds _ _ (steady k _ ⟨rfl, rfl, rfl, rfl, rfl⟩ same)
    · let slots := fun s : Kernel => holds s ∧ s.inodes = k.inodes
      have kept : Steady slots := fun s t frame both => ⟨steady s t frame both.1, frame.inodes.trans both.2⟩
      have locked : slots (k.lock (.ino i)) := kept k _ ⟨rfl, rfl, rfl, rfl, rfl⟩ ⟨same, rfl⟩
      obtain ⟨read, failed⟩ := bread_keeps slots kept (k.inodes i).iDev
        (tableBlk k (k.inodes i).iDev (k.inodes i).iNum) _ locked
      rw [iput_dirty k i free dirty]
      cases ended : (bread (k.inodes i).iDev (tableBlk k (k.inodes i).iDev (k.inodes i).iNum)).run (k.lock (.ino i)) with
      | error e s => exact ended_error holds e s (failed e s ended).1
      | ok b s =>
          have stored : slots (s.storeInode b i) := kept s _ ⟨rfl, rfl, rfl, rfl, rfl⟩ (read b s ended)
          obtain ⟨flushed, failed⟩ := bwrite_keeps slots kept b _ stored
          dsimp only
          cases ended : (bwrite b).run (s.storeInode b i) with
          | error e w => exact ended_error holds e w (failed e w ended).1
          | ok q w =>
              obtain ⟨after, inodes⟩ := flushed q w ended
              have cleaned := wrote w after (by rw [inodes]; exact dirty)
              exact ended_ok holds _ _ (steady (w.setInode i _) (w.wroteInode i) ⟨rfl, rfl, rfl, rfl, rfl⟩ cleaned)
  · rw [iput_blocked k i free]
    exact ended_error holds _ k same

theorem fdget_keeps : Keeps holds fdget := by
  refine keeps_bind holds _ _ (acquire_keeps holds steady _) fun _ => keeps_get holds _ fun k _ => ?_
  split
  · exact keeps_bind holds _ _ (release_keeps holds steady _) fun _ => keeps_pure holds _
  · exact keeps_pure holds _

theorem fget_keeps (i : InodeId) (flags : UInt32)
    (shares : ∀ s f, holds s → holds (s.setFile f (s.files f).shared))
    (opens : ∀ s f, holds s → holds (s.setFile f ((s.files f).opened i (s.inodes i).iMode flags))) :
    Keeps holds (fget i flags) := by
  have released := release_keeps holds steady
  refine keeps_bind holds _ _ (acquire_keeps holds steady _) fun _ => keeps_get holds _ fun k _ => ?_
  generalize fgetLoop k i = found
  cases found with
  | inl f =>
      refine keeps_get holds _ fun k _ => ?_
      split
      · exact keeps_halt holds _ _
      · refine keeps_bind holds _ _ (keeps_modify holds _ fun s => shares s f) fun _ => ?_
        exact keeps_bind holds _ _ (released _) fun _ => keeps_pure holds _
  | inr empty =>
      cases empty with
      | none => exact keeps_bind holds _ _ (released _) fun _ => keeps_pure holds _
      | some f =>
          refine keeps_bind holds _ _ (keeps_modify holds _ fun s => opens s f) fun _ => ?_
          refine keeps_bind holds _ _ (released _) fun _ => ?_
          exact keeps_bind holds _ _ (released _) fun _ => keeps_pure holds _

theorem dir_search_keeps (ip : InodeId) (entry : List UInt8) (slots : List Nat) :
    Keeps holds (dirSearch ip entry slots) := by
  induction slots with
  | nil => exact keeps_pure holds _
  | cons n rest ih =>
      refine keeps_get holds _ fun k _ => keeps_bind holds _ _ (bread_keeps holds steady _ _) fun b => ?_
      refine keeps_get holds _ fun k _ => ?_
      split
      · exact keeps_pure holds _
      · exact keeps_bind holds _ _ (brelease_keeps holds steady b) fun _ => ih

end

section
variable (holds : Kernel → Prop) (stable : LoadStable holds)
include stable

theorem iget_keeps (dev : Dev) (num : Ino) : Keeps holds (iget dev num) := by
  intro k same
  by_cases free : k.locks .icache = none
  · have locked : holds (k.lock .icache) := stable.steady k _ ⟨rfl, rfl, rfl, rfl, rfl⟩ same
    cases hit : findInode k dev num with
    | some i =>
        rw [iget_hit k dev num i free hit]
        exact ended_ok holds _ _ same
    | none =>
        cases unused : freeInode k with
        | none =>
            rw [iget_full k dev num free hit unused]
            exact ended_error holds _ _ locked
        | some i =>
            let slots := fun s : Kernel => holds s ∧ s.inodes = k.inodes
            have kept : Steady slots := fun s t frame both =>
              ⟨stable.steady s t frame both.1, frame.inodes.trans both.2⟩
            obtain ⟨read, failed⟩ := bread_keeps slots kept dev (tableBlk k dev num) _ ⟨locked, rfl⟩
            rw [iget_missed k dev num i free hit unused]
            cases ended : (bread dev (tableBlk k dev num)).run (k.lock .icache) with
            | error e s => exact ended_error holds e s (failed e s ended).1
            | ok b s =>
                obtain ⟨after, inodes⟩ := read b s ended
                have still : freeInode s = some i := by rw [freeInode, inodes, ← freeInode, unused]
                let x := (s.inodes i).loaded dev num (loadRecord sizeofDInode (s.blocks b).bData (s.wild.pastBlock b) num)
                have frame := released_frame ((s.setInode i x).unlock (.ino i)) b
                refine ended_ok holds _ _ (stable.steady (s.setInode i x) _ ?_ (stable.loads s i x still after))
                exact ⟨frame.current, frame.superblock, frame.inodes, frame.files, frame.procs⟩
  · rw [iget_blocked k dev num free]
    exact ended_error holds _ k same

theorem dir_lookup_keeps (ip : InodeId) (entry : List UInt8) : Keeps holds (dirLookup ip entry) := by
  refine keeps_bind holds _ _ (dir_search_keeps holds stable.steady ip entry _) fun found => ?_
  split
  · exact keeps_bind holds _ _ (iget_keeps holds stable _ _) fun i => keeps_pure holds _
  · exact keeps_pure holds _

theorem namei_loop_keeps (start : Option InodeId) (path : List UInt8) : Keeps holds (nameiLoop start path) := by
  fun_induction nameiLoop start path with
  | case1 | case3 | case4 | case5 => exact keeps_throw holds _
  | case2 => exact keeps_pure holds _
  | case6 byte more named entry rest found ip ih =>
      refine keeps_bind holds _ _ (dir_lookup_keeps holds stable ip entry) fun answer => ?_
      cases answer with
      | none => exact keeps_throw holds _
      | some j => exact ih j

theorem namei_keeps (path : List UInt8) : Keeps holds (namei path) := by
  refine keeps_get holds _ fun k _ => ?_
  cases path with
  | nil => exact keeps_throw holds _
  | cons byte rest =>
      dsimp only
      split
      · exact namei_loop_keeps holds stable _ _
      · exact namei_loop_keeps holds stable _ _

end

end Yaup
