import Yaup.Alloc
import Yaup.FileCounts

set_option autoImplicit false

namespace Yaup

open Lib

def ifdir : UInt16 := 0o040000

structure AtRoot (root : Inode) (k : Kernel) : Prop where
  record : (k.inodes rootInode).toDInode = root.toDInode
  named : (k.inodes rootInode).named = root.named
  directory : (k.inodes rootInode).iMode &&& ifmt = ifdir
  starts : ∀ rest, ∃ start, startOf k (47 :: rest) = some start ∧ (k.inodes start.1).named = root.named

structure RootKept (root : Inode) (k : Kernel) : Prop extends AtRoot root k where
  counted : (k.inodes rootInode).iCount = 1

def PutDrops (k : Kernel) (i : InodeId) : Prop := (k.inodes i).iFlag &&& idirt ≠ 0 ∧ ¬Unwritable k i

def closesInode (k : Kernel) (p : Pid) (fd : Int) : Option InodeId :=
  match (k.procs p).filp fd with
  | some (some f) => if (k.files f).fCount = 1 then (k.files f).fInode else none
  | _ => none

inductive RootAct where
  | iget (p : Pid) (w : Wild) (dev : Dev) (num : Ino)
  | ialloc (p : Pid) (w : Wild) (unset : Option InodeId) (dev : Dev)
  | namei (p : Pid) (w : Wild) (path : List UInt8)
  | sysOpen (p : Pid) (w : Wild) (path : List UInt8) (flags : UInt32) (mode : UInt16)
  | sysClose (p : Pid) (w : Wild) (fd : Int)
  | sysStat (p : Pid) (w : Wild) (path : List UInt8)

def RootStep (getFreePos : Block → UInt64) (k : Kernel) : RootAct → Kernel → Prop
  | .iget p w dev num, t => Over (iget dev num) (begun k p w) t
  | .ialloc p w unset dev, t => Over (ialloc getFreePos unset dev) (begun k p w) t
  | .namei p w path, t => Over (namei path) (begun k p w) t
  | .sysOpen p w path flags mode, t => Over (sysOpen path flags mode) (begun k p w) t
  | .sysClose p w fd, t => Over (sysClose fd) (begun k p w) t
  | .sysStat p w path, t => Over (sysStat path) (begun k p w) t

-- The calls that give up an inode they were handed: none of them gives up the root's.
def SparesRoot (k : Kernel) : RootAct → Prop
  | .sysOpen p w path _ _ => ∀ u, (namei path).run (begun k p w) = .ok rootInode u → ¬PutDrops u rootInode
  | .sysClose p _ fd => closesInode k p fd = some rootInode → ¬PutDrops k rootInode
  | .sysStat p w path => ∀ u, (namei path).run (begun k p w) = .ok rootInode u → Unwritable u rootInode
  | _ => True

theorem starts_at_root (k : Kernel) (rest : List UInt8) : startOf k (47 :: rest) = some (rootInode, rest) := rfl

theorem kept_same (root : Inode) (k t : Kernel) (same : t.inodes rootInode = k.inodes rootInode) :
    RootKept root t ↔ RootKept root k := by
  constructor
  · rintro ⟨⟨record, named, directory, -⟩, counted⟩
    rw [same] at record named directory counted
    exact ⟨⟨record, named, directory, fun rest => ⟨_, starts_at_root k rest, named⟩⟩, counted⟩
  · rintro ⟨⟨record, named, directory, -⟩, counted⟩
    rw [← same] at record named directory counted
    exact ⟨⟨record, named, directory, fun rest => ⟨_, starts_at_root t rest, named⟩⟩, counted⟩

section
variable (x : Inode)

def RootIs (s : Kernel) : Prop := s.inodes rootInode = x

theorem root_steady : Steady (RootIs x) := fun _ _ frame same => (congrFun frame.inodes rootInode).trans same

theorem root_stable (used : x.iCount ≠ 0) : LoadStable (RootIs x) where
  steady := root_steady x
  loads := by
    intro s i y unused same
    have other : rootInode ≠ i := by
      rintro rfl
      exact used (same ▸ ((free_inode_some s rootInode).mp unused).1)
    exact (Function.update_of_ne other y s.inodes).trans same

theorem root_iput_keeps (i : InodeId) (other : i ≠ rootInode) : Keeps (RootIs x) (iput i) :=
  iput_keeps _ (root_steady x) i fun s same _ => (Function.update_of_ne other.symm _ s.inodes).trans same

theorem root_ialloc_keeps (getFreePos : Block → UInt64) (unset : Option InodeId) (dev : Dev) (used : x.iCount ≠ 0) :
    Keeps (RootIs x) (ialloc getFreePos unset dev) := by
  suffices ∀ left c, Keeps (RootIs x) (iallocLoop getFreePos unset dev left c) from this _ _
  intro left
  induction left with
  | zero => exact fun c => keeps_throw _ _
  | succ left ih =>
      intro c
      refine keeps_get _ _ fun k _ => ?_
      split
      · refine keeps_bind _ _ _ (bread_keeps _ (root_steady x) _ _) fun b => keeps_get _ _ fun k _ => ?_
        dsimp only
        split
        · exact keeps_bind _ _ _ (iget_keeps _ (root_stable x used) _ _) fun i => keeps_pure _ _
        · exact ih (c + 1)
      · exact keeps_pure _ _

theorem root_open_keeps (i : InodeId) (flags : UInt32) (other : i ≠ rootInode) :
    Keeps (RootIs x) (openInode i flags) :=
  open_inode_keeps _ (root_steady x) i flags (root_iput_keeps x i other) (fun _ _ same => same) (fun _ _ same => same)
    (fun _ _ same => same) fun _ _ same => same

theorem root_stat_keeps (i : InodeId) (other : i ≠ rootInode) : Keeps (RootIs x) (statInode i) := by
  have ilocked : Keeps (RootIs x) (ilock i) := by
    refine keeps_bind _ _ _ (keeps_get _ _ fun k _ => keeps_pure _ _) fun held => ?_
    split
    · exact keeps_bind _ _ _ (acquire_keeps _ (root_steady x) _) fun _ => keeps_pure _ _
    · exact keeps_pure _ _
  have released : Keeps (RootIs x) (irelease i) := by
    intro k same
    rw [irelease_run]
    refine ended_ok _ _ _ ?_
    split
    · exact (Function.update_of_ne other.symm _ k.inodes).trans same
    · exact same
  refine keeps_bind _ _ _ ilocked fun _ => keeps_get _ _ fun k _ => ?_
  refine keeps_bind _ _ _ (root_iput_keeps x i other) fun _ => ?_
  exact keeps_bind _ _ _ released fun _ => keeps_pure _ _

end

theorem iput_over_inode (k t : Kernel) (i : InodeId) (ended : Over (iput i) k t) :
    ∃ x : Inode, t.inodes = Function.update k.inodes i x ∧
      ((PutDrops k i ∧ x = (k.inodes i).written) ∨ (¬PutDrops k i ∧ x = k.inodes i)) := by
  rcases ended with ⟨r, done⟩ | ⟨e, halted, waits⟩
  · obtain ⟨-, -, ⟨clean, rfl⟩ | ⟨dirty, b, s, q, w, read, flushed, rfl⟩⟩ := iput_cases k t i r done
    · exact ⟨k.inodes i, (Function.update_eq_self i k.inodes).symm, .inr ⟨fun drops => drops.1 clean, rfl⟩⟩
    · have frame := buffer_frame_trans _ _ _ (bread_frame _ s _ _ b read)
        (buffer_frame_trans _ _ _ (set_block_frame s b _) (bwrite_frame _ w b q flushed))
      have inodes : w.inodes = k.inodes := frame.inodes
      refine ⟨(k.inodes i).written, ?_, .inl ⟨⟨dirty, iput_writable k _ i r done⟩, rfl⟩⟩
      rw [Kernel.wroteInode, Kernel.unlock_inodes, Kernel.setInode_inodes, inodes]
  · rcases iput_stops k t i e halted with ⟨l, blocked⟩ | ⟨stuck, frame⟩
    · exact absurd blocked (waits l)
    · refine ⟨k.inodes i, ?_, .inr ⟨fun drops => drops.2 stuck, rfl⟩⟩
      rw [Function.update_eq_self, frame.inodes]

theorem close_last_over (k t : Kernel) (f : FileId) (ended : Over (closeLast f) k t) :
    ((k.files f).fInode = none ∧ t.inodes = k.inodes) ∨
      ∃ i s, (k.files f).fInode = some i ∧ Over (iput i) (k.setFile f (k.files f).unflagged) s ∧ t.inodes = s.inodes := by
  let u := k.setFile f (k.files f).unflagged
  have kept : (u.files f).fInode = (k.files f).fInode := by simp [u, File.unflagged]
  rcases (over_bind _ _ _ _).mp ended with ⟨_, _, changed, ended⟩ | ⟨e, halted, -⟩
  · cases changed
    replace ended := (over_get _ u t).mp ended
    rw [kept] at ended
    cases inode : (k.files f).fInode with
    | none =>
        rw [inode] at ended
        rw [over_throw _ u t ended]
        exact .inl ⟨rfl, rfl⟩
    | some i =>
        rw [inode] at ended
        rcases (over_bind _ _ _ _).mp ended with ⟨r, s, put, rest⟩ | stopped
        · have same : Keeps (fun v : Kernel => v.inodes = s.inodes) (do
              modify fun k => k.setFile f { k.files f with fInode := none, fMode := 0, fOff := 0 }
              modify (·.unlock (.file f)) : Kern Unit) :=
            keeps_bind _ _ _ (keeps_modify _ _ fun _ same => same) fun _ => keeps_modify _ _ fun _ same => same
          exact .inr ⟨i, s, rfl, .inl ⟨r, put⟩, over_keeps _ _ same s t rfl rest⟩
        · exact .inr ⟨i, t, rfl, .inr stopped, rfl⟩
  · cases halted

theorem close_over (k t : Kernel) (fd : Int) (ended : Over (sysClose fd) k t) :
    (closesInode k k.current fd = none ∧ t.inodes = k.inodes) ∨
      ∃ i v s, closesInode k k.current fd = some i ∧ v.inodes = k.inodes ∧ (Unwritable v i ↔ Unwritable k i) ∧
        Over (iput i) v s ∧ t.inodes = s.inodes := by
  by_cases empty : ∀ f, (k.procs k.current).filp fd ≠ some (some f)
  · refine .inl ⟨?_, by rw [close_refused k t fd empty ended]⟩
    rw [closesInode]
    split
    · rename_i f named
      exact absurd named (empty f)
    · rfl
  · obtain ⟨f, named⟩ := not_forall_not.mp empty
    obtain ⟨good, inside, taken⟩ := filp_inside _ fd f named
    have gives : closesInode k k.current fd = if (k.files f).fCount = 1 then (k.files f).fInode else none := by
      rw [closesInode, named]
    have count : ((k.beginClose f).files f).fCount = (k.files f).fCount - 1 := by simp [Kernel.beginClose, File.dropped]
    have inode : ((k.beginClose f).files f).fInode = (k.files f).fInode := by simp [Kernel.beginClose, File.dropped]
    have released : ∀ v, Keeps (fun u : Kernel => u.inodes = v) (do
        release .openFiles
        return 0 : Kern Int) := fun v =>
      keeps_bind _ _ _ (keeps_modify _ _ fun _ same => same) fun _ => keeps_pure _ _
    unfold sysClose at ended
    rw [if_neg good] at ended
    replace ended := (over_get _ k t).mp ended
    rw [dif_pos inside, taken] at ended
    obtain ⟨-, ended⟩ := over_acquire _ _ k t ended
    rcases (over_bind _ _ _ _).mp ended with ⟨_, _, dropped, ended⟩ | ⟨e, halted, -⟩
    · cases dropped
      replace ended := (over_get _ (k.beginClose f) t).mp ended
      rw [count] at ended
      by_cases last : (k.files f).fCount - 1 = 0
      · rw [if_pos last] at ended
        have one := count_drop_zero _ last
        rw [gives, if_pos one]
        obtain ⟨u, closed, after⟩ : ∃ u, Over (closeLast f) (k.beginClose f) u ∧ t.inodes = u.inodes := by
          rcases (over_bind _ _ _ _).mp ended with ⟨a, u, closed, rest⟩ | stopped
          · exact ⟨u, .inl ⟨a, closed⟩, over_keeps _ _ (released u.inodes) u t rfl rest⟩
          · exact ⟨t, .inr stopped, rfl⟩
        rw [after]
        have ends := close_last_over (k.beginClose f) u f closed
        rw [inode] at ends
        rcases ends with ⟨none, same⟩ | ⟨i, s, had, put, same⟩
        · exact .inl ⟨none, same⟩
        · let v := (k.beginClose f).setFile f ((k.beginClose f).files f).unflagged
          exact .inr ⟨i, v, s, had, rfl, unwritable_same k v i rfl rfl rfl, put, same⟩
      · rw [if_neg last] at ended
        refine .inl ⟨?_, over_keeps _ _ (released k.inodes) (k.beginClose f) t rfl ended⟩
        rw [gives, if_neg]
        intro one
        exact last (by rw [one]; rfl)
    · cases halted

-- statInode gives up the reference whichever way iput leaves the inode, except where iput
-- panics.
theorem stat_over (k t : Kernel) (i : InodeId) (ended : Over (statInode i) k t) :
    (Unwritable k i ∧ t.inodes = k.inodes) ∨
      (¬Unwritable k i ∧ (t.inodes i).iCount = (k.inodes i).iCount - 1) := by
  have unlocked : ∀ s l, (ilock i).run k = .ok l s → (∃ r u, (iput i).run s = .ok r u) ∨
      (∃ e u, (iput i).run s = .error e u ∧ ∀ l, e ≠ .blocked l) → s = k := by
    intro s l locked ends
    rcases ilock_cases k s i l locked with same | ⟨-, taken⟩
    · exact same
    · have blocked := iput_blocked s i (by rw [taken]; simp)
      rcases ends with ⟨r, u, done⟩ | ⟨e, u, halted, waits⟩
      · cases blocked.symm.trans done
      · cases blocked.symm.trans halted
        exact absurd rfl (waits _)
  rcases ended with ⟨answer, done⟩ | ⟨e, halted, waits⟩
  · obtain ⟨-, -, -, -, x, inodes, count, -⟩ := stat_inode_cases k t i answer done
    obtain ⟨l, s, locked, rest⟩ := (run_bind_ok _ _ _ _ _).mp done
    obtain ⟨_, _, seen, rest⟩ := (run_bind_ok _ _ _ _ _).mp rest
    cases seen
    obtain ⟨r, u, put, -⟩ := (run_bind_ok _ _ _ _ _).mp rest
    obtain rfl := unlocked s l locked (.inl ⟨r, u, put⟩)
    exact .inr ⟨iput_writable s u i r put, by rw [inodes, Function.update_self, count]⟩
  · rcases (run_bind_error _ _ _ _ _).mp halted with locked | ⟨l, s, locked, rest⟩
    · rw [ilock_run] at locked
      split at locked
      · split at locked
        · cases locked
        · cases locked
          exact absurd rfl (waits _)
      · cases locked
    · rw [run_get_bind] at rest
      rcases (run_bind_error _ _ _ _ _).mp rest with put | ⟨r, u, -, rest⟩
      · obtain rfl := unlocked s l locked (.inr ⟨e, t, put, waits⟩)
        rcases iput_stops s t i e put with ⟨m, blocked⟩ | ⟨stuck, frame⟩
        · exact absurd blocked (waits m)
        · exact .inl ⟨stuck, frame.inodes⟩
      · rcases (run_bind_error _ _ _ _ _).mp rest with released | ⟨q, v, -, rest⟩
        · rw [irelease_run] at released
          cases released
        · cases rest

theorem count_gone (c : UInt8) (one : c = 1) : c - 1 ≠ 1 := by
  rw [one]
  decide

theorem put_kept_iff (root : Inode) (k v s t : Kernel) (kept : RootKept root k) (i : InodeId) (same : v.inodes = k.inodes)
    (ended : Over (iput i) v s) (after : t.inodes = s.inodes) :
    RootKept root t ↔ (i = rootInode → ¬PutDrops v i) := by
  obtain ⟨x, inodes, change⟩ := iput_over_inode v s i ended
  rw [same] at inodes change
  by_cases here : i = rootInode
  · subst here
    have slot : t.inodes rootInode = x := by rw [after, inodes, Function.update_self]
    rcases change with ⟨drops, rfl⟩ | ⟨spares, rfl⟩
    · refine iff_of_false (fun later => ?_) fun guard => guard rfl drops
      refine count_gone _ kept.counted ?_
      have counted := later.counted
      rw [slot] at counted
      exact counted
    · exact iff_of_true ((kept_same root k t slot).mpr kept) fun _ => spares
  · have slot : t.inodes rootInode = k.inodes rootInode := by
      rw [after, inodes, Function.update_of_ne (Ne.symm here)]
    exact iff_of_true ((kept_same root k t slot).mpr kept) fun same => absurd same here

section
variable (root : Inode) (k t : Kernel) (p : Pid) (w : Wild) (kept : RootKept root k)
include kept

theorem root_used : (k.inodes rootInode).iCount ≠ 0 := by
  rw [kept.counted]
  decide

theorem root_after {α : Type} (call : Kern α) (keeps : Keeps (RootIs (k.inodes rootInode)) call)
    (ended : Over call (begun k p w) t) : RootKept root t :=
  (kept_same root k t (over_keeps _ call keeps (begun k p w) t rfl ended)).mpr kept

theorem root_walk_iff {α : Type} (path : List UInt8) (rest : InodeId → Kern α) (Spares : Kernel → Prop)
    (others : ∀ i, i ≠ rootInode → Keeps (RootIs (k.inodes rootInode)) (rest i))
    (here : ∀ u, RootKept root u → Over (rest rootInode) u t → (RootKept root t ↔ Spares u))
    (ended : Over (namei path >>= rest) (begun k p w) t) :
    RootKept root t ↔ ∀ u, (namei path).run (begun k p w) = .ok rootInode u → Spares u := by
  have walked := namei_keeps _ (root_stable _ (root_used root k kept)) path
  rcases (over_bind _ _ _ _).mp ended with ⟨i, u, looked, after⟩ | ⟨e, halted, waits⟩
  · have same : u.inodes rootInode = k.inodes rootInode := (walked (begun k p w) rfl).1 i u looked
    by_cases atRoot : i = rootInode
    · subst atRoot
      rw [here u ((kept_same root k u same).mpr kept) after]
      constructor
      · intro spares v again
        cases looked.symm.trans again
        exact spares
      · exact fun guard => guard u looked
    · have later := over_keeps _ _ (others i atRoot) u t same after
      refine iff_of_true ((kept_same root k t later).mpr kept) fun v again => ?_
      cases looked.symm.trans again
      exact absurd rfl atRoot
  · refine iff_of_true (root_after root k t p w kept (namei path) walked (.inr ⟨e, halted, waits⟩)) fun v again => ?_
    cases halted.symm.trans again

theorem root_open_iff (path : List UInt8) (flags : UInt32) (mode : UInt16)
    (ended : Over (sysOpen path flags mode) (begun k p w) t) :
    RootKept root t ↔ SparesRoot k (.sysOpen p w path flags mode) := by
  refine root_walk_iff root k t p w kept path (fun i => openInode i flags) (fun u => ¬PutDrops u rootInode)
    (fun i other => root_open_keeps _ i flags other) (fun u held after => ?_) ended
  have irregular : ¬(u.inodes rootInode).iMode &&& ifmt = ifreg := by
    rw [held.directory]
    decide
  rw [open_inode_parts] at after
  replace after := (over_get _ u t).mp after
  rw [if_pos irregular] at after
  have put := over_iput u t rootInode _ after fun r s stopped => over_throw _ s t stopped
  rw [put_kept_iff root u u t t held rootInode rfl put rfl]
  exact ⟨fun spares => spares rfl, fun spares _ => spares⟩

theorem root_stat_iff (path : List UInt8) (ended : Over (sysStat path) (begun k p w) t) :
    RootKept root t ↔ SparesRoot k (.sysStat p w path) := by
  refine root_walk_iff root k t p w kept path statInode (fun u => Unwritable u rootInode)
    (fun i other => root_stat_keeps _ i other) (fun u held after => ?_) ended
  rcases stat_over u t rootInode after with ⟨stuck, same⟩ | ⟨writable, count⟩
  · exact iff_of_true ((kept_same root u t (congrFun same rootInode)).mpr held) stuck
  · refine iff_of_false (fun later => count_gone _ held.counted ?_) writable
    rw [← count]
    exact later.counted

theorem root_close_iff (fd : Int) (ended : Over (sysClose fd) (begun k p w) t) :
    RootKept root t ↔ SparesRoot k (.sysClose p w fd) := by
  have held : RootKept root (begun k p w) := (kept_same root k (begun k p w) rfl).mpr kept
  have closes : closesInode k p fd = closesInode (begun k p w) p fd := rfl
  rcases close_over (begun k p w) t fd ended with ⟨none, same⟩ | ⟨i, v, s, gives, inodes, stuck, put, after⟩
  · refine iff_of_true ((kept_same root k t (congrFun same rootInode)).mpr kept) fun gives => ?_
    cases none.symm.trans gives
  · rw [put_kept_iff root (begun k p w) v s t held i inodes put after]
    have drops : i = rootInode → (PutDrops v i ↔ PutDrops k rootInode) := by
      rintro rfl
      rw [PutDrops, PutDrops, inodes, stuck]
      exact Iff.rfl
    constructor
    · intro spares same
      cases gives.symm.trans same
      exact (drops rfl).not.mp (spares rfl)
    · rintro spares rfl
      exact (drops rfl).not.mpr (spares gives)

end

theorem root_step_iff (getFreePos : Block → UInt64) (root : Inode) (k : Kernel) (act : RootAct) (t : Kernel)
    (kept : RootKept root k) (taken : RootStep getFreePos k act t) : RootKept root t ↔ SparesRoot k act := by
  have stable := root_stable (k.inodes rootInode) (root_used root k kept)
  cases act with
  | iget p w dev num => exact iff_of_true (root_after root k t p w kept _ (iget_keeps _ stable dev num) taken) trivial
  | ialloc p w unset dev =>
      have keeps := root_ialloc_keeps _ getFreePos unset dev (root_used root k kept)
      exact iff_of_true (root_after root k t p w kept _ keeps taken) trivial
  | namei p w path => exact iff_of_true (root_after root k t p w kept _ (namei_keeps _ stable path) taken) trivial
  | sysOpen p w path flags mode => exact root_open_iff root k t p w kept path flags mode taken
  | sysClose p w fd => exact root_close_iff root k t p w kept fd taken
  | sysStat p w path => exact root_stat_iff root k t p w kept path taken

theorem root_stays (getFreePos : Block → UInt64) (root : Inode) (first last : Kernel)
    (moves : List (Move Kernel RootAct)) (run : Run (RootStep getFreePos) first moves last) (start : RootKept root first) :
    ((∀ move ∈ moves, SparesRoot move.before move.act) → Throughout (AtRoot root) moves last) ∧
      (Throughout (RootKept root) moves last ↔ ∀ move ∈ moves, SparesRoot move.before move.act) := by
  have both := run_invariant_iff (RootStep getFreePos) SparesRoot (RootKept root) (root_step_iff getFreePos root)
    first last moves run start
  refine ⟨fun spares => ?_, both⟩
  obtain ⟨along, final⟩ := both.mpr spares
  exact ⟨fun move member => (along move member).toAtRoot, final.toAtRoot⟩

theorem stat_clean_run (k : Kernel) (i : InodeId) (cache : k.locks .icache ≠ some k.current)
    (free : k.locks (.ino i) = none) (clean : (k.inodes i).iFlag &&& idirt = 0) :
    (statInode i).run k =
      .ok (0, (k.inodes i).stat) (k.setInode i { k.inodes i with iCount := (k.inodes i).iCount - 1 }) := by
  have locked : (ilock i).run k = .ok 0 k := by rw [ilock_run, if_neg cache]
  have mine : (k.lock (.ino i)).locks (.ino i) = some (k.lock (.ino i)).current := Function.update_self _ _ _
  have released := irelease_run (k.lock (.ino i)) i
  rw [if_pos mine] at released
  have back : ((k.lock (.ino i)).unlock (.ino i)).setInode i { k.inodes i with iCount := (k.inodes i).iCount - 1 } =
      k.setInode i { k.inodes i with iCount := (k.inodes i).iCount - 1 } := by rw [Kernel.unlock_lock k _ free]
  rw [← back]
  refine (run_bind_ok _ _ _ _ _).mpr ⟨0, k, locked, (run_bind_ok _ _ _ _ _).mpr ⟨k, k, rfl, ?_⟩⟩
  refine (run_bind_ok _ _ _ _ _).mpr ⟨0, _, iput_clean k i free clean, ?_⟩
  exact (run_bind_ok _ _ _ _ _).mpr ⟨0, _, released, rfl⟩

theorem iget_load_returns (k : Kernel) (dev : Dev) (num : Ino) (i : InodeId) (cache : k.locks .icache = none)
    (buffers : k.locks .buffer = none) (room : freeBlock k ≠ none) (miss : findInode k dev num = none)
    (unused : freeInode k = some i) : ∃ t, (iget dev num).run k = .ok i t := by
  have table : (k.lock .icache).locks .buffer = none := by simpa using buffers
  obtain ⟨b, s, read⟩ := (bread_returns_iff (k.lock .icache) dev (tableBlk k dev num)).mpr ⟨table, .inr room⟩
  rw [iget_missed k dev num i cache miss unused, read]
  exact ⟨_, rfl⟩

def rootDir : Inode := { Kernel.zero.inodes 0 with iMode := ifdir, iNum := 1, iDev := 1, iCount := 1 }

def rootOnly : Kernel := Kernel.zero.setInode 0 rootDir

theorem root_only_kept : RootKept rootDir rootOnly :=
  ⟨⟨rfl, rfl, by decide, fun rest => ⟨_, starts_at_root _ rest, rfl⟩⟩, rfl⟩

theorem root_slot_taken :
    ¬∀ (getFreePos : Block → UInt64) (root : Inode) (first last : Kernel) (moves : List (Move Kernel RootAct)),
      Run (RootStep getFreePos) first moves last → RootKept root first → Throughout (AtRoot root) moves last := by
  intro claim
  let dropped := rootOnly.setInode 0 { rootDir with iCount := 0 }
  have root := namei_root rootOnly []
  have stat := stat_clean_run rootOnly 0 (by decide) rfl rfl
  have first : RootStep (fun _ => 0) rootOnly (.sysStat 0 rootOnly.wild [47, 0]) dropped :=
    .inl ⟨_, (run_bind_ok _ _ _ _ _).mpr ⟨0, rootOnly, root, stat⟩⟩
  have miss : findInode (begun dropped 0 dropped.wild) 2 9 = none := by
    refine (find_inode_none _ 2 9).mpr fun i same => ?_
    by_cases here : i = 0
    · subst here
      exact absurd same.1 (by decide)
    · have other : (begun dropped 0 dropped.wild).inodes i = Kernel.zero.inodes i := by
        simp [begun, dropped, rootOnly, here]
      have zero : (Kernel.zero.inodes i).iDev = 0 := rfl
      rw [other, zero] at same
      exact absurd same.1 (by decide)
  have unused : freeInode (begun dropped 0 dropped.wild) = some 0 :=
    (free_inode_some _ 0).mpr ⟨by simp [begun, dropped], fun j below => absurd below (Fin.not_lt_zero j)⟩
  have room : freeBlock (begun dropped 0 dropped.wild) ≠ none := fun full => (free_block_none _).mp full 0 rfl
  obtain ⟨t, done⟩ := iget_load_returns _ 2 9 0 rfl rfl room miss unused
  have second : RootStep (fun _ => 0) dropped (.iget 0 dropped.wild 2 9) t := .inl ⟨0, done⟩
  have along := claim _ rootDir _ t _ (.cons _ _ _ _ _ first (.cons _ _ _ _ _ second (.nil t))) root_only_kept
  obtain ⟨-, -, x, inodes, -, onDev, -⟩ := iget_miss _ t 2 9 0 done miss
  have named := congrArg Prod.fst along.2.named
  have slot : t.inodes rootInode = x := by rw [inodes, rootInode, Function.update_self]
  rw [slot] at named
  cases onDev.symm.trans named

theorem root_stays_found :
    ∃ (moves : List (Move Kernel RootAct)) (last : Kernel), moves.length = 2 ∧
      Run (RootStep fun _ => 0) rootOnly moves last ∧ Throughout (AtRoot rootDir) moves last := by
  have root := namei_root rootOnly []
  have hit : findInode rootOnly 1 1 = some 0 :=
    (find_inode_some _ 1 1 0).mpr ⟨⟨rfl, rfl⟩, fun j below => absurd below (Fin.not_lt_zero j)⟩
  have found : RootStep (fun _ => 0) rootOnly (.iget 0 rootOnly.wild 1 1) rootOnly :=
    .inl ⟨0, iget_hit rootOnly 1 1 0 rfl hit⟩
  have put := iput_clean rootOnly 0 rfl rfl
  have halted : (openInode 0 1).run rootOnly =
      .error (.panic "sys_open: this is not a regular file") (rootOnly.lock (.ino 0)) := by
    rw [open_inode_parts, run_get_bind, if_pos (by decide)]
    exact (run_bind_error _ _ _ _ _).mpr (.inr ⟨0, _, put, rfl⟩)
  have refused : RootStep (fun _ => 0) rootOnly (.sysOpen 0 rootOnly.wild [47, 0] 1 0) (rootOnly.lock (.ino 0)) :=
    .inr ⟨_, (run_bind_error _ _ _ _ _).mpr (.inr ⟨0, rootOnly, root, halted⟩), by simp⟩
  have run := Run.cons _ _ _ _ _ found (.cons _ _ _ _ _ refused (.nil _))
  refine ⟨_, _, rfl, run, (root_stays _ rootDir rootOnly _ _ run root_only_kept).1 ?_⟩
  simp only [List.forall_mem_cons]
  refine ⟨trivial, fun u looked drops => ?_, by simp⟩
  cases root.symm.trans looked
  exact drops.1 rfl

end Yaup
