import Yaup.Lib.LockOrder
import Yaup.Alone
import Yaup.Locks

set_option autoImplicit false

namespace Yaup

open Lib

-- First the locks of tables and processes, then an inode's, then the buffer table's, then
-- a buffer's. No call acquires the lock of a file.
def Lock.rank : Lock → Nat
  | .mtable | .icache | .openFiles | .procTable | .proc _ | .file _ => 0
  | .ino _ => 1
  | .buffer => 2
  | .buf _ => 3

def kernelLocks : LockTable Kernel Lock Pid where
  owner k := k.locks
  seenBy p k := k.runAs p
  taken p l k := (k.runAs p).lock l
  given l k := k.unlock l
  owner_seen _ _ := rfl
  owner_taken _ _ _ := rfl
  owner_given _ _ := rfl

structure Climbs {α : Type} (x : Steps α) (after : α → Lock → Prop) (held : Lock → Prop) : Prop where
  steps : Prog.Climbs kernelLocks Lock.rank after x held

def Below (n : Nat) (held : Lock → Prop) : Prop := ∀ l, held l → l.rank < n

theorem below_more (n m : Nat) (held : Lock → Prop) (l : Lock) (below : Below n held) (low : n ≤ m)
    (rank : l.rank < m) : Below m fun k => held k ∨ k = l := by
  rintro k (inside | rfl)
  · exact Nat.lt_of_lt_of_le (below k inside) low
  · exact rank

namespace Steps

section
variable {α β : Type} (held : Lock → Prop)

theorem climbs_bind (x : Steps α) (f : α → Steps β) (middle : α → Lock → Prop) (after : β → Lock → Prop)
    (first : Climbs x middle held) (second : ∀ a, Climbs (f a) after (middle a)) : Climbs (x >>= f) after held :=
  ⟨Lib.climbs_bind kernelLocks Lock.rank x f middle after held first.steps fun a => (second a).steps⟩

theorem climbs_state (f : Kernel → Steps β) (after : β → Lock → Prop) (rest : ∀ k, Climbs (f k) after held) :
    Climbs (Prog.state >>= f) after held :=
  ⟨Lib.climbs_state kernelLocks Lock.rank f after held fun k => (rest k).steps⟩

theorem climbs_change (change : Kernel → Kernel) (f : Unit → Steps β) (after : β → Lock → Prop)
    (owners : ∀ k, (change k).locks = k.locks) (rest : Climbs (f ()) after held) :
    Climbs (Prog.change change >>= f) after held :=
  ⟨Lib.climbs_change kernelLocks Lock.rank change f after held owners rest.steps⟩

theorem climbs_acquire (l : Lock) (f : Unit → Steps β) (after : β → Lock → Prop) (below : Below l.rank held)
    (rest : Climbs (f ()) after fun m => held m ∨ m = l) : Climbs (Prog.acquire l >>= f) after held :=
  ⟨Lib.climbs_acquire kernelLocks Lock.rank l f after held below rest.steps⟩

theorem climbs_release_taken (l : Lock) (f : Unit → Steps β) (after : β → Lock → Prop)
    (rest : Climbs (f ()) after held) : Climbs (Prog.release l >>= f) after fun m => held m ∨ m = l :=
  ⟨Lib.climbs_release_taken kernelLocks Lock.rank l f after held rest.steps⟩

theorem climbs_release_any (l : Lock) (f : Unit → Steps β) (after : β → Lock → Prop)
    (rest : Climbs (f ()) after held) : Climbs (Prog.release l >>= f) after held :=
  ⟨Lib.climbs_release_any kernelLocks Lock.rank l f after held rest.steps⟩

theorem climbs_tell (n : Note) (f : Unit → Steps β) (after : β → Lock → Prop) (rest : Climbs (f ()) after held) :
    Climbs (Prog.tell n >>= f) after held := ⟨rest.steps⟩

theorem climbs_pure (a : α) (after : α → Lock → Prop) (reaches : ∀ l, held l → after a l) :
    Climbs (pure a) after held := ⟨reaches⟩

theorem climbs_halt (e : Halt) (after : α → Lock → Prop) : Climbs (.halt e : Steps α) after held := ⟨trivial⟩

theorem climbs_panic_then (msg : String) (f : β → Steps α) (after : α → Lock → Prop) :
    Climbs (panic msg >>= f) after held := ⟨trivial⟩

theorem climbs_holdingsleep (l : Lock) (f : Bool → Steps β) (after : β → Lock → Prop)
    (rest : ∀ mine : Bool, (mine = true → held l) → Climbs (f mine) after held) :
    Climbs (holdingsleep l >>= f) after held :=
  ⟨fun _ _ mine => (rest _ fun yes => mine l (of_decide_eq_true yes)).steps⟩

theorem bget_found_climbs (dev : Dev) (blk : Blk) (found unused : Option BufId) :
    Climbs (bgetFound dev blk found unused) (fun _ => held) fun m => held m ∨ m = .buffer := by
  rcases found with _ | b
  · rcases unused with _ | b
    · exact climbs_halt _ _ _
    · refine climbs_change _ _ _ _ (by exact fun _ => rfl) ?_
      refine climbs_change _ _ _ _ (by exact fun _ => rfl) ?_
      refine climbs_change _ _ _ _ (by exact fun _ => rfl) ?_
      apply climbs_release_any
      exact climbs_release_taken held _ _ _ (climbs_pure held b _ fun _ => id)
  · exact climbs_release_taken held _ _ _ (climbs_pure held b _ fun _ => id)

theorem bget_climbs (dev : Dev) (blk : Blk) (below : Below 2 held) : Climbs (bget dev blk) (fun _ => held) held := by
  unfold bget
  apply climbs_acquire held .buffer _ _ below
  apply climbs_state
  intro k
  exact bget_found_climbs held dev blk _ _

theorem bread_body_climbs (b : BufId) : Climbs (breadBody b) (fun _ => held) held := by
  unfold breadBody
  apply climbs_state
  intro k
  dsimp only
  split
  · refine climbs_change _ _ _ _ (by exact fun _ => rfl) ?_
    refine climbs_change _ _ _ _ (by exact fun _ => rfl) ?_
    exact climbs_pure held b _ fun _ => id
  · exact climbs_pure held b _ fun _ => id

theorem bread_climbs (dev : Dev) (blk : Blk) (below : Below 2 held) : Climbs (bread dev blk) (fun _ => held) held := by
  unfold bread
  apply climbs_bind held _ _ _ _ (bget_climbs held dev blk below)
  intro b
  apply climbs_bind held _ _ _ _ (bread_body_climbs held b)
  intro b
  apply climbs_tell
  exact climbs_pure held b (fun _ => held) fun _ => id

theorem bwrite_climbs (b : BufId) (below : Below 3 held) :
    Climbs (bwrite b) (fun _ l => held l ∨ l = .buf b) held := by
  unfold bwrite
  apply climbs_tell
  apply climbs_acquire held (.buf b) _ _ below
  apply climbs_state
  intro k
  dsimp only
  split
  · apply climbs_release_any
    exact climbs_pure _ _ _ fun _ => id
  · refine climbs_change _ _ _ _ (by exact fun _ => rfl) ?_
    refine climbs_change _ _ _ _ (by exact fun _ => rfl) ?_
    apply climbs_state
    intro k
    split
    · refine climbs_change _ _ _ _ (by exact fun _ => rfl) ?_
      refine climbs_change _ _ _ _ (by exact fun _ => rfl) ?_
      refine climbs_change _ _ _ _ (by exact fun _ => rfl) ?_
      exact climbs_pure _ _ _ fun _ => id
    · exact climbs_pure _ _ _ fun _ => id

theorem brelease_climbs (b : BufId) : Climbs (brelease b) (fun _ => held) held := by
  unfold brelease
  apply climbs_tell
  apply climbs_state
  intro k
  dsimp only
  split
  · exact climbs_panic_then _ _ _ _
  · apply climbs_holdingsleep
    intro mine owned
    cases mine with
    | false => exact climbs_pure _ _ _ fun _ => id
    | true =>
        refine climbs_change _ _ _ _ (by exact fun _ => rfl) ?_
        apply climbs_release_any
        exact climbs_pure _ _ _ fun _ => id

theorem iget_load_climbs (free : InodeId) (dev : Dev) (num : Ino) (below : Below 2 held) :
    Climbs (igetLoad free dev num) (fun _ => held) fun m => held m ∨ m = .icache := by
  unfold igetLoad
  apply climbs_state
  intro k
  apply climbs_bind _ _ _ _ _ (bread_climbs _ _ _ (below_more 2 2 held .icache below (Nat.le_refl 2) (by decide)))
  intro b
  refine climbs_change _ _ _ _ (by exact fun _ => rfl) ?_
  refine climbs_change _ _ _ _ (by exact fun _ => rfl) ?_
  refine climbs_change _ _ _ _ (by exact fun _ => rfl) ?_
  refine climbs_change _ _ _ _ (by exact fun _ => rfl) ?_
  apply climbs_release_any
  apply climbs_bind _ _ _ _ _ (brelease_climbs _ b)
  intro _
  exact climbs_release_taken held _ _ _ (climbs_pure held free _ fun _ => id)

theorem iget_climbs (dev : Dev) (num : Ino) (below : Below 0 held) : Climbs (iget dev num) (fun _ => held) held := by
  unfold iget
  apply climbs_acquire held .icache _ _ below
  apply climbs_state
  intro k
  generalize igetLoop k dev num = found
  rcases found with i | _ | free
  · exact climbs_release_taken held _ _ _ (climbs_pure held i _ fun _ => id)
  · exact climbs_halt _ _ _
  · exact iget_load_climbs held free dev num fun l inside => Nat.lt_of_lt_of_le (below l inside) (by decide)

theorem iput_climbs (i : InodeId) (below : Below 1 held) :
    Climbs (iput i) (fun _ l => held l ∨ InodeOrBuffer i l) held := by
  have more := below_more 1 2 held (.ino i) below (by decide) Nat.one_lt_two
  unfold iput
  apply climbs_acquire held (.ino i) _ _ below
  apply climbs_state
  intro k
  dsimp only
  split
  · apply climbs_bind _ _ _ _ _ (bread_climbs _ _ _ more)
    intro b
    refine climbs_change _ _ _ _ (by exact fun _ => rfl) ?_
    apply climbs_bind _ _ _ _ _ (bwrite_climbs _ b fun l inside => Nat.lt_succ_of_lt (more l inside))
    intro _
    refine climbs_change _ _ _ _ (by exact fun _ => rfl) ?_
    refine climbs_change _ _ _ _ (by exact fun _ => rfl) ?_
    apply climbs_release_any
    apply climbs_pure
    rintro l ((inside | rfl) | rfl)
    · exact .inl inside
    · exact .inr (.inl rfl)
    · exact .inr (.inr ⟨b, rfl⟩)
  · apply climbs_pure
    rintro l (inside | rfl)
    · exact .inl inside
    · exact .inr (.inl rfl)

theorem ifree_climbs (i : InodeId) (below : Below 1 held) :
    Climbs (ifree i) (fun _ l => held l ∨ InodeOrBuffer i l) held := by
  have more := below_more 1 2 held (.ino i) below (by decide) Nat.one_lt_two
  unfold ifree
  apply climbs_acquire held (.ino i) _ _ below
  apply climbs_state
  intro k
  apply climbs_bind _ _ _ _ _ (bread_climbs _ _ _ more)
  intro b
  refine climbs_change _ _ _ _ (by exact fun _ => rfl) ?_
  apply climbs_bind _ _ _ _ _ (bwrite_climbs _ b fun l inside => Nat.lt_succ_of_lt (more l inside))
  intro _
  apply climbs_release_any
  apply climbs_pure
  rintro l ((inside | rfl) | rfl)
  · exact .inl inside
  · exact .inr (.inl rfl)
  · exact .inr (.inr ⟨b, rfl⟩)

theorem irelease_climbs (i : InodeId) : Climbs (irelease i) (fun _ => held) held := by
  unfold irelease
  apply climbs_state
  intro k
  dsimp only
  split
  · exact climbs_panic_then _ _ _ _
  · apply climbs_holdingsleep
    intro mine _
    cases mine with
    | false => exact climbs_pure _ _ _ fun _ => id
    | true =>
        refine climbs_change _ _ _ _ (by exact fun _ => rfl) ?_
        apply climbs_release_any
        exact climbs_pure _ _ _ fun _ => id

-- sys_stat asks for the inode only where it holds the cache, which it never does.
theorem ilock_climbs (i : InodeId) (apart : ¬held .icache) : Climbs (ilock i) (fun _ => held) held := by
  unfold ilock
  apply climbs_holdingsleep
  intro mine owned
  cases mine with
  | false => exact climbs_pure _ _ _ fun _ => id
  | true => exact absurd (owned rfl) apart

theorem dir_search_climbs (ip : InodeId) (entry : List UInt8) (slots : List Nat) (below : Below 0 held) :
    Climbs (dirSearch ip entry slots) (fun _ => held) held := by
  induction slots with
  | nil => exact climbs_pure _ _ _ fun _ => id
  | cons n rest ih =>
      unfold dirSearch
      apply climbs_state
      intro k
      apply climbs_bind _ _ _ _ _ (bread_climbs _ _ _ fun l inside => Nat.lt_of_lt_of_le (below l inside) (by decide))
      intro b
      apply climbs_state
      intro t
      generalize searchBlock t b entry = found
      cases found with
      | some num => exact climbs_pure _ _ _ fun _ => id
      | none =>
          apply climbs_bind _ _ _ _ _ (brelease_climbs _ b)
          intro _
          exact ih

theorem dir_lookup_climbs (ip : InodeId) (entry : List UInt8) (below : Below 0 held) :
    Climbs (dirLookup ip entry) (fun _ => held) held := by
  unfold dirLookup
  apply climbs_bind _ _ _ _ _ (dir_search_climbs held ip entry _ below)
  intro found
  cases found with
  | none => exact climbs_pure _ _ _ fun _ => id
  | some key =>
      apply climbs_bind _ _ _ _ _ (iget_climbs held key.1 key.2 below)
      intro i
      exact climbs_pure held _ (fun _ => held) fun _ => id

theorem namei_loop_climbs (i : Option InodeId) (path : List UInt8) (below : Below 0 held) :
    Climbs (nameiLoop i path) (fun _ => held) held := by
  fun_induction nameiLoop i path with
  | case1 i => exact climbs_halt _ _ _
  | case2 more ip => exact climbs_pure _ _ _ fun _ => id
  | case3 more => exact climbs_halt _ _ _
  | case4 i byte more named found => exact climbs_halt _ _ _
  | case5 byte more named entry rest found => exact climbs_halt _ _ _
  | case6 byte more named entry rest found ip ih =>
      apply climbs_bind _ _ _ _ _ (dir_lookup_climbs held ip entry below)
      intro answer
      cases answer with
      | none => exact climbs_halt _ _ _
      | some j => exact ih j

theorem namei_climbs (path : List UInt8) (below : Below 0 held) : Climbs (namei path) (fun _ => held) held := by
  unfold namei
  apply climbs_state
  intro k
  cases path with
  | nil => exact climbs_halt _ _ _
  | cons byte rest =>
      dsimp only
      split
      · exact namei_loop_climbs held _ _ below
      · exact namei_loop_climbs held _ _ below

theorem fget_climbs (i : InodeId) (flags : UInt32) (below : Below 0 held) :
    Climbs (fget i flags) (fun _ => held) held := by
  unfold fget
  apply climbs_acquire held .openFiles _ _ below
  apply climbs_state
  intro k
  generalize fgetLoop k i = found
  rcases found with f | _ | empty
  · unfold fgetFound
    apply climbs_state
    intro t
    dsimp only
    split
    · exact ⟨trivial⟩
    · refine climbs_change _ _ _ _ (by exact fun _ => rfl) ?_
      exact climbs_release_taken held _ _ _ (climbs_pure held _ _ fun _ => id)
  · exact climbs_release_taken held _ _ _ (climbs_pure held _ _ fun _ => id)
  · refine climbs_change _ _ _ _ (by exact fun _ => rfl) ?_
    refine climbs_change _ _ _ _ (by exact fun _ => rfl) ?_
    refine climbs_change _ _ _ _ (by exact fun _ => rfl) ?_
    refine climbs_change _ _ _ _ (by exact fun _ => rfl) ?_
    refine climbs_change _ _ _ _ (by exact fun _ => rfl) ?_
    apply climbs_release_any
    exact climbs_release_taken held _ _ _ (climbs_pure held _ _ fun _ => id)

theorem fdget_climbs (below : Below 0 held) :
    Climbs fdget (fun fd l => held l ∨ (fd = none ∧ l = .procTable)) held := by
  unfold fdget
  apply climbs_acquire held .procTable _ _ below
  apply climbs_state
  intro k
  generalize freeFd (k.procs k.current) = found
  cases found with
  | some fd => exact climbs_release_taken held _ _ _ (climbs_pure held _ _ fun _ => .inl)
  | none =>
      apply climbs_pure
      rintro l (inside | same)
      · exact .inl inside
      · exact .inr ⟨rfl, same⟩

end

theorem below_nothing (n : Nat) : Below n Nothing := fun _ impossible => impossible.elim

theorem open_inode_climbs (i : InodeId) (flags : UInt32) : Climbs (openInode i flags) (fun _ => Nothing) Nothing := by
  unfold openInode
  apply climbs_state
  intro k
  dsimp only
  split
  · apply climbs_bind _ _ _ _ _ (iput_climbs _ i (below_nothing 1))
    intro _
    exact climbs_panic_then _ _ _ _
  · apply climbs_bind _ _ _ _ _ (fget_climbs _ i flags (below_nothing 0))
    intro file
    cases file with
    | none =>
        apply climbs_bind _ _ _ _ _ (iput_climbs _ i (below_nothing 1))
        intro _
        exact climbs_halt _ _ _
    | some f =>
        apply climbs_bind _ _ _ _ _ (fdget_climbs _ (below_nothing 0))
        intro answer
        cases answer with
        | none =>
            apply climbs_bind _ _ _ _ _ (iput_climbs _ i _)
            · intro _
              refine climbs_change _ _ _ _ (by exact fun _ => rfl) ?_
              exact climbs_halt _ _ _
            · rintro l (impossible | ⟨-, rfl⟩)
              · exact impossible.elim
              · decide
        | some fd =>
            apply climbs_state
            intro t
            apply climbs_acquire
            · rintro l (impossible | ⟨impossible, -⟩)
              · exact impossible.elim
              · cases impossible
            refine climbs_change _ _ _ _ (by exact fun _ => rfl) ?_
            apply climbs_release_taken
            apply climbs_pure
            rintro l (impossible | ⟨impossible, -⟩)
            · exact impossible.elim
            · cases impossible

theorem sys_open_climbs (path : List UInt8) (flags : UInt32) (mode : UInt16) :
    Climbs (sysOpen path flags mode) (fun _ => Nothing) Nothing := by
  unfold sysOpen
  apply climbs_bind _ _ _ _ _ (namei_climbs _ path (below_nothing 0))
  intro i
  exact open_inode_climbs i flags

theorem close_last_climbs (f : FileId) :
    Climbs (closeLast f) (fun _ l => SomeInodeOrBuffer l ∨ l = .openFiles) (fun l => Nothing l ∨ l = .openFiles) := by
  unfold closeLast
  refine climbs_change _ _ _ _ (by exact fun _ => rfl) ?_
  apply climbs_state
  intro k
  dsimp only
  generalize (k.files f).fInode = inode
  cases inode with
  | none => exact climbs_halt _ _ _
  | some i =>
      have table := below_more 0 1 Nothing .openFiles (below_nothing 0) (by decide) (by decide)
      apply climbs_bind _ _ _ _ _ (iput_climbs _ i table)
      intro _
      refine climbs_change _ _ _ _ (by exact fun _ => rfl) ?_
      refine climbs_change _ _ _ _ (by exact fun _ => rfl) ?_
      refine climbs_change _ _ _ _ (by exact fun _ => rfl) ?_
      apply climbs_release_any _ (.file f) fun _ => pure ()
      apply climbs_pure
      rintro l ((impossible | same) | inside)
      · exact impossible.elim
      · exact .inr same
      · exact .inl ⟨i, inside⟩

theorem sys_close_climbs (fd : Int) : Climbs (sysClose fd) (fun _ => SomeInodeOrBuffer) Nothing := by
  unfold sysClose
  dsimp only
  split
  · exact climbs_panic_then _ _ _ _
  apply climbs_state
  intro k
  split
  · generalize (k.procs k.current).pFilp _ = file
    cases file with
    | none => exact climbs_halt _ _ _
    | some f =>
        apply climbs_acquire _ .openFiles _ _ (below_nothing 0)
        refine climbs_change _ _ _ _ (by exact fun _ => rfl) ?_
        apply climbs_state
        intro t
        split
        · apply climbs_bind _ _ _ _ _ (close_last_climbs f)
          intro _
          exact climbs_release_taken _ _ _ _ (climbs_pure SomeInodeOrBuffer _ _ fun _ => id)
        · exact climbs_release_taken _ _ _ _ (climbs_pure Nothing _ _ fun _ impossible => impossible.elim)
  · exact climbs_halt _ _ _

theorem stat_inode_climbs (i : InodeId) : Climbs (statInode i) (fun _ => InodeOrBuffer i) Nothing := by
  unfold statInode
  apply climbs_bind _ _ _ _ _ (ilock_climbs _ i id)
  intro _
  apply climbs_state
  intro k
  apply climbs_bind _ _ _ _ _ (iput_climbs _ i (below_nothing 1))
  intro _
  apply climbs_bind _ _ _ _ _ (irelease_climbs _ i)
  intro _
  apply climbs_pure
  rintro l (impossible | inside)
  · exact impossible.elim
  · exact inside

theorem sys_stat_climbs (path : List UInt8) : Climbs (sysStat path) (fun _ => SomeInodeOrBuffer) Nothing := by
  unfold sysStat
  apply climbs_bind _ _ _ _ _ (namei_climbs _ path (below_nothing 0))
  intro i
  have main := stat_inode_climbs i
  exact ⟨Lib.climbs_weaken _ _ _ _ _ _ _ main.steps (fun _ => id) fun _ _ inside => ⟨i, inside⟩⟩

theorem sbread_climbs (dev : Dev) : Climbs (sbread dev) (fun _ => Nothing) Nothing := by
  have table := below_more 0 2 Nothing .mtable (below_nothing 0) (by decide) (by decide)
  unfold sbread
  apply climbs_acquire _ .mtable _ _ (below_nothing 0)
  apply climbs_bind _ _ _ _ _ (bread_climbs _ _ _ table)
  intro b
  apply climbs_state
  intro k
  refine climbs_change _ _ _ _ (by exact fun _ => rfl) ?_
  apply climbs_bind _ _ _ _ _ (brelease_climbs _ b)
  intro _
  exact climbs_release_taken _ _ _ _ (climbs_pure Nothing _ _ fun _ => id)

theorem balloc_scan_climbs (getFreePosAt : Kernel → UInt8 → Option UInt64) (dev : Dev) (b : BufId) (left : Nat) :
    Climbs (ballocScan getFreePosAt dev b left) (fun _ => Nothing) Nothing := by
  induction left with
  | zero => exact climbs_pure _ _ _ fun _ => id
  | succ left ih =>
      unfold ballocScan
      apply climbs_state
      intro k
      generalize getFreePosAt k _ = answer
      cases answer with
      | none => exact climbs_halt _ _ _
      | some blk =>
          dsimp only
          split
          · exact bget_climbs _ dev blk (below_nothing 2)
          · exact ih

theorem balloc_climbs (getFreePosAt : Kernel → UInt8 → Option UInt64) (unset : Option BufId) (turns : Nat) (dev : Dev) :
    Climbs (balloc getFreePosAt unset turns dev) (fun _ => Nothing) Nothing := by
  unfold balloc
  induction turns generalizing unset with
  | zero => exact climbs_halt _ _ _
  | succ turns ih =>
      unfold ballocLoop
      apply climbs_state
      intro k
      split
      · apply climbs_bind _ _ _ _ _ (bread_climbs _ _ _ (below_nothing 2))
        intro b
        apply climbs_bind _ _ _ _ _ (balloc_scan_climbs getFreePosAt dev b blkSz)
        intro c
        exact ih (some c)
      · exact climbs_pure _ _ _ fun _ => id

theorem balloc_buffer_climbs (getFreePosAt : Kernel → UInt8 → Option UInt64) (unset : Option BufId) (turns : Nat)
    (dev : Dev) : Climbs (ballocBuffer getFreePosAt unset turns dev) (fun _ => Nothing) Nothing := by
  unfold ballocBuffer
  apply climbs_bind _ _ _ _ _ (balloc_climbs getFreePosAt unset turns dev)
  intro answer
  cases answer with
  | none => exact climbs_halt _ _ _
  | some b => exact climbs_pure _ _ _ fun _ => id

theorem ialloc_loop_climbs (getFreePos : Block → UInt64) (unset : Option InodeId) (dev : Dev) (left c : Nat) :
    Climbs (iallocLoop getFreePos unset dev left c) (fun _ => Nothing) Nothing := by
  induction left generalizing c with
  | zero => exact climbs_halt _ _ _
  | succ left ih =>
      unfold iallocLoop
      apply climbs_state
      intro k
      split
      · apply climbs_bind _ _ _ _ _ (bread_climbs _ _ _ (below_nothing 2))
        intro b
        apply climbs_state
        intro t
        dsimp only
        split
        · apply climbs_bind _ _ _ _ _ (iget_climbs _ dev _ (below_nothing 0))
          intro i
          exact climbs_pure Nothing _ (fun _ => Nothing) fun _ => id
        · exact ih (c + 1)
      · exact climbs_pure _ _ _ fun _ => id

theorem open_file_climbs (unset : Unset) (fd : Int) (usr grp oth : UInt16) (bad denied : String) :
    Climbs (openFile unset fd usr grp oth bad denied) (fun _ => Nothing) Nothing := by
  unfold openFile
  dsimp only
  split
  · exact climbs_panic_then _ _ _ _
  · apply climbs_state
    intro k
    apply climbs_acquire _ (.proc k.current) _ _ (below_nothing 0)
    generalize (k.procs k.current).filp fd = slot
    rcases slot with _ | _ | f
    · exact climbs_halt _ _ _
    · exact climbs_halt _ _ _
    · cases unset.inode with
      | none => exact climbs_halt _ _ _
      | some x =>
          dsimp only
          split
          · exact climbs_panic_then _ _ _ _
          · exact climbs_release_taken _ _ _ _ (climbs_pure Nothing _ _ fun _ => id)

theorem file_block_climbs (f : FileId) : Climbs (fileBlock f) (fun _ => Nothing) Nothing := by
  unfold fileBlock
  apply climbs_state
  intro k
  generalize fileKey k f = key
  cases key with
  | none => exact climbs_halt _ _ _
  | some key => exact bread_climbs _ key.1 key.2 (below_nothing 2)

theorem read_loop_climbs (f : FileId) (n : Nat) (b : BufId) (i : Fin blkSz) :
    Climbs (readLoop f n b i) (fun _ => Nothing) Nothing := by
  induction n generalizing b i with
  | zero => exact climbs_pure _ _ _ fun _ => id
  | succ n ih =>
      unfold readLoop
      apply climbs_state
      intro k
      refine climbs_change _ _ _ _ (by exact fun _ => rfl) ?_
      split
      · apply climbs_bind _ _ _ _ _ (ih _ _)
        intro rest
        exact climbs_pure Nothing _ (fun _ => Nothing) fun _ => id
      · apply climbs_bind _ _ _ _ _ (brelease_climbs _ b)
        intro _
        apply climbs_bind _ _ _ _ _ (file_block_climbs f)
        intro c
        apply climbs_state
        intro t
        apply climbs_bind _ _ _ _ _ (ih _ _)
        intro rest
        exact climbs_pure Nothing _ (fun _ => Nothing) fun _ => id

theorem sys_read_climbs (unset : Unset) (fd : Int) (buffsize : UInt64) :
    Climbs (sysRead unset fd buffsize) (fun _ => Nothing) Nothing := by
  unfold sysRead
  cases unset.clamp with
  | none => exact climbs_halt _ _ _
  | some pair =>
      apply climbs_bind _ _ _ _ _ (open_file_climbs unset fd _ _ _ _ _)
      intro f
      apply climbs_state
      intro k
      generalize (if fread = 0 then (1 : UInt8) else 0) = mask
      dsimp only
      split
      · exact climbs_panic_then _ _ _ _
      · apply climbs_bind _ _ _ _ _ (file_block_climbs f)
        intro b
        apply climbs_state
        intro t
        apply climbs_bind _ _ _ _ _ (read_loop_climbs f _ b _)
        intro data
        exact climbs_pure Nothing _ (fun _ => Nothing) fun _ => id

section
variable (balloc : Dev → Steps BufId)

theorem new_block_climbs (climbs : ∀ dev, Climbs (balloc dev) (fun _ => Nothing) Nothing) (f : FileId) :
    Climbs (newBlock balloc f) (fun _ => Nothing) Nothing := by
  unfold newBlock
  apply climbs_state
  intro k
  generalize (k.files f).fInode = inode
  cases inode with
  | none => exact climbs_halt _ _ _
  | some ip =>
      apply climbs_bind _ _ _ _ _ (climbs _)
      intro b
      apply climbs_tell
      exact climbs_pure Nothing b (fun _ => Nothing) fun _ => id

theorem write_loop_climbs (climbs : ∀ dev, Climbs (balloc dev) (fun _ => Nothing) Nothing) (f : FileId)
    (data : Bytes) (b : BufId) (i : Fin blkSz) :
    Climbs (writeLoop balloc f data b i) (fun _ => Nothing) Nothing := by
  induction data generalizing b i with
  | nil => exact climbs_pure _ _ _ fun _ => id
  | cons byte rest ih =>
      unfold writeLoop
      refine climbs_change _ _ _ _ (by exact fun _ => rfl) ?_
      refine climbs_change _ _ _ _ (by exact fun _ => rfl) ?_
      split
      · exact ih _ _
      · refine climbs_change _ _ _ _ (by exact fun _ => rfl) ?_
        apply climbs_bind _ _ _ _ _ (brelease_climbs _ b)
        intro _
        apply climbs_bind _ _ _ _ _ (new_block_climbs balloc climbs f)
        intro c
        apply climbs_state
        intro t
        apply climbs_bind _ _ _ _ _ (ih _ _)
        intro later
        exact climbs_pure Nothing _ (fun _ => Nothing) fun _ => id

theorem sys_write_climbs (climbs : ∀ dev, Climbs (balloc dev) (fun _ => Nothing) Nothing) (unset : Unset)
    (fd : Int) (buf : Bytes) :
    Climbs (sysWrite balloc unset fd buf) (fun _ => Nothing) Nothing := by
  unfold sysWrite
  apply climbs_bind _ _ _ _ _ (open_file_climbs unset fd _ _ _ _ _)
  intro f
  apply climbs_state
  intro k
  generalize (if fwrt = 0 then (1 : UInt8) else 0) = mask
  dsimp only
  split
  · exact climbs_panic_then _ _ _ _
  · apply climbs_bind _ _ _ _ _ (file_block_climbs f)
    intro b
    apply climbs_state
    intro t
    apply climbs_bind _ _ _ _ _ (write_loop_climbs balloc climbs f buf b _)
    intro fresh
    exact climbs_pure Nothing _ (fun _ => Nothing) fun _ => id

end

end Steps

inductive Operation where
  | sbread (dev : Dev)
  | bread (dev : Dev) (blk : Blk)
  | bwrite (b : BufId)
  | brelease (b : BufId)
  | balloc (getFreePosAt : Kernel → UInt8 → Option UInt64) (unset : Option BufId) (turns : Nat) (dev : Dev)
  | iget (dev : Dev) (num : Ino)
  | iput (i : InodeId)
  | ialloc (getFreePos : Block → UInt64) (unset : Option InodeId) (dev : Dev)
  | ifree (i : InodeId)
  | namei (path : List UInt8)
  | sysOpen (path : List UInt8) (flags : UInt32) (mode : UInt16)
  | sysClose (fd : Int)
  | sysRead (unset : Unset) (fd : Int) (buffsize : UInt64)
  | sysWrite (getFreePosAt : Kernel → UInt8 → Option UInt64) (block : Option BufId) (turns : Nat) (unset : Unset)
      (fd : Int) (buf : Bytes)
  | sysStat (path : List UInt8)

def Operation.run : Operation → Kern Unit
  | .sbread dev => discard (Yaup.sbread dev)
  | .bread dev blk => discard (Yaup.bread dev blk)
  | .bwrite b => discard (Yaup.bwrite b)
  | .brelease b => discard (Yaup.brelease b)
  | .balloc getFreePosAt unset turns dev => discard (Yaup.balloc getFreePosAt unset turns dev)
  | .iget dev num => discard (Yaup.iget dev num)
  | .iput i => discard (Yaup.iput i)
  | .ialloc getFreePos unset dev => discard (Yaup.ialloc getFreePos unset dev)
  | .ifree i => discard (Yaup.ifree i)
  | .namei path => discard (Yaup.namei path)
  | .sysOpen path flags mode => discard (Yaup.sysOpen path flags mode)
  | .sysClose fd => discard (Yaup.sysClose fd)
  | .sysRead unset fd buffsize => discard (Yaup.sysRead unset fd buffsize)
  | .sysWrite getFreePosAt block turns unset fd buf =>
      discard (Yaup.sysWrite (Yaup.ballocBuffer getFreePosAt block turns) unset fd buf)
  | .sysStat path => discard (Yaup.sysStat path)

def Operation.steps : Operation → Steps Unit
  | .sbread dev => (Steps.sbread dev).only
  | .bread dev blk => (Steps.bread dev blk).only
  | .bwrite b => (Steps.bwrite b).only
  | .brelease b => (Steps.brelease b).only
  | .balloc getFreePosAt unset turns dev => (Steps.balloc getFreePosAt unset turns dev).only
  | .iget dev num => (Steps.iget dev num).only
  | .iput i => (Steps.iput i).only
  | .ialloc getFreePos unset dev => (Steps.ialloc getFreePos unset dev).only
  | .ifree i => (Steps.ifree i).only
  | .namei path => (Steps.namei path).only
  | .sysOpen path flags mode => (Steps.sysOpen path flags mode).only
  | .sysClose fd => (Steps.sysClose fd).only
  | .sysRead unset fd buffsize => (Steps.sysRead unset fd buffsize).only
  | .sysWrite getFreePosAt block turns unset fd buf =>
      (Steps.sysWrite (Steps.ballocBuffer getFreePosAt block turns) unset fd buf).only
  | .sysStat path => (Steps.sysStat path).only

theorem operation_alone (op : Operation) : op.steps.alone = op.run := by
  cases op with
  | sbread dev => exact Steps.alone_only _ _ (Steps.alone_sbread dev)
  | bread dev blk => exact Steps.alone_only _ _ (Steps.alone_bread dev blk)
  | bwrite b => exact Steps.alone_only _ _ (Steps.alone_bwrite b)
  | brelease b => exact Steps.alone_only _ _ (Steps.alone_brelease b)
  | balloc getFreePosAt unset turns dev => exact Steps.alone_only _ _ (Steps.alone_balloc getFreePosAt unset turns dev)
  | iget dev num => exact Steps.alone_only _ _ (Steps.alone_iget dev num)
  | iput i => exact Steps.alone_only _ _ (Steps.alone_iput i)
  | ialloc getFreePos unset dev => exact Steps.alone_only _ _ (Steps.alone_ialloc getFreePos unset dev)
  | ifree i => exact Steps.alone_only _ _ (Steps.alone_ifree i)
  | namei path => exact Steps.alone_only _ _ (Steps.alone_namei path)
  | sysOpen path flags mode => exact Steps.alone_only _ _ (Steps.alone_sys_open path flags mode)
  | sysClose fd => exact Steps.alone_only _ _ (Steps.alone_sys_close fd)
  | sysRead unset fd buffsize => exact Steps.alone_only _ _ (Steps.alone_sys_read unset fd buffsize)
  | sysWrite getFreePosAt block turns unset fd buf =>
      have main := Steps.alone_sys_write (Steps.ballocBuffer getFreePosAt block turns) unset fd buf
      simp only [Steps.alone_balloc_buffer] at main
      exact Steps.alone_only _ _ main
  | sysStat path => exact Steps.alone_only _ _ (Steps.alone_sys_stat path)

theorem only_climbs {α : Type} (x : Steps α) (after : α → Lock → Prop) (main : Climbs x after Nothing) :
    Prog.Climbs kernelLocks Lock.rank (fun _ _ => True) x.only fun _ => False := by
  have all := Steps.climbs_bind Nothing x (fun _ => pure ()) after (fun _ _ => True) main fun a =>
    Steps.climbs_pure (after a) () _ fun _ _ => trivial
  exact all.steps

theorem operation_climbs (op : Operation) :
    Prog.Climbs kernelLocks Lock.rank (fun _ _ => True) op.steps fun _ => False := by
  cases op with
  | sbread dev => exact only_climbs _ _ (Steps.sbread_climbs dev)
  | bread dev blk => exact only_climbs _ _ (Steps.bread_climbs Nothing dev blk (Steps.below_nothing 2))
  | bwrite b => exact only_climbs _ _ (Steps.bwrite_climbs Nothing b (Steps.below_nothing 3))
  | brelease b => exact only_climbs _ _ (Steps.brelease_climbs Nothing b)
  | balloc getFreePosAt unset turns dev => exact only_climbs _ _ (Steps.balloc_climbs getFreePosAt unset turns dev)
  | iget dev num => exact only_climbs _ _ (Steps.iget_climbs Nothing dev num (Steps.below_nothing 0))
  | iput i => exact only_climbs _ _ (Steps.iput_climbs Nothing i (Steps.below_nothing 1))
  | ialloc getFreePos unset dev => exact only_climbs _ _ (Steps.ialloc_loop_climbs getFreePos unset dev _ 0)
  | ifree i => exact only_climbs _ _ (Steps.ifree_climbs Nothing i (Steps.below_nothing 1))
  | namei path => exact only_climbs _ _ (Steps.namei_climbs Nothing path (Steps.below_nothing 0))
  | sysOpen path flags mode => exact only_climbs _ _ (Steps.sys_open_climbs path flags mode)
  | sysClose fd => exact only_climbs _ _ (Steps.sys_close_climbs fd)
  | sysRead unset fd buffsize => exact only_climbs _ _ (Steps.sys_read_climbs unset fd buffsize)
  | sysWrite getFreePosAt block turns unset fd buf =>
      exact only_climbs _ _ (Steps.sys_write_climbs _ (Steps.balloc_buffer_climbs getFreePosAt block turns) unset fd buf)
  | sysStat path => exact only_climbs _ _ (Steps.sys_stat_climbs path)

def Operates (x : Steps Unit) : Prop := ∃ op : Operation, x = op.steps

abbrev Processes := Pool Kernel Lock Halt Note Pid

theorem acquires_climb (first last : Processes) (moves : List (Move Processes Pid))
    (run : Run (PoolStep kernelLocks kernelLocks.HoldsNone Operates) first moves last) (idle : ∀ p, first.running p = none) :
    Throughout (fun pool => Climbing kernelLocks Lock.rank pool ∧
      ∀ p, ¬Relation.TransGen (Waits kernelLocks pool) p p) moves last := by
  apply climbing_throughout kernelLocks Lock.rank Operates _ first last moves run idle
  rintro x ⟨op, rfl⟩
  exact operation_climbs op

theorem acquires_climb_waiting :
    ∃ (first last : Processes) (moves : List (Move Processes Pid)), moves.length = 3 ∧
      (∀ p, first.running p = none) ∧ Run (PoolStep kernelLocks kernelLocks.HoldsNone Operates) first moves last ∧
      Waits kernelLocks last 1 0 ∧ Throughout (fun pool => Climbing kernelLocks Lock.rank pool ∧
        ∀ p, ¬Relation.TransGen (Waits kernelLocks pool) p p) moves last := by
  let first : Processes := ⟨Kernel.zero, fun _ => none⟩
  obtain ⟨rest, starts⟩ : ∃ rest, (Operation.iput 0).steps = .take (.ino 0) rest := ⟨_, rfl⟩
  let second : Processes := first.goes 0 Kernel.zero (some (.take (.ino 0) rest))
  let third : Processes := second.goes 0 ((Kernel.zero.runAs 0).lock (.ino 0)) (some rest)
  let last : Processes := third.goes 1 third.state (some (.take (.ino 0) rest))
  have run : Run (PoolStep kernelLocks kernelLocks.HoldsNone Operates) first [⟨first, 0, second⟩, ⟨second, 0, third⟩, ⟨third, 1, last⟩] last := by
    refine .cons _ _ _ _ _ ?_ (.cons _ _ _ _ _ ?_ (.cons _ _ _ _ _ ?_ (.nil _)))
    · exact .begins first 0 _ rfl (fun l mine => by cases mine) ⟨_, starts.symm⟩
    · exact .takes second 0 (.ino 0) rest (by simp [second]) rfl
    · refine .begins third 1 _ rfl (fun l mine => ?_) ⟨_, starts.symm⟩
      by_cases same : l = .ino 0
      · subst same
        rw [show kernelLocks.owner third.state (.ino 0) = some 0 from by simp [third, Pool.goes, kernelLocks]] at mine
        revert mine
        decide
      · simp [third, Pool.goes, kernelLocks, same, Kernel.zero, freeLocks] at mine
  have waits : Waits kernelLocks last 1 0 :=
    ⟨.ino 0, rest, by simp [last], by simp [last, third, Pool.goes, kernelLocks]⟩
  exact ⟨first, last, _, rfl, fun _ => rfl, run, waits, acquires_climb first last _ run fun _ => rfl⟩

end Yaup
