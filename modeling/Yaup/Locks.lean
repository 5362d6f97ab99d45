import Yaup.OpenClose

set_option autoImplicit false

namespace Yaup

open Lib

-- Since `k` the locks went to process q alone, and those it holds now and did not hold
-- then are among the extra ones.
def Held (k : Kernel) (q : Pid) (extra : Lock → Prop) (s : Kernel) : Prop :=
  s.current = q ∧ ∀ l r, s.locks l = some r → k.locks l = some r ∨ (r = q ∧ extra l)

def WaitsForOther (k : Kernel) (q : Pid) (e : Halt) (t : Kernel) : Prop :=
  ∀ l, e = .blocked l → t.locks l = some q → k.locks l = some q

section
variable (k : Kernel) (q : Pid) (extra : Lock → Prop)

theorem held_same (s t : Kernel) (held : Held k q extra s) (current : t.current = s.current)
    (locks : t.locks = s.locks) : Held k q extra t :=
  ⟨current.trans held.1, fun l r => by rw [locks]; exact held.2 l r⟩

theorem held_weaken (more : Lock → Prop) (s : Kernel) (held : Held k q extra s)
    (wider : ∀ l, extra l → more l) : Held k q more s := by
  refine ⟨held.1, ?_⟩
  intro l r owner
  rcases held.2 l r owner with before | ⟨same, inside⟩
  · exact .inl before
  · exact .inr ⟨same, wider l inside⟩

theorem held_lock (s : Kernel) (l : Lock) (held : Held k q extra s) :
    Held k q (fun m => extra m ∨ m = l) (s.lock l) := by
  refine ⟨held.1, ?_⟩
  intro m r owner
  by_cases same : m = l
  · subst same
    rw [Kernel.lock_locks, Function.update_self, Option.some_inj] at owner
    exact .inr ⟨owner.symm.trans held.1, .inr rfl⟩
  · rw [Kernel.lock_locks, Function.update_of_ne same] at owner
    rcases held.2 m r owner with before | ⟨mine, inside⟩
    · exact .inl before
    · exact .inr ⟨mine, .inl inside⟩

theorem held_unlock (s : Kernel) (l : Lock) (held : Held k q extra s) :
    Held k q (fun m => extra m ∧ m ≠ l) (s.unlock l) := by
  refine ⟨held.1, ?_⟩
  intro m r owner
  by_cases same : m = l
  · subst same
    rw [Kernel.unlock_locks, Function.update_self] at owner
    cases owner
  · rw [Kernel.unlock_locks, Function.update_of_ne same] at owner
    rcases held.2 m r owner with before | ⟨mine, inside⟩
    · exact .inl before
    · exact .inr ⟨mine, inside, same⟩

theorem acquire_triple (l : Lock) (fresh : ¬extra l) :
    Triple (Held k q extra) (acquire l) (fun _ => Held k q (fun m => extra m ∨ m = l)) (WaitsForOther k q) := by
  intro s held
  by_cases free : s.locks l = none
  · rw [acquire_free s l free]
    refine ⟨?_, ?_⟩
    · intro _ t done
      cases done
      exact held_lock k q extra s l held
    · intro e t halted
      cases halted
  · rw [acquire_blocked s l free]
    refine ⟨?_, ?_⟩
    · intro _ t done
      cases done
    · intro e t halted m blocked owner
      cases halted
      cases blocked
      rcases held.2 l q owner with before | ⟨-, inside⟩
      · exact before
      · exact absurd inside fresh

theorem release_triple (l : Lock) :
    Triple (Held k q extra) (release l) (fun _ => Held k q (fun m => extra m ∧ m ≠ l)) (WaitsForOther k q) :=
  triple_modify _ _ _ _ fun s held => held_unlock k q extra s l held

theorem release_taken_triple (l : Lock) :
    Triple (Held k q (fun m => extra m ∨ m = l)) (release l) (fun _ => Held k q extra) (WaitsForOther k q) := by
  apply triple_weaken _ _ _ _ _ _ (release_triple k q _ l) (fun _ held => held)
  intro _ t held
  apply held_weaken k q _ _ t held
  rintro m ⟨inside | same, other⟩
  · exact inside
  · exact absurd same other

theorem initlock_triple (l : Lock) :
    Triple (Held k q extra) (initlock l) (fun _ => Held k q extra) (WaitsForOther k q) := by
  apply triple_modify
  intro s held
  exact held_weaken k q _ _ _ (held_unlock k q extra s l held) fun _ inside => inside.1

theorem panic_triple {α : Type} (msg : String) (post : α → Kernel → Prop) :
    Triple (Held k q extra) (panic msg : Kern α) post (WaitsForOther k q) :=
  triple_throw _ _ _ _ fun _ _ _ blocked => nomatch blocked

theorem fault_triple {α : Type} (post : α → Kernel → Prop) :
    Triple (Held k q extra) (fault : Kern α) post (WaitsForOther k q) :=
  triple_throw _ _ _ _ fun _ _ _ blocked => nomatch blocked

theorem table_then {α : Type} (f : Kernel → Kernel) (rest : Unit → Kern α) (post : α → Kernel → Prop)
    (kept : ∀ s, (f s).current = s.current ∧ (f s).locks = s.locks)
    (next : Triple (Held k q extra) (rest ()) post (WaitsForOther k q)) :
    Triple (Held k q extra) (modify f >>= rest) post (WaitsForOther k q) := by
  apply triple_bind _ _ _ (fun _ => Held k q extra)
  · apply triple_modify
    intro s held
    exact held_same k q extra s (f s) held (kept s).1 (kept s).2
  · intro _
    exact next

theorem bget_triple (dev : Dev) (blk : Blk) (fresh : ¬extra .buffer) :
    Triple (Held k q extra) (bget dev blk) (fun _ => Held k q extra) (WaitsForOther k q) := by
  intro s held
  refine ⟨?_, ?_⟩
  · intro b t done
    obtain ⟨-, ⟨-, rfl⟩ | ⟨-, -, rfl⟩⟩ := bget_cases s t dev blk b done
    · exact held
    · have rekeyed := held_same k q extra s (s.setBlock b ((s.blocks b).rekey dev blk)) held rfl rfl
      exact held_weaken k q _ _ _ (held_unlock k q extra _ (.buf b) rekeyed) fun _ inside => inside.1
  · intro e t halted
    rcases bget_halts s t dev blk e halted with ⟨rfl, rfl⟩ | ⟨msg, rfl⟩
    · intro l blocked owner
      cases blocked
      rcases held.2 _ q owner with before | ⟨-, inside⟩
      · exact before
      · exact absurd inside fresh
    · intro l blocked
      cases blocked

theorem bread_body_triple (b : BufId) :
    Triple (Held k q extra) (breadBody b) (fun _ => Held k q extra) (WaitsForOther k q) := by
  apply triple_returns
  intro s held
  refine ⟨b, _, bread_body_run s b, ?_⟩
  apply held_same k q extra s _ held
  · split <;> rfl
  · split <;> rfl

theorem bread_triple (dev : Dev) (blk : Blk) (fresh : ¬extra .buffer) :
    Triple (Held k q extra) (bread dev blk) (fun _ => Held k q extra) (WaitsForOther k q) :=
  triple_bind _ _ _ _ _ _ (bget_triple k q extra dev blk fresh) fun b => bread_body_triple k q extra b

theorem brelease_triple (b : BufId) :
    Triple (Held k q extra) (brelease b) (fun _ => Held k q extra) (WaitsForOther k q) := by
  intro s held
  rw [brelease_run]
  by_cases zero : (s.blocks b).bCount = 0
  · rw [if_pos zero]
    refine ⟨?_, ?_⟩
    · intro _ t done
      cases done
    · intro e t halted l blocked
      cases halted
      cases blocked
  · rw [if_neg zero]
    refine ⟨?_, ?_⟩
    · intro _ t done
      cases done
      split
      · have dropped := held_same k q extra s (s.setBlock b (s.blocks b).drop) held rfl rfl
        exact held_weaken k q _ _ _ (held_unlock k q extra _ (.buf b) dropped) fun _ inside => inside.1
      · exact held
    · intro e t halted
      cases halted

theorem bwrite_triple (b : BufId) (fresh : ¬extra (.buf b)) :
    Triple (Held k q extra) (bwrite b) (fun _ => Held k q (fun m => extra m ∨ m = .buf b)) (WaitsForOther k q) := by
  intro s held
  rw [bwrite_run]
  by_cases free : s.locks (.buf b) = none
  · rw [if_pos free]
    refine ⟨?_, ?_⟩
    · intro _ t done
      cases done
      split
      · exact held_same k q _ (s.lock (.buf b)) _ (held_lock k q extra s (.buf b) held) rfl rfl
      · exact held_weaken k q extra _ s held fun _ inside => .inl inside
    · intro e t halted
      cases halted
  · rw [if_neg free]
    refine ⟨?_, ?_⟩
    · intro _ t done
      cases done
    · intro e t halted l blocked owner
      cases halted
      cases blocked
      rcases held.2 _ q owner with before | ⟨-, inside⟩
      · exact before
      · exact absurd inside fresh

theorem iget_load_triple (free : InodeId) (dev : Dev) (num : Ino) (fresh : ¬extra .buffer) :
    Triple (Held k q (fun m => extra m ∨ m = .icache)) (igetLoad free dev num) (fun _ => Held k q extra)
      (WaitsForOther k q) := by
  apply triple_get
  intro s _
  apply triple_bind _ _ _ _ _ _ (bread_triple k q _ dev (tableBlk s dev num) (by simpa using fresh))
  intro b
  refine table_then k q _ _ _ _ (by exact fun _ => ⟨rfl, rfl⟩) ?_
  refine table_then k q _ _ _ _ (by exact fun _ => ⟨rfl, rfl⟩) ?_
  apply triple_bind _ _ _ _ _ _ (initlock_triple k q _ (.ino free))
  intro _
  apply triple_bind _ _ _ _ _ _ (brelease_triple k q _ b)
  intro _
  apply triple_bind _ _ _ _ _ _ (release_taken_triple k q extra .icache)
  intro _
  exact triple_pure _ _ _ _ fun _ held => held

theorem iget_triple (dev : Dev) (num : Ino) (cache : ¬extra .icache) (fresh : ¬extra .buffer) :
    Triple (Held k q extra) (iget dev num) (fun _ => Held k q extra) (WaitsForOther k q) := by
  apply triple_bind _ _ _ _ _ _ (acquire_triple k q extra .icache cache)
  intro _
  apply triple_get
  intro s _
  cases igetLoop s dev num with
  | inl i =>
      apply triple_bind _ _ _ _ _ _ (release_taken_triple k q extra .icache)
      intro _
      exact triple_pure _ _ _ _ fun _ held => held
  | inr free =>
      cases free with
      | none => exact panic_triple k q _ _ _
      | some i => exact iget_load_triple k q extra i dev num fresh

def InodeOrBuffer (i : InodeId) (l : Lock) : Prop := l = .ino i ∨ ∃ b, l = .buf b

theorem iput_triple (i : InodeId) (inode : ¬extra (.ino i)) (table : ¬extra .buffer)
    (buffers : ∀ b, ¬extra (.buf b)) :
    Triple (Held k q extra) (iput i) (fun _ => Held k q (fun l => extra l ∨ InodeOrBuffer i l)) (WaitsForOther k q) := by
  apply triple_bind _ _ _ _ _ _ (acquire_triple k q extra (.ino i) inode)
  intro _
  apply triple_get
  intro s _
  dsimp only
  split
  · apply triple_bind _ _ _ _ _ _ (bread_triple k q _ _ _ (by simpa using table))
    intro b
    refine table_then k q _ _ _ _ (by exact fun _ => ⟨rfl, rfl⟩) ?_
    apply triple_bind _ _ _ _ _ _ (bwrite_triple k q _ b (by simpa using buffers b))
    intro _
    refine table_then k q _ _ _ _ (by exact fun _ => ⟨rfl, rfl⟩) ?_
    apply triple_bind _ _ _ _ _ _ (release_triple k q _ (.ino i))
    intro _
    apply triple_pure
    intro t held
    apply held_weaken k q _ _ t held
    rintro l ⟨(inside | rfl) | rfl, other⟩
    · exact .inl inside
    · exact absurd rfl other
    · exact .inr (.inr ⟨b, rfl⟩)
  · apply triple_pure
    intro t held
    apply held_weaken k q _ _ t held
    rintro l (inside | rfl)
    · exact .inl inside
    · exact .inr (.inl rfl)

theorem ifree_triple (i : InodeId) (inode : ¬extra (.ino i)) (table : ¬extra .buffer)
    (buffers : ∀ b, ¬extra (.buf b)) :
    Triple (Held k q extra) (ifree i) (fun _ => Held k q (fun l => extra l ∨ InodeOrBuffer i l)) (WaitsForOther k q) := by
  apply triple_bind _ _ _ _ _ _ (acquire_triple k q extra (.ino i) inode)
  intro _
  apply triple_get
  intro s _
  apply triple_bind _ _ _ _ _ _ (bread_triple k q _ _ _ (by simpa using table))
  intro b
  refine table_then k q _ _ _ _ (by exact fun _ => ⟨rfl, rfl⟩) ?_
  apply triple_bind _ _ _ _ _ _ (bwrite_triple k q _ b (by simpa using buffers b))
  intro _
  apply triple_bind _ _ _ _ _ _ (release_triple k q _ (.ino i))
  intro _
  apply triple_pure
  intro t held
  apply held_weaken k q _ _ t held
  rintro l ⟨(inside | rfl) | rfl, other⟩
  · exact .inl inside
  · exact absurd rfl other
  · exact .inr (.inr ⟨b, rfl⟩)

theorem fget_triple (i : InodeId) (flags : UInt32) (table : ¬extra .openFiles) :
    Triple (Held k q extra) (fget i flags) (fun _ => Held k q extra) (WaitsForOther k q) := by
  apply triple_bind _ _ _ _ _ _ (acquire_triple k q extra .openFiles table)
  intro _
  apply triple_get
  intro s _
  cases fgetLoop s i with
  | inl f =>
      apply triple_get
      intro u _
      dsimp only
      split
      · apply triple_bind _ _ _ _ _ _ (fault_triple k q _ fun _ => Held k q _)
        intro _
        refine table_then k q _ _ _ _ (by exact fun _ => ⟨rfl, rfl⟩) ?_
        apply triple_bind _ _ _ _ _ _ (release_taken_triple k q extra .openFiles)
        intro _
        exact triple_pure _ _ _ _ fun _ held => held
      · refine table_then k q _ _ _ _ (by exact fun _ => ⟨rfl, rfl⟩) ?_
        apply triple_bind _ _ _ _ _ _ (release_taken_triple k q extra .openFiles)
        intro _
        exact triple_pure _ _ _ _ fun _ held => held
  | inr free =>
      cases free with
      | none =>
          apply triple_bind _ _ _ _ _ _ (release_taken_triple k q extra .openFiles)
          intro _
          exact triple_pure _ _ _ _ fun _ held => held
      | some empty =>
          refine table_then k q _ _ _ _ (by exact fun _ => ⟨rfl, rfl⟩) ?_
          apply triple_bind _ _ _ _ _ _ (initlock_triple k q _ (.file empty))
          intro _
          apply triple_bind _ _ _ _ _ _ (release_taken_triple k q extra .openFiles)
          intro _
          exact triple_pure _ _ _ _ fun _ held => held

theorem fdget_triple (table : ¬extra .procTable) :
    Triple (Held k q extra) fdget
      (fun fd => Held k q (fun l => extra l ∨ (fd = none ∧ l = .procTable))) (WaitsForOther k q) := by
  apply triple_bind _ _ _ _ _ _ (acquire_triple k q extra .procTable table)
  intro _
  apply triple_get
  intro s _
  cases freeFd (s.procs s.current) with
  | some fd =>
      apply triple_bind _ _ _ _ _ _ (release_taken_triple k q extra .procTable)
      intro _
      apply triple_pure
      intro t held
      exact held_weaken k q _ _ t held fun _ inside => .inl inside
  | none =>
      apply triple_pure
      intro t held
      simpa using held

theorem dir_search_triple (ip : InodeId) (entry : List UInt8) (slots : List Nat) (table : ¬extra .buffer) :
    Triple (Held k q extra) (dirSearch ip entry slots) (fun _ => Held k q extra) (WaitsForOther k q) := by
  induction slots with
  | nil => exact triple_pure _ _ _ _ fun _ held => held
  | cons n rest ih =>
      apply triple_get
      intro s _
      apply triple_bind _ _ _ _ _ _ (bread_triple k q extra _ _ table)
      intro b
      apply triple_get
      intro u _
      cases searchBlock u b entry with
      | some num => exact triple_pure _ _ _ _ fun _ held => held
      | none =>
          apply triple_bind _ _ _ _ _ _ (brelease_triple k q extra b)
          intro _
          exact ih

theorem dir_lookup_triple (ip : InodeId) (entry : List UInt8) (cache : ¬extra .icache) (table : ¬extra .buffer) :
    Triple (Held k q extra) (dirLookup ip entry) (fun _ => Held k q extra) (WaitsForOther k q) := by
  apply triple_bind _ _ _ _ _ _ (dir_search_triple k q extra ip entry _ table)
  intro found
  cases found with
  | none => exact triple_pure _ _ _ _ fun _ held => held
  | some key =>
      apply triple_bind _ _ _ _ _ _ (iget_triple k q extra key.1 key.2 cache table)
      intro i
      exact triple_pure _ _ _ _ fun _ held => held

theorem namei_loop_triple (i : Option InodeId) (path : List UInt8) (cache : ¬extra .icache)
    (table : ¬extra .buffer) :
    Triple (Held k q extra) (nameiLoop i path) (fun _ => Held k q extra) (WaitsForOther k q) := by
  fun_induction nameiLoop i path with
  | case1 i => exact fault_triple k q extra _
  | case2 more ip => exact triple_pure _ _ _ _ fun _ held => held
  | case3 more => exact panic_triple k q extra _ _
  | case4 i byte more named found => exact fault_triple k q extra _
  | case5 byte more named entry rest found => exact fault_triple k q extra _
  | case6 byte more named entry rest found ip ih =>
      apply triple_bind _ _ _ _ _ _ (dir_lookup_triple k q extra ip entry cache table)
      intro answer
      cases answer with
      | none => exact panic_triple k q extra _ _
      | some j => exact ih j

theorem namei_triple (path : List UInt8) (cache : ¬extra .icache) (table : ¬extra .buffer) :
    Triple (Held k q extra) (namei path) (fun _ => Held k q extra) (WaitsForOther k q) := by
  apply triple_get
  intro s _
  cases path with
  | nil => exact fault_triple k q extra _
  | cons byte rest =>
      dsimp only
      split
      · exact namei_loop_triple k q extra _ _ cache table
      · exact namei_loop_triple k q extra _ _ cache table

end

def Nothing (_ : Lock) : Prop := False

section
variable (k : Kernel) (q : Pid)

theorem panic_then {α β : Type} (extra : Lock → Prop) (msg : String) (rest : α → Kern β) (post : β → Kernel → Prop) :
    Triple (Held k q extra) (panic msg >>= rest) post (WaitsForOther k q) :=
  triple_bind _ _ _ _ _ _ (panic_triple k q extra msg fun _ _ => False) fun a => triple_absurd (rest a) post _

theorem open_inode_triple (i : InodeId) (flags : UInt32) :
    Triple (Held k q Nothing) (openInode i flags) (fun _ => Held k q Nothing) (WaitsForOther k q) := by
  apply triple_get
  intro s _
  dsimp only
  split
  · apply triple_bind _ _ _ _ _ _ (iput_triple k q Nothing i id id fun _ => id)
    intro _
    exact panic_then k q _ _ _ _
  apply triple_bind _ _ _ _ _ _ (fget_triple k q Nothing i flags id)
  intro file
  cases file with
  | none =>
      apply triple_bind _ _ _ _ _ _ (iput_triple k q Nothing i id id fun _ => id)
      intro _
      exact panic_triple k q _ _ _
  | some f =>
      apply triple_bind _ _ _ _ _ _ (fdget_triple k q Nothing id)
      intro answer
      cases answer with
      | none =>
          apply triple_bind _ _ _ _ _ _ (iput_triple k q _ i (by simp [Nothing]) (by simp [Nothing])
            (by simp [Nothing]))
          intro _
          refine table_then k q _ _ _ _ (by exact fun _ => ⟨rfl, rfl⟩) ?_
          exact panic_triple k q _ _ _
      | some fd =>
          apply triple_get
          intro u _
          apply triple_bind _ _ _ _ _ _ (acquire_triple k q _ (.proc u.current) (by simp [Nothing]))
          intro _
          refine table_then k q _ _ _ _ (by exact fun _ => ⟨rfl, rfl⟩) ?_
          apply triple_bind _ _ _ _ _ _ (release_taken_triple k q _ (.proc u.current))
          intro _
          apply triple_pure
          intro t held
          apply held_weaken k q _ _ t held
          simp [Nothing]

theorem sys_open_triple (path : List UInt8) (flags : UInt32) (mode : UInt16) :
    Triple (Held k q Nothing) (sysOpen path flags mode) (fun _ => Held k q Nothing) (WaitsForOther k q) :=
  triple_bind _ _ _ _ _ _ (namei_triple k q Nothing path id id) fun i => open_inode_triple k q i flags

def SomeInodeOrBuffer (l : Lock) : Prop := ∃ i, InodeOrBuffer i l

theorem close_last_triple (f : FileId) :
    Triple (Held k q (fun l => Nothing l ∨ l = .openFiles)) (closeLast f)
      (fun _ => Held k q (fun l => SomeInodeOrBuffer l ∨ l = .openFiles)) (WaitsForOther k q) := by
  refine table_then k q _ _ _ _ (by exact fun _ => ⟨rfl, rfl⟩) ?_
  apply triple_get
  intro s _
  cases (s.files f).fInode with
  | none => exact fault_triple k q _ _
  | some i =>
      apply triple_bind _ _ _ _ _ _ (iput_triple k q _ i (by simp [Nothing]) (by simp [Nothing]) (by simp [Nothing]))
      intro _
      refine table_then k q _ _ _ _ (by exact fun _ => ⟨rfl, rfl⟩) ?_
      apply triple_modify
      intro t held
      apply held_weaken k q _ _ _ (held_unlock k q _ t (.file f) held)
      rintro l ⟨(impossible | same) | inside, -⟩
      · exact impossible.elim
      · exact .inr same
      · exact .inl ⟨i, inside⟩

theorem sys_close_triple (fd : Int) :
    Triple (Held k q Nothing) (sysClose fd) (fun _ => Held k q SomeInodeOrBuffer) (WaitsForOther k q) := by
  dsimp only [sysClose]
  split
  · exact panic_then k q _ _ _ _
  apply triple_get
  intro s _
  split
  · split
    · exact panic_triple k q _ _ _
    · rename_i f _
      apply triple_bind _ _ _ _ _ _ (acquire_triple k q Nothing .openFiles id)
      intro _
      refine table_then k q _ _ _ _ (by exact fun _ => ⟨rfl, rfl⟩) ?_
      apply triple_get
      intro u _
      split
      · apply triple_bind _ _ _ _ _ _ (close_last_triple k q f)
        intro _
        apply triple_bind _ _ _ _ _ _ (release_taken_triple k q SomeInodeOrBuffer .openFiles)
        intro _
        exact triple_pure _ _ _ _ fun _ held => held
      · apply triple_bind _ _ _ _ _ _ (release_taken_triple k q Nothing .openFiles)
        intro _
        apply triple_pure
        intro t held
        exact held_weaken k q _ _ t held fun _ impossible => impossible.elim
  · exact fault_triple k q _ _

end

end Yaup
