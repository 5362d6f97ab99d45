import Yaup.Block

set_option autoImplicit false

namespace Yaup

structure BufferFrame (k t : Kernel) : Prop where
  current : t.current = k.current
  superblock : t.superblock = k.superblock
  inodes : t.inodes = k.inodes
  files : t.files = k.files
  procs : t.procs = k.procs
  wild : t.wild = k.wild
  locks : ∀ l, (∀ b, l ≠ .buf b) → t.locks l = k.locks l

theorem buffer_frame_refl (k : Kernel) : BufferFrame k k := ⟨rfl, rfl, rfl, rfl, rfl, rfl, fun _ _ => rfl⟩

theorem buffer_frame_trans (k s t : Kernel) (first : BufferFrame k s) (second : BufferFrame s t) :
    BufferFrame k t where
  current := second.current.trans first.current
  superblock := second.superblock.trans first.superblock
  inodes := second.inodes.trans first.inodes
  files := second.files.trans first.files
  procs := second.procs.trans first.procs
  wild := second.wild.trans first.wild
  locks := fun l other => (second.locks l other).trans (first.locks l other)

theorem set_block_frame (k : Kernel) (b : BufId) (x : Buffer) : BufferFrame k (k.setBlock b x) :=
  ⟨rfl, rfl, rfl, rfl, rfl, rfl, fun _ _ => rfl⟩

theorem unlock_buf_frame (k : Kernel) (b : BufId) : BufferFrame k (k.unlock (.buf b)) :=
  ⟨rfl, rfl, rfl, rfl, rfl, rfl, fun _ other => Function.update_of_ne (other b) _ _⟩

theorem bget_frame (k t : Kernel) (dev : Dev) (blk : Blk) (b : BufId)
    (done : (bget dev blk).run k = .ok b t) : BufferFrame k t := by
  obtain ⟨-, ⟨-, rfl⟩ | ⟨-, -, rfl⟩⟩ := bget_cases k t dev blk b done
  · exact buffer_frame_refl _
  · exact buffer_frame_trans k _ _ (set_block_frame k b _) (unlock_buf_frame _ b)

theorem bread_frame (k t : Kernel) (dev : Dev) (blk : Blk) (b : BufId)
    (done : (bread dev blk).run k = .ok b t) : BufferFrame k t := by
  obtain ⟨-, ⟨-, -, rfl⟩ | ⟨-, -, rfl⟩ | ⟨-, -, rfl⟩⟩ := bread_cases k t dev blk b done
  · exact buffer_frame_refl _
  · exact set_block_frame k b _
  · exact buffer_frame_trans k _ _ (set_block_frame k b _) (unlock_buf_frame _ b)

theorem bwrite_frame (k t : Kernel) (b : BufId) (r : Int) (done : (bwrite b).run k = .ok r t) :
    BufferFrame k t := by
  obtain ⟨-, -, ⟨-, rfl⟩ | ⟨-, rfl⟩⟩ := bwrite_cases k t b r done
  · exact buffer_frame_refl _
  · exact ⟨rfl, rfl, rfl, rfl, rfl, rfl, fun l other => Function.update_of_ne (other b) _ _⟩

theorem bread_counted (k t : Kernel) (dev : Dev) (blk : Blk) (b : BufId)
    (done : (bread dev blk).run k = .ok b t) : (t.blocks b).bCount ≠ 0 := by
  obtain ⟨-, ⟨-, used, rfl⟩ | ⟨-, idle, rfl⟩ | ⟨-, unused, rfl⟩⟩ := bread_cases k t dev blk b done
  · exact used
  · simp [Buffer.fill, idle]
  · have idle := ((free_block_some k b).mp unused).1
    simp [Buffer.fill, Buffer.rekey, idle]

theorem bread_returns_iff (k : Kernel) (dev : Dev) (blk : Blk) :
    (∃ b t, (bread dev blk).run k = .ok b t) ↔
      k.locks .buffer = none ∧ (findBlock k dev blk ≠ none ∨ freeBlock k ≠ none) := by
  constructor
  · rintro ⟨b, t, done⟩
    obtain ⟨free, ⟨hit, -⟩ | ⟨hit, -⟩ | ⟨-, unused, -⟩⟩ := bread_cases k t dev blk b done
    · exact ⟨free, .inl (hit ▸ Option.some_ne_none b)⟩
    · exact ⟨free, .inl (hit ▸ Option.some_ne_none b)⟩
    · exact ⟨free, .inr (unused ▸ Option.some_ne_none b)⟩
  · rintro ⟨free, slot⟩
    cases hit : findBlock k dev blk with
    | some b =>
        by_cases idle : (k.blocks b).bCount = 0
        · exact ⟨b, _, bread_reload k dev blk b free hit idle⟩
        · exact ⟨b, _, bread_held k dev blk b free hit idle⟩
    | none =>
        obtain ⟨b, unused⟩ := Option.ne_none_iff_exists'.mp (slot.resolve_left fun found => found hit)
        exact ⟨b, _, bread_recycle k dev blk b free hit unused⟩

def DirtyHit (k : Kernel) (dev : Dev) (blk : Blk) : Prop :=
  ∃ b, findBlock k dev blk = some b ∧ (k.blocks b).bDirty = true

theorem bread_handed (k t : Kernel) (dev : Dev) (blk : Blk) (b : BufId)
    (done : (bread dev blk).run k = .ok b t) :
    t.disk = k.disk ∧ (t.blocks b).key = (dev, blk) ∧ ((t.blocks b).bDirty = true ↔ DirtyHit k dev blk) := by
  have same_slot : findBlock k dev blk = some b → ((k.blocks b).bDirty = true ↔ DirtyHit k dev blk) := by
    intro hit
    constructor
    · intro dirty
      exact ⟨b, hit, dirty⟩
    · rintro ⟨c, found, dirty⟩
      rw [hit] at found
      cases found
      exact dirty
  obtain ⟨-, ⟨hit, -, rfl⟩ | ⟨hit, -, rfl⟩ | ⟨miss, -, rfl⟩⟩ := bread_cases k t dev blk b done
  · exact ⟨rfl, ((find_block_some _ dev blk b).mp hit).1, same_slot hit⟩
  · have key := ((find_block_some k dev blk b).mp hit).1
    refine ⟨rfl, ?_, ?_⟩
    · simpa [Buffer.fill, Buffer.key] using key
    · simpa [Buffer.fill] using same_slot hit
  · refine ⟨rfl, by simp [Buffer.fill, Buffer.rekey, Buffer.key], ?_⟩
    simp [Buffer.fill, Buffer.rekey, DirtyHit, miss]

def Kernel.released (k : Kernel) (b : BufId) : Kernel :=
  if k.locks (.buf b) = some k.current then (k.setBlock b (k.blocks b).drop).unlock (.buf b) else k

theorem brelease_used (k : Kernel) (b : BufId) (used : (k.blocks b).bCount ≠ 0) :
    (brelease b).run k = .ok 0 (k.released b) := by
  rw [brelease_run, if_neg used, Kernel.released]

theorem released_frame (k : Kernel) (b : BufId) : BufferFrame k (k.released b) := by
  by_cases mine : k.locks (.buf b) = some k.current
  · rw [Kernel.released, if_pos mine]
    exact buffer_frame_trans k _ _ (set_block_frame k b _) (unlock_buf_frame _ b)
  · rw [Kernel.released, if_neg mine]
    exact buffer_frame_refl _

theorem brelease_frame (k t : Kernel) (b : BufId) (r : Int) (done : (brelease b).run k = .ok r t) :
    BufferFrame k t := by
  obtain ⟨used, -, -⟩ := brelease_cases k t b r done
  rw [brelease_used k b used] at done
  cases done
  exact released_frame k b

end Yaup
