import Yaup.BlockFrame

set_option autoImplicit false

namespace Yaup

def Kernel.shown (k : Kernel) (key : Dev × Blk) : Option BufId → Block
  | some b => if (k.blocks b).bCount = 0 then k.disk key else (k.blocks b).bData
  | none => k.disk key

def Kernel.contents (k : Kernel) (key : Dev × Blk) : Block := k.shown key (findBlock k key.1 key.2)

def LiveFirst (k : Kernel) : Prop :=
  ∀ b, (k.blocks b).bCount ≠ 0 → findBlock k (k.blocks b).bDev (k.blocks b).bBlk = some b

theorem contents_live (k : Kernel) (first : LiveFirst k) (b : BufId) (used : (k.blocks b).bCount ≠ 0) :
    k.contents (k.blocks b).key = (k.blocks b).bData := by
  have found : findBlock k (k.blocks b).key.1 (k.blocks b).key.2 = some b := first b used
  rw [Kernel.contents, found]
  exact if_neg used

theorem contents_idle (k : Kernel) (key : Dev × Blk) (idle : ∀ b, (k.blocks b).key = key → (k.blocks b).bCount = 0) :
    k.contents key = k.disk key := by
  rw [Kernel.contents]
  generalize search : findBlock k key.1 key.2 = found
  cases found with
  | none => rfl
  | some b => exact if_pos (idle b ((find_block_some k key.1 key.2 b).mp search).1)

theorem contents_same (k t : Kernel) (first : LiveFirst k) (firstAfter : LiveFirst t) (key : Dev × Blk)
    (disk : t.disk key = k.disk key)
    (live : ∀ b, (k.blocks b).key = key → (k.blocks b).bCount ≠ 0 →
      (t.blocks b).key = key ∧ (t.blocks b).bCount ≠ 0 ∧ (t.blocks b).bData = (k.blocks b).bData)
    (fresh : ∀ b, (t.blocks b).key = key → (t.blocks b).bCount ≠ 0 → (k.blocks b).key = key ∧ (k.blocks b).bCount ≠ 0 ∨
      (t.blocks b).bData = k.contents key) :
    t.contents key = k.contents key := by
  by_cases some : ∃ b, (t.blocks b).key = key ∧ (t.blocks b).bCount ≠ 0
  · obtain ⟨b, named, used⟩ := some
    have shown := contents_live t firstAfter b used
    rw [named] at shown
    rcases fresh b named used with ⟨before, usedBefore⟩ | loaded
    · have shownBefore := contents_live k first b usedBefore
      rw [before] at shownBefore
      rw [shown, (live b before usedBefore).2.2, shownBefore]
    · exact shown.trans loaded
  · have idleAfter : ∀ b, (t.blocks b).key = key → (t.blocks b).bCount = 0 := by
      intro b named
      by_contra used
      exact some ⟨b, named, used⟩
    have idle : ∀ b, (k.blocks b).key = key → (k.blocks b).bCount = 0 := by
      intro b named
      by_contra used
      obtain ⟨after, still, -⟩ := live b named used
      exact some ⟨b, after, still⟩
    rw [contents_idle t key idleAfter, contents_idle k key idle, disk]

theorem find_block_keys (k t : Kernel) (keys : ∀ b, (t.blocks b).key = (k.blocks b).key) (dev : Dev) (blk : Blk) :
    findBlock t dev blk = findBlock k dev blk := by
  generalize search : findBlock k dev blk = found
  cases found with
  | none =>
      refine (find_block_none t dev blk).mpr fun b => ?_
      rw [keys b]
      exact (find_block_none k dev blk).mp search b
  | some b =>
      obtain ⟨named, earlier⟩ := (find_block_some k dev blk b).mp search
      refine (find_block_some t dev blk b).mpr ⟨(keys b).trans named, fun c below => ?_⟩
      rw [keys c]
      exact earlier c below

theorem blocks_contents (k t : Kernel) (blocks : t.blocks = k.blocks) (disk : t.disk = k.disk) : t.contents = k.contents := by
  funext key
  have same : findBlock t key.1 key.2 = findBlock k key.1 key.2 :=
    find_block_keys k t (fun b => by rw [blocks]) key.1 key.2
  rw [Kernel.contents, Kernel.contents, same]
  generalize findBlock k key.1 key.2 = found
  cases found with
  | none => rw [Kernel.shown, Kernel.shown, disk]
  | some b => rw [Kernel.shown, Kernel.shown, disk, blocks]

theorem same_blocks_contents (k t : Kernel) (first : LiveFirst k) (blocks : t.blocks = k.blocks) (disk : t.disk = k.disk) :
    LiveFirst t ∧ t.contents = k.contents := by
  refine ⟨fun b live => ?_, blocks_contents k t blocks disk⟩
  rw [blocks] at live ⊢
  rw [find_block_keys k t (fun c => by rw [blocks])]
  exact first b live

theorem store_contents (k : Kernel) (first : LiveFirst k) (b : BufId) (x : Buffer) (used : (k.blocks b).bCount ≠ 0)
    (named : x.key = (k.blocks b).key) (kept : x.bCount ≠ 0) :
    LiveFirst (k.setBlock b x) ∧
      (k.setBlock b x).contents = Function.update k.contents (k.blocks b).key x.bData := by
  have keys : ∀ c, ((k.setBlock b x).blocks c).key = (k.blocks c).key := by
    intro c
    by_cases same : c = b
    · subst same
      simpa using named
    · simp [same]
  have counts : ∀ c, ((k.setBlock b x).blocks c).bCount ≠ 0 → (k.blocks c).bCount ≠ 0 := by
    intro c live
    by_cases same : c = b
    · exact same ▸ used
    · simpa [same] using live
  have firstAfter : LiveFirst (k.setBlock b x) := by
    intro c live
    have key : ((k.setBlock b x).blocks c).bDev = (k.blocks c).bDev ∧ ((k.setBlock b x).blocks c).bBlk = (k.blocks c).bBlk :=
      Prod.ext_iff.mp (keys c)
    rw [find_block_keys k _ keys, key.1, key.2]
    exact first c (counts c live)
  refine ⟨firstAfter, funext fun key => ?_⟩
  by_cases mine : key = (k.blocks b).key
  · subst mine
    have shown := contents_live _ firstAfter b (by simpa using kept)
    rw [keys b] at shown
    simpa using shown
  · rw [Function.update_of_ne mine]
    have other : ∀ c, (k.blocks c).key = key → c ≠ b := fun c named same => mine (same ▸ named).symm
    refine contents_same k _ first firstAfter key rfl (fun c named live => ?_) (fun c named live => .inl ?_)
    · have apart := other c named
      simp only [Kernel.setBlock_blocks, Function.update_of_ne apart]
      exact ⟨named, live, trivial⟩
    · rw [keys c] at named
      exact ⟨named, counts c live⟩

theorem load_contents (k : Kernel) (first : LiveFirst k) (b : BufId) (x : Buffer) (idle : (k.blocks b).bCount = 0)
    (loaded : x.bData = k.disk x.key) (found : findBlock (k.setBlock b x) x.bDev x.bBlk = some b)
    (alone : ∀ c, (k.blocks c).key = x.key → (k.blocks c).bCount = 0) :
    LiveFirst (k.setBlock b x) ∧ (k.setBlock b x).contents = k.contents := by
  have firstAfter : LiveFirst (k.setBlock b x) := by
    intro c live
    by_cases same : c = b
    · subst same
      simpa using found
    · simp only [Kernel.setBlock_blocks, Function.update_of_ne same] at live ⊢
      obtain ⟨named, earlier⟩ := (find_block_some k _ _ c).mp (first c live)
      refine (find_block_some _ _ _ c).mpr ⟨by simpa [same] using named, fun d below => ?_⟩
      by_cases mine : d = b
      · subst mine
        intro clash
        have key : (k.blocks c).key = x.key := by simpa [Buffer.key] using clash.symm
        exact live (alone c key)
      · simpa [mine] using earlier d below
  refine ⟨firstAfter, funext fun key => contents_same k _ first firstAfter key rfl ?_ ?_⟩
  · intro c named live
    have other : c ≠ b := fun same => live (same ▸ idle)
    simp only [Kernel.setBlock_blocks, Function.update_of_ne other]
    exact ⟨named, live, trivial⟩
  · intro c named live
    by_cases same : c = b
    · subst same
      simp only [Kernel.setBlock_blocks, Function.update_self] at named ⊢
      subst named
      exact .inr (loaded.trans (contents_idle k x.key alone).symm)
    · simp only [Kernel.setBlock_blocks, Function.update_of_ne same] at named live
      exact .inl ⟨named, live⟩

theorem bread_contents (k t : Kernel) (first : LiveFirst k) (dev : Dev) (blk : Blk) (b : BufId)
    (done : (bread dev blk).run k = .ok b t) :
    LiveFirst t ∧ t.contents = k.contents ∧ (t.blocks b).bData = k.contents (dev, blk) := by
  have named := (bread_handed k t dev blk b done).2.1
  have used := bread_counted k t dev blk b done
  have conclude : LiveFirst t ∧ t.contents = k.contents →
      LiveFirst t ∧ t.contents = k.contents ∧ (t.blocks b).bData = k.contents (dev, blk) := by
    rintro ⟨firstAfter, same⟩
    have shown := contents_live t firstAfter b used
    rw [named, same] at shown
    exact ⟨firstAfter, same, shown.symm⟩
  obtain ⟨-, ⟨-, -, rfl⟩ | ⟨hit, idle, rfl⟩ | ⟨miss, unused, rfl⟩⟩ := bread_cases k t dev blk b done
  · exact conclude ⟨first, rfl⟩
  · have key : (k.blocks b).key = (dev, blk) := ((find_block_some k dev blk b).mp hit).1
    have same : ((k.blocks b).fill (k.disk (dev, blk))).key = (k.blocks b).key := rfl
    have keys : ∀ c, ((k.setBlock b ((k.blocks b).fill (k.disk (dev, blk)))).blocks c).key = (k.blocks c).key := by
      intro c
      by_cases mine : c = b <;> simp [mine, same]
    refine conclude (load_contents k first b _ idle (by rw [same, key]; rfl) ?_ ?_)
    · rw [find_block_keys k _ keys]
      obtain ⟨rfl, rfl⟩ := Prod.ext_iff.mp key
      exact hit
    · intro c sameKey
      by_contra live
      have found := first c live
      obtain ⟨onDev, onBlk⟩ := Prod.ext_iff.mp ((sameKey.trans same).trans key)
      simp only [Buffer.key] at onDev onBlk
      rw [onDev, onBlk, hit] at found
      cases found
      exact live idle
  · have idle := ((free_block_some k b).mp unused).1
    have apart := (find_block_none k dev blk).mp miss
    have load := load_contents k first b (((k.blocks b).rekey dev blk).fill (k.disk (dev, blk))) idle rfl
      ((find_block_some _ dev blk b).mpr ⟨by simp [Buffer.key, Buffer.fill, Buffer.rekey], fun c below => by
        simpa [ne_of_lt below] using apart c⟩)
      (fun c same => absurd same (apart c))
    have unlocked := same_blocks_contents _ ((k.setBlock b _).unlock (.buf b)) load.1 rfl rfl
    exact conclude ⟨unlocked.1, unlocked.2.trans load.2⟩

end Yaup
