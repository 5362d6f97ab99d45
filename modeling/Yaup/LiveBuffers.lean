import Mathlib.Data.Fintype.Card
import Yaup.Contents

set_option autoImplicit false

namespace Yaup

def liveKeys (k : Kernel) : Finset (Dev × Blk) :=
  (Finset.univ.filter fun b : BufId => (k.blocks b).bCount ≠ 0).image fun b => (k.blocks b).key

def Unheld (k : Kernel) (keys : Dev × Blk → Prop) : Prop :=
  ∀ b, (k.blocks b).bCount ≠ 0 ∨ keys (k.blocks b).key → k.locks (.buf b) ≠ some k.current

theorem mem_live_keys (k : Kernel) (key : Dev × Blk) :
    key ∈ liveKeys k ↔ ∃ b, (k.blocks b).bCount ≠ 0 ∧ (k.blocks b).key = key := by
  simp [liveKeys]

theorem idle_live_keys (k : Kernel) (idle : ∀ b, (k.blocks b).bCount = 0) : liveKeys k = ∅ := by
  refine Finset.eq_empty_of_forall_notMem fun key member => ?_
  obtain ⟨b, used, -⟩ := (mem_live_keys k key).mp member
  exact used (idle b)

theorem live_keys_count (k : Kernel) :
    (liveKeys k).card ≤ (Finset.univ.filter fun b : BufId => (k.blocks b).bCount ≠ 0).card :=
  Finset.card_image_le

theorem live_keys_fit (k : Kernel) : (liveKeys k).card ≤ nrBuf := by
  have count := (live_keys_count k).trans (Finset.card_le_univ _)
  rwa [Fintype.card_fin] at count

theorem live_keys_room (k : Kernel) (b : BufId) (idle : (k.blocks b).bCount = 0) : (liveKeys k).card < nrBuf := by
  have strict : (Finset.univ.filter fun c : BufId => (k.blocks c).bCount ≠ 0) ⊂ Finset.univ := by
    refine Finset.filter_ssubset.mpr ⟨b, Finset.mem_univ b, ?_⟩
    exact not_not_intro idle
  have count := (live_keys_count k).trans_lt (Finset.card_lt_card strict)
  rwa [Finset.card_univ, Fintype.card_fin] at count

theorem live_keys_full (k : Kernel) (first : LiveFirst k) (full : ∀ b, (k.blocks b).bCount ≠ 0) :
    (liveKeys k).card = nrBuf := by
  have apart : Function.Injective fun b => (k.blocks b).key := by
    intro b c same
    have found := first b (full b)
    obtain ⟨dev, blk⟩ := Prod.ext_iff.mp same
    simp only [Buffer.key] at dev blk
    rw [dev, blk, first c (full c)] at found
    exact (Option.some.inj found).symm
  have whole : (Finset.univ.filter fun b : BufId => (k.blocks b).bCount ≠ 0) = Finset.univ :=
    Finset.filter_true_of_mem fun b _ => full b
  rw [liveKeys, whole, Finset.card_image_of_injective _ apart, Finset.card_univ, Fintype.card_fin]

theorem bread_room_iff (k : Kernel) (first : LiveFirst k) (table : k.locks .buffer = none) (dev : Dev) (blk : Blk) :
    (∃ b t, (bread dev blk).run k = .ok b t) ↔ (insert (dev, blk) (liveKeys k)).card ≤ nrBuf := by
  rw [bread_returns_iff, and_iff_right table]
  by_cases some : ∃ b, (k.blocks b).bCount = 0
  · obtain ⟨b, idle⟩ := some
    refine iff_of_true (.inr fun none => (free_block_none k).mp none b idle) ?_
    exact (Finset.card_insert_le _ _).trans (live_keys_room k b idle)
  · have full : ∀ b, (k.blocks b).bCount ≠ 0 := fun b idle => some ⟨b, idle⟩
    have none : freeBlock k = none := (free_block_none k).mpr full
    constructor
    · intro slot
      have hit := slot.resolve_right (not_not_intro none)
      obtain ⟨b, found⟩ := Option.ne_none_iff_exists'.mp hit
      have member := (mem_live_keys k (dev, blk)).mpr ⟨b, full b, ((find_block_some k dev blk b).mp found).1⟩
      rw [Finset.insert_eq_of_mem member]
      exact live_keys_fit k
    · intro fits
      refine .inl fun miss => ?_
      have apart : (dev, blk) ∉ liveKeys k := by
        intro member
        obtain ⟨b, -, named⟩ := (mem_live_keys k _).mp member
        exact (find_block_none k dev blk).mp miss b named
      rw [Finset.card_insert_of_notMem apart, live_keys_full k first full] at fits
      exact absurd fits (Nat.not_succ_le_self nrBuf)

theorem set_live (k t : Kernel) (b : BufId) (x : Buffer) (idle : (k.blocks b).bCount = 0) (used : x.bCount ≠ 0)
    (blocks : t.blocks = Function.update k.blocks b x) : liveKeys t = insert x.key (liveKeys k) := by
  ext key
  rw [Finset.mem_insert, mem_live_keys, mem_live_keys, blocks]
  constructor
  · rintro ⟨c, live, named⟩
    by_cases same : c = b
    · subst same
      rw [Function.update_self] at named
      exact .inl named.symm
    · rw [Function.update_of_ne same] at live named
      exact .inr ⟨c, live, named⟩
  · rintro (rfl | ⟨c, live, named⟩)
    · refine ⟨b, ?_, ?_⟩
      · rwa [Function.update_self]
      · rw [Function.update_self]
    · have apart : c ≠ b := fun same => live (same ▸ idle)
      refine ⟨c, ?_, ?_⟩
      · rwa [Function.update_of_ne apart]
      · rwa [Function.update_of_ne apart]

theorem bread_live (k t : Kernel) (dev : Dev) (blk : Blk) (b : BufId) (done : (bread dev blk).run k = .ok b t) :
    liveKeys t = insert (dev, blk) (liveKeys k) := by
  obtain ⟨-, ⟨hit, used, rfl⟩ | ⟨hit, idle, rfl⟩ | ⟨-, unused, rfl⟩⟩ := bread_cases k t dev blk b done
  · have member := (mem_live_keys _ (dev, blk)).mpr ⟨b, used, ((find_block_some _ dev blk b).mp hit).1⟩
    rw [Finset.insert_eq_of_mem member]
  · rw [set_live k _ b _ idle (by simp [Buffer.fill, idle]) rfl, ← ((find_block_some k dev blk b).mp hit).1]
    rfl
  · have idle := ((free_block_some k b).mp unused).1
    have used : (((k.blocks b).rekey dev blk).fill (k.disk (dev, blk))).bCount ≠ 0 := by
      simp [Buffer.fill, Buffer.rekey, idle]
    exact set_live k _ b (((k.blocks b).rekey dev blk).fill (k.disk (dev, blk))) idle used rfl

theorem bread_leaves_unheld (k t : Kernel) (dev : Dev) (blk : Blk) (b : BufId) (keys : Dev × Blk → Prop)
    (unheld : Unheld k keys) (wanted : keys (dev, blk)) (done : (bread dev blk).run k = .ok b t) : Unheld t keys := by
  obtain ⟨-, ⟨-, -, rfl⟩ | ⟨hit, -, rfl⟩ | ⟨-, -, rfl⟩⟩ := bread_cases k t dev blk b done
  · exact unheld
  · intro c claim
    refine unheld c ?_
    by_cases same : c = b
    · subst same
      rw [((find_block_some k dev blk c).mp hit).1]
      exact .inr wanted
    · simpa [same] using claim
  · intro c claim
    by_cases same : c = b
    · subst same
      rw [Kernel.unlock_locks, Function.update_self]
      exact nofun
    · have other : Lock.buf c ≠ .buf b := fun clash => same (Lock.buf.inj clash)
      rw [Kernel.unlock_locks, Function.update_of_ne other]
      exact unheld c (by simpa [same] using claim)

end Yaup
