import Yaup.Bitmap
import Yaup.LiveBuffers
import Yaup.ReadBack

set_option autoImplicit false

namespace Yaup

open Lib

-- BLK_ADDR: the division is by the size of a bitmap entry, not by the bits of a block.
def bfreeAddr (k : Kernel) (dev : Dev) (blk : Blk) : Blk :=
  (k.superblock dev).sFreeBlk + UInt64.ofNat (blk.toNat / sizeofBitmap)

def bfreeBit (setPosAt : UInt8 → UInt64 → Option (Kernel → Kernel)) (blk : Blk) (b : BufId) : Kern Int := do
  let k ← get
  match setPosAt (dataByte k b (blk.toNat % sizeofBitmap)) (UInt64.ofNat (blk.toNat % sizeofBitmap)) with
  | none => fault
  | some write =>
      modify write
      let _ ← brelease b
      return 0

theorem bfree_reads (setPosAt : UInt8 → UInt64 → Option (Kernel → Kernel)) (dev : Dev) (blk : Blk) (k : Kernel) :
    (bfree setPosAt dev blk).run k = (bread dev (bfreeAddr k dev blk) >>= bfreeBit setPosAt blk).run k := by
  rw [bfree, run_get_bind, bfreeAddr]
  rfl

-- The bytes 0 to 255, which bfree takes for addresses, are in none of the tables.
def Harmless (setPosAt : UInt8 → UInt64 → Option (Kernel → Kernel)) : Prop :=
  ∀ byte pos write, setPosAt byte pos = some write → ∀ k, write k = k

def InFreeMap (k : Kernel) (dev : Dev) (addr : Blk) : Prop :=
  ∃ n < (k.superblock dev).sFreeBlkLen.toNat, addr = (k.superblock dev).sFreeBlk + UInt64.ofNat n

def freeMapKey (k : Kernel) (dev : Dev) (blk : Blk) : Dev × Blk :=
  bitmapKey dev (k.superblock dev).sFreeBlk blk.toNat

def freeMapPlace (k : Kernel) (dev : Dev) (blk : Blk) : (Dev × Blk) × Nat :=
  (freeMapKey k dev blk, blk.toNat % bitsPerBlk)

structure BfreeRight (k t : Kernel) (dev : Dev) (blk : Blk) : Prop where
  reads : InFreeMap k dev (bfreeAddr k dev blk)
  sets : bitAt (t.contents (freeMapKey k dev blk)) (blk.toNat % bitsPerBlk) = true
  others : ∀ n < bitsPerBlk, n ≠ blk.toNat % bitsPerBlk →
    bitAt (t.contents (freeMapKey k dev blk)) n = bitAt (k.contents (freeMapKey k dev blk)) n
  frame : ∀ key, key ≠ freeMapKey k dev blk → t.contents key = k.contents key
  dirty : ∃ c, (t.blocks c).key = freeMapKey k dev blk ∧ (t.blocks c).bCount ≠ 0 ∧ (t.blocks c).bDirty = true
  apart : ∀ other, other ≠ blk → freeMapPlace k dev other ≠ freeMapPlace k dev blk

def DirtyBefore (k : Kernel) (dev : Dev) (blk : Blk) : Prop :=
  ∃ c, findBlock k dev (freeMapKey k dev blk).2 = some c ∧ (k.blocks c).bDirty = true ∧
    ((k.blocks c).bCount ≠ 0 ∨ bfreeAddr k dev blk = (freeMapKey k dev blk).2)

theorem of_nat_inj (m n : Nat) (small : m < 2 ^ 64) (other : n < 2 ^ 64) (same : UInt64.ofNat m = UInt64.ofNat n) :
    m = n := by
  have values := congrArg UInt64.toNat same
  rwa [UInt64.toNat_ofNat_of_lt' small, UInt64.toNat_ofNat_of_lt' other] at values

theorem reads_in_map_iff (k : Kernel) (dev : Dev) (blk : Blk) :
    InFreeMap k dev (bfreeAddr k dev blk) ↔ blk.toNat / sizeofBitmap < (k.superblock dev).sFreeBlkLen.toNat := by
  constructor
  · rintro ⟨n, low, same⟩
    have half : blk.toNat / sizeofBitmap < 2 ^ 64 := lt_of_le_of_lt (Nat.div_le_self _ _) blk.toNat_lt
    have small : n < 2 ^ 64 := lt_trans low (UInt64.toNat_lt _)
    rw [of_nat_inj _ n half small ((UInt64.add_right_inj _).mp same)]
    exact low
  · intro low
    exact ⟨_, low, rfl⟩

theorem places_apart (k : Kernel) (dev : Dev) (blk other : Blk) (different : other ≠ blk) :
    freeMapPlace k dev other ≠ freeMapPlace k dev blk := by
  intro same
  obtain ⟨key, bit⟩ := Prod.mk.inj same
  have high : ∀ n : Blk, n.toNat / bitsPerBlk < 2 ^ 64 := fun n => lt_of_le_of_lt (Nat.div_le_self _ _) n.toNat_lt
  have word := of_nat_inj _ _ (high other) (high blk) ((UInt64.add_right_inj _).mp (Prod.mk.inj key).2)
  apply different
  apply UInt64.toNat_inj.mp
  rw [← Nat.div_add_mod other.toNat bitsPerBlk, word, bit, Nat.div_add_mod]

section
variable (setPosAt : UInt8 → UInt64 → Option (Kernel → Kernel)) (harmless : Harmless setPosAt)
variable (k t : Kernel) (dev : Dev) (blk : Blk) (r : Int)
variable (unheld : ∀ b, k.locks (.buf b) ≠ some k.current)

theorem bread_unheld (s : Kernel) (addr : Blk) (b : BufId) (read : (bread dev addr).run k = .ok b s)
    (free : ∀ c, k.locks (.buf c) ≠ some k.current) : s.locks (.buf b) ≠ some s.current :=
  bread_leaves_unheld k s dev addr b (fun _ => True) (fun c _ => free c) trivial read b (.inr trivial)

include harmless unheld in
theorem bfree_leaves (done : (bfree setPosAt dev blk).run k = .ok r t) :
    ∃ b, (bread dev (bfreeAddr k dev blk)).run k = .ok b t := by
  rw [bfree_reads] at done
  obtain ⟨b, s, read, rest⟩ := (run_bind_ok _ _ _ _ _).mp done
  refine ⟨b, ?_⟩
  rw [bfreeBit, run_get_bind] at rest
  cases wrote : setPosAt (dataByte s b (blk.toNat % sizeofBitmap)) (UInt64.ofNat (blk.toNat % sizeofBitmap)) with
  | none =>
      rw [wrote] at rest
      cases rest
  | some write =>
      rw [wrote] at rest
      obtain ⟨_, u, stored, rest⟩ := (run_bind_ok _ _ _ _ _).mp rest
      cases stored
      obtain ⟨q, v, released, rest⟩ := (run_bind_ok _ _ _ _ _).mp rest
      cases rest
      rw [harmless _ _ write wrote s] at released
      obtain ⟨-, -, ⟨held, -⟩ | ⟨-, rfl⟩⟩ := brelease_cases s t b q released
      · exact absurd held (bread_unheld k dev s _ b read unheld)
      · exact read

end

theorem bread_dirty_iff (k t : Kernel) (dev : Dev) (addr n : Blk) (b : BufId) (first : LiveFirst k)
    (read : (bread dev addr).run k = .ok b t) :
    (∃ c, (t.blocks c).key = (dev, n) ∧ (t.blocks c).bCount ≠ 0 ∧ (t.blocks c).bDirty = true) ↔
      ∃ c, findBlock k dev n = some c ∧ (k.blocks c).bDirty = true ∧ ((k.blocks c).bCount ≠ 0 ∨ addr = n) := by
  have live : ∀ c, (k.blocks c).key = (dev, n) → (k.blocks c).bCount ≠ 0 → findBlock k dev n = some c := by
    intro c named used
    have onDev : (k.blocks c).bDev = dev := congrArg Prod.fst named
    have onBlk : (k.blocks c).bBlk = n := congrArg Prod.snd named
    calc findBlock k dev n = findBlock k (k.blocks c).bDev (k.blocks c).bBlk := by rw [onDev, onBlk]
      _ = some c := first c used
  have named : ∀ c, findBlock k dev n = some c → (k.blocks c).key = (dev, n) :=
    fun c found => ((find_block_some k dev n c).mp found).1
  obtain ⟨-, ⟨hit, used, rfl⟩ | ⟨hit, idle, rfl⟩ | ⟨miss, unused, rfl⟩⟩ := bread_cases k t dev addr b read
  · constructor
    · rintro ⟨c, key, count, dirty⟩
      exact ⟨c, live c key count, dirty, .inl count⟩
    · rintro ⟨c, found, dirty, count | rfl⟩
      · exact ⟨c, named c found, count, dirty⟩
      · cases hit.symm.trans found
        exact ⟨b, named b found, used, dirty⟩
  · have onto : (k.blocks b).key = (dev, addr) := ((find_block_some k dev addr b).mp hit).1
    constructor
    · rintro ⟨c, key, count, dirty⟩
      by_cases same : c = b
      · subst same
        rw [Kernel.setBlock_blocks, Function.update_self] at key dirty
        have whole : addr = n := congrArg Prod.snd (onto.symm.trans key)
        subst whole
        exact ⟨c, hit, dirty, .inr rfl⟩
      · rw [Kernel.setBlock_blocks, Function.update_of_ne same] at key count dirty
        exact ⟨c, live c key count, dirty, .inl count⟩
    · rintro ⟨c, found, dirty, count⟩
      by_cases same : c = b
      · subst same
        refine ⟨c, ?_, ?_, ?_⟩
        · rw [Kernel.setBlock_blocks, Function.update_self]
          exact named c found
        · have one : ((k.blocks c).fill (k.disk (dev, addr))).bCount = 0 + 1 := congrArg (· + 1) idle
          rw [Kernel.setBlock_blocks, Function.update_self, one]
          decide
        · rw [Kernel.setBlock_blocks, Function.update_self]
          exact dirty
      · rcases count with used | rfl
        · refine ⟨c, ?_⟩
          rw [Kernel.setBlock_blocks, Function.update_of_ne same]
          exact ⟨named c found, used, dirty⟩
        · exact absurd (Option.some.inj (found.symm.trans hit)) same
  · have idle : (k.blocks b).bCount = 0 := ((free_block_some k b).mp unused).1
    constructor
    · rintro ⟨c, key, count, dirty⟩
      by_cases same : c = b
      · subst same
        rw [Kernel.unlock_blocks, Kernel.setBlock_blocks, Function.update_self] at dirty
        exact nomatch dirty
      · rw [Kernel.unlock_blocks, Kernel.setBlock_blocks, Function.update_of_ne same] at key count dirty
        exact ⟨c, live c key count, dirty, .inl count⟩
    · rintro ⟨c, found, dirty, used | rfl⟩
      · have other : c ≠ b := fun same => used (same ▸ idle)
        refine ⟨c, ?_⟩
        rw [Kernel.unlock_blocks, Kernel.setBlock_blocks, Function.update_of_ne other]
        exact ⟨named c found, used, dirty⟩
      · cases miss.symm.trans found

-- Nothing is written where the bit is, and nothing is marked: bfree is right where the block
-- is free already, in a bitmap block dirty already, and its half lies in the bitmap.
theorem bfree_right_iff (setPosAt : UInt8 → UInt64 → Option (Kernel → Kernel)) (harmless : Harmless setPosAt)
    (k t : Kernel) (dev : Dev) (blk : Blk) (r : Int) (first : LiveFirst k)
    (unheld : ∀ b, k.locks (.buf b) ≠ some k.current) (done : (bfree setPosAt dev blk).run k = .ok r t) :
    BfreeRight k t dev blk ↔
      blk.toNat / sizeofBitmap < (k.superblock dev).sFreeBlkLen.toNat ∧
        bitAt (k.contents (freeMapKey k dev blk)) (blk.toNat % bitsPerBlk) = true ∧ DirtyBefore k dev blk := by
  obtain ⟨b, read⟩ := bfree_leaves setPosAt harmless k t dev blk r unheld done
  have same := (bread_contents k t first dev _ b read).2.1
  have marked := bread_dirty_iff k t dev _ (freeMapKey k dev blk).2 b first read
  constructor
  · intro right
    have sets := right.sets
    rw [same] at sets
    exact ⟨(reads_in_map_iff k dev blk).mp right.reads, sets, marked.mp right.dirty⟩
  · rintro ⟨half, set, dirty⟩
    refine ⟨(reads_in_map_iff k dev blk).mpr half, ?_, fun n _ _ => ?_, fun key _ => ?_, marked.mpr dirty,
      fun other different => places_apart k dev blk other different⟩
    · rw [same]
      exact set
    · rw [same]
    · rw [same]

def lowMemory : UInt8 → UInt64 → Option (Kernel → Kernel) := fun _ _ => some id

theorem low_memory_harmless : Harmless lowMemory := by
  intro byte pos write wrote k
  obtain rfl := Option.some.inj wrote
  rfl

theorem bfree_run (k s : Kernel) (dev : Dev) (blk : Blk) (b : BufId)
    (read : (bread dev (bfreeAddr k dev blk)).run k = .ok b s) (unheld : s.locks (.buf b) ≠ some s.current) :
    (bfree lowMemory dev blk).run k = .ok 0 s := by
  have used := bread_counted k s dev _ b read
  have released : (brelease b).run s = .ok 0 s := by
    rw [brelease_run, if_neg used, if_neg unheld]
  rw [bfree_reads, EStateM.run_bind, read]
  change (bfreeBit lowMemory blk b).run s = _
  rw [bfreeBit, run_get_bind]
  simp only [lowMemory, EStateM.run_bind, EStateM.run_modify, id, released, EStateM.run_pure]

def freeMapOf (byte : UInt8) : Kernel :=
  (Kernel.zero.setBlock 0 ⟨Function.update zeroBlock 0 byte, 1, 20, true, 1⟩).setSuperblock 1 ⟨0, 20, 1, 0, 0⟩

theorem free_map_live (byte : UInt8) : LiveFirst (freeMapOf byte) := by
  intro c used
  by_cases same : c = 0
  · subst same
    exact (find_block_some _ _ _ 0).mpr ⟨rfl, fun d low => absurd low (Fin.not_lt_zero d)⟩
  · exact absurd (congrArg Buffer.bCount (Function.update_of_ne same _ Kernel.zero.blocks)) used

theorem free_map_used (byte : UInt8) : ((freeMapOf byte).blocks 0).bCount ≠ 0 := (by decide : (1 : UInt8) ≠ 0)

theorem free_map_found (byte : UInt8) : findBlock (freeMapOf byte) 1 20 = some 0 :=
  free_map_live byte 0 (free_map_used byte)

theorem free_map_contents (byte : UInt8) : (freeMapOf byte).contents (1, 20) = Function.update zeroBlock 0 byte :=
  contents_live (freeMapOf byte) (free_map_live byte) 0 (free_map_used byte)

theorem bfree_right_free : ∃ t, (bfree lowMemory 1 0).run (freeMapOf 1) = .ok 0 t ∧ BfreeRight (freeMapOf 1) t 1 0 := by
  have read := bread_held (freeMapOf 1) 1 20 0 rfl (free_map_found 1) (by decide)
  have done := bfree_run (freeMapOf 1) _ 1 0 0 read (fun held => nomatch held)
  refine ⟨_, done, (bfree_right_iff lowMemory low_memory_harmless _ _ 1 0 0 (free_map_live 1)
    (fun b held => nomatch held) done).mpr ⟨by decide, ?_, 0, free_map_found 1, rfl, .inl (by decide)⟩⟩
  exact (congrArg (fun data => bitAt data 0) (free_map_contents 1)).trans (by decide)

-- Block 5 is in use: bfree reads block 22, past the bitmap, and the bit stays clear.
theorem bfree_misses_map : ∃ t, (bfree lowMemory 1 5).run (freeMapOf 0) = .ok 0 t ∧
    ¬InFreeMap (freeMapOf 0) 1 (bfreeAddr (freeMapOf 0) 1 5) ∧
      bitAt (t.contents (freeMapKey (freeMapOf 0) 1 5)) 5 = false ∧ ¬BfreeRight (freeMapOf 0) t 1 5 := by
  have miss : findBlock (freeMapOf 0) 1 22 = none := by
    rw [find_block_none]
    intro c
    by_cases same : c = 0
    · subst same
      decide
    · have idle : ((freeMapOf 0).blocks c).key = (0, 0) :=
        congrArg Buffer.key (Function.update_of_ne same _ Kernel.zero.blocks)
      rw [idle]
      decide
  have unused : freeBlock (freeMapOf 0) = some 1 := by
    rw [free_block_some]
    refine ⟨rfl, fun c low => ?_⟩
    obtain rfl : c = 0 := Fin.ext (Nat.lt_one_iff.mp low)
    decide
  have read := bread_recycle (freeMapOf 0) 1 22 1 rfl miss unused
  have unheld := bread_unheld (freeMapOf 0) 1 _ 22 1 read (fun c held => nomatch held)
  have done := bfree_run (freeMapOf 0) _ 1 5 1 read unheld
  have same := (bread_contents (freeMapOf 0) _ (free_map_live 0) 1 22 1 read).2.1
  have outside : ¬InFreeMap (freeMapOf 0) 1 (bfreeAddr (freeMapOf 0) 1 5) := by
    rw [reads_in_map_iff]
    decide
  refine ⟨_, done, outside, ?_, fun right => outside right.reads⟩
  rw [same]
  exact (congrArg (fun data => bitAt data 5) (free_map_contents 0)).trans (by decide)

end Yaup
