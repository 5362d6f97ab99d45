import Yaup.Alloc
import Yaup.Contents

set_option autoImplicit false

namespace Yaup

open Lib

def bitsPerBlk : Nat := 8 * blkSz

-- Bit j of a bitmap block. An entry has 16 bits, the low byte first, so this is bit j % 16
-- of entry j / 16.
def bitAt (data : Block) (j : Nat) : Bool := (data (Fin.ofNat blkSz (j / 8))).toNat.testBit (j % 8)

def SomeBit (data : Block) : Prop := ∃ j < bitsPerBlk, bitAt data j = true

def bitmapKey (dev : Dev) (first : Blk) (n : Nat) : Dev × Blk := (dev, first + UInt64.ofNat (n / bitsPerBlk))

def MarkedFree (k : Kernel) (dev : Dev) (first : Blk) (len : UInt64) (n : Nat) : Prop :=
  n / bitsPerBlk < len.toNat ∧ bitAt (k.contents (bitmapKey dev first n)) (n % bitsPerBlk) = true

-- get_free_pos by its contract, over a whole block; off_t is unsigned, and -ENOSPC is in
-- its upper half.
structure FindsFree (getFreePos : Block → UInt64) : Prop where
  found : ∀ data, SomeBit data → (getFreePos data).toNat < bitsPerBlk ∧ bitAt data (getFreePos data).toNat = true
  full : ∀ data, ¬SomeBit data → 2 ^ 63 ≤ (getFreePos data).toNat

theorem none_marked (k : Kernel) (dev : Dev) (first : Blk) (n : Nat) : ¬MarkedFree k dev first 0 n :=
  fun marked => Nat.not_lt_zero _ marked.1

theorem marked_same (k t : Kernel) (dev : Dev) (first : Blk) (len : UInt64) (n : Nat)
    (shown : t.contents (bitmapKey dev first n) = k.contents (bitmapKey dev first n))
    (marked : MarkedFree k dev first len n) : MarkedFree t dev first len n := by
  obtain ⟨within, set⟩ := marked
  rw [← shown] at set
  exact ⟨within, set⟩

theorem bread_shows (k t : Kernel) (dev : Dev) (blk : Blk) (b : BufId) (done : (bread dev blk).run k = .ok b t) :
    (t.blocks b).bData = k.contents (dev, blk) := by
  rw [Kernel.contents]
  obtain ⟨-, ⟨hit, used, rfl⟩ | ⟨hit, idle, rfl⟩ | ⟨miss, unused, rfl⟩⟩ := bread_cases k t dev blk b done
  · rw [hit, Kernel.shown, if_neg used]
  · rw [hit, Kernel.shown, if_pos idle]
    simp [Buffer.fill]
  · rw [miss, Kernel.shown]
    simp [Buffer.fill, Buffer.rekey]

end Yaup
