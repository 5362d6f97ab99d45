import Yaup.BlockFrame
import Yaup.Bitmap
import Yaup.InodeRefs

set_option autoImplicit false

namespace Yaup

open Lib

def FreeBlock (k : Kernel) (dev : Dev) (blk : Blk) : Prop :=
  MarkedFree k dev (k.superblock dev).sFreeBlk (k.superblock dev).sFreeBlkLen blk.toNat

section
variable (getFreePosAt : Kernel → UInt8 → Option UInt64) (setPosAt : UInt8 → UInt64 → Option (Kernel → Kernel))

def Allocates (dev : Dev) (k t : Kernel) : Option BufId → Prop
  | some b => (t.blocks b).bDev = dev ∧ FreeBlock k dev (t.blocks b).bBlk ∧ ¬FreeBlock t dev (t.blocks b).bBlk
  | none => ∀ blk, ¬FreeBlock k dev blk

def BallocRight (unset : Option BufId) (dev : Dev) (k : Kernel) : Prop :=
  ∃ turns answer t, (balloc getFreePosAt unset turns dev).run k = .ok answer t ∧ Allocates dev k t answer

theorem balloc_scan_frame (dev : Dev) (b : BufId) (left : Nat) (k t : Kernel) (c : BufId)
    (done : (ballocScan getFreePosAt dev b left).run k = .ok c t) : BufferFrame k t := by
  induction left with
  | zero =>
      cases done
      exact buffer_frame_refl _
  | succ left ih =>
      rw [ballocScan, run_get_bind] at done
      split at done
      · cases done
      · split at done
        · exact bget_frame k t dev _ c done
        · exact ih done

theorem balloc_loop_spins (dev : Dev) (turns : Nat) (b answer : Option BufId) (k t : Kernel)
    (some : 0 < (k.superblock dev).sFreeBlkLen) : (ballocLoop getFreePosAt dev 0 turns b).run k ≠ .ok answer t := by
  induction turns generalizing b k with
  | zero =>
      intro done
      cases done
  | succ turns ih =>
      intro done
      rw [ballocLoop, run_get_bind, if_pos some] at done
      obtain ⟨c, s, read, rest⟩ := (run_bind_ok _ _ _ _ _).mp done
      obtain ⟨d, u, scanned, rest⟩ := (run_bind_ok _ _ _ _ _).mp rest
      have frame := buffer_frame_trans k s u (bread_frame k s dev _ c read)
        (balloc_scan_frame getFreePosAt dev c blkSz s u d scanned)
      exact ih _ u (by rw [frame.superblock]; exact some) rest

theorem balloc_empty (unset : Option BufId) (dev : Dev) (turns : Nat) (k : Kernel)
    (empty : (k.superblock dev).sFreeBlkLen = 0) :
    (balloc getFreePosAt unset (turns + 1) dev).run k = .ok unset k := by
  have past : ¬(0 : UInt64) < (k.superblock dev).sFreeBlkLen := by
    rw [empty]
    exact UInt64.lt_irrefl 0
  rw [balloc, ballocLoop, run_get_bind, if_neg past]
  rfl

theorem balloc_returns (unset answer : Option BufId) (dev : Dev) (turns : Nat) (k t : Kernel)
    (done : (balloc getFreePosAt unset turns dev).run k = .ok answer t) :
    (k.superblock dev).sFreeBlkLen = 0 ∧ answer = unset ∧ t = k := by
  by_cases empty : (k.superblock dev).sFreeBlkLen = 0
  · cases turns with
    | zero => cases done
    | succ turns =>
        rw [balloc_empty getFreePosAt unset dev turns k empty] at done
        cases done
        exact ⟨empty, rfl, rfl⟩
  · exact absurd done (balloc_loop_spins getFreePosAt dev turns unset answer k t (UInt64.pos_iff_ne_zero.mpr empty))

theorem balloc_right_iff (unset : Option BufId) (dev : Dev) (k : Kernel) :
    BallocRight getFreePosAt unset dev k ↔ (k.superblock dev).sFreeBlkLen = 0 ∧ unset = none := by
  constructor
  · rintro ⟨turns, answer, t, done, right⟩
    obtain ⟨empty, rfl, rfl⟩ := balloc_returns getFreePosAt unset answer dev turns k t done
    refine ⟨empty, ?_⟩
    cases answer with
    | none => rfl
    | some b =>
        have marked := right.2.1
        rw [FreeBlock, empty] at marked
        exact absurd marked (none_marked _ _ _ _)
  · rintro ⟨empty, rfl⟩
    refine ⟨1, none, k, balloc_empty getFreePosAt none dev 0 k empty, fun blk => ?_⟩
    rw [FreeBlock, empty]
    exact none_marked _ _ _ _

end

inductive BlockAct where
  | balloc (p : Pid) (w : Wild) (unset : Option BufId) (dev : Dev) (answer : Option BufId)
  | bfree (p : Pid) (w : Wild) (dev : Dev) (blk : Blk)

inductive BlockStep (getFreePosAt : Kernel → UInt8 → Option UInt64)
    (setPosAt : UInt8 → UInt64 → Option (Kernel → Kernel)) : Kernel → BlockAct → Kernel → Prop where
  | balloc (k t : Kernel) (p : Pid) (w : Wild) (unset : Option BufId) (dev : Dev) (turns : Nat) (answer : Option BufId)
      (done : (balloc getFreePosAt unset turns dev).run (begun k p w) = .ok answer t) :
      BlockStep getFreePosAt setPosAt k (.balloc p w unset dev answer) t
  | bfree (k t : Kernel) (p : Pid) (w : Wild) (dev : Dev) (blk : Blk) (r : Int)
      (done : (bfree setPosAt dev blk).run (begun k p w) = .ok r t) :
      BlockStep getFreePosAt setPosAt k (.bfree p w dev blk) t

-- The device has no bitmap block, and the unset local happens to be NULL.
def NoBitmap (k : Kernel) : BlockAct → Prop
  | .balloc _ _ unset dev _ => (k.superblock dev).sFreeBlkLen = 0 ∧ unset = none
  | .bfree _ _ _ _ => True

def NeverTwice : List (Dev × Blk) → List (Move Kernel BlockAct) → Prop
  | _, [] => True
  | live, move :: rest =>
      match move.act with
      | .balloc _ _ _ _ none => NeverTwice live rest
      | .balloc _ _ _ _ (some b) =>
          (move.after.blocks b).key ∉ live ∧ NeverTwice ((move.after.blocks b).key :: live) rest
      | .bfree _ _ dev blk => NeverTwice (live.filter (· ≠ (dev, blk))) rest

section
variable (getFreePosAt : Kernel → UInt8 → Option UInt64) (setPosAt : UInt8 → UInt64 → Option (Kernel → Kernel))

theorem no_bitmap_never_twice (first last : Kernel) (moves : List (Move Kernel BlockAct))
    (run : Run (BlockStep getFreePosAt setPosAt) first moves last) (live : List (Dev × Blk))
    (guarded : ∀ move ∈ moves, NoBitmap move.before move.act) : NeverTwice live moves := by
  induction run generalizing live with
  | nil => trivial
  | cons before after final act moves taken rest ih =>
      have later := fun live => ih live fun move member => guarded move (List.mem_cons_of_mem _ member)
      have here : NoBitmap before act := guarded ⟨before, act, after⟩ List.mem_cons_self
      cases taken with
      | balloc t p w unset dev turns answer done =>
          obtain ⟨-, rfl⟩ := here
          obtain ⟨-, rfl, -⟩ := balloc_returns getFreePosAt none answer dev turns _ after done
          exact later live
      | bfree t p w dev blk r done => exact later _

theorem ballocs_right_iff (first last : Kernel) (moves : List (Move Kernel BlockAct))
    (run : Run (BlockStep getFreePosAt setPosAt) first moves last) :
    Throughout (fun k => ∀ p w unset dev, BallocRight getFreePosAt unset dev (begun k p w) ↔
        (k.superblock dev).sFreeBlkLen = 0 ∧ unset = none) moves last ∧
      ((∀ move ∈ moves, NoBitmap move.before move.act) → NeverTwice [] moves) := by
  refine ⟨⟨fun _ _ p w unset dev => ?_, fun p w unset dev => ?_⟩, ?_⟩
  · exact balloc_right_iff getFreePosAt unset dev _
  · exact balloc_right_iff getFreePosAt unset dev _
  · exact no_bitmap_never_twice getFreePosAt setPosAt first last moves run []

end

def allFree : Kernel := (Kernel.zero.setDisk (1, 2) fun _ => 255).setSuperblock 1 ⟨0, 2, 1, 0, 0⟩

theorem all_free_block : FreeBlock allFree 1 7 := by
  refine ⟨by decide, ?_⟩
  have key : bitmapKey 1 (allFree.superblock 1).sFreeBlk (7 : Blk).toNat = (1, 2) := by
    simp [allFree, bitmapKey]
    decide
  rw [key, contents_idle allFree (1, 2) fun _ _ => rfl]
  simp [allFree, bitAt]
  decide

theorem balloc_never_ends :
    FreeBlock allFree 1 7 ∧ ¬BallocRight (fun _ _ => some 7) none 1 allFree := by
  refine ⟨all_free_block, fun right => ?_⟩
  have empty := ((balloc_right_iff _ none 1 allFree).mp right).1
  simp [allFree] at empty

theorem ballocs_right_no_bitmap :
    ∃ (moves : List (Move Kernel BlockAct)) (last : Kernel), moves.length = 1 ∧
      Run (BlockStep (fun _ _ => some 7) fun _ _ => none) Kernel.zero moves last ∧
      Throughout (fun k => ∀ p w unset dev, BallocRight (fun _ _ => some 7) unset dev (begun k p w) ↔
        (k.superblock dev).sFreeBlkLen = 0 ∧ unset = none) moves last ∧ NeverTwice [] moves := by
  have done := balloc_empty (fun _ _ => some 7) none 1 0 (begun Kernel.zero 0 Kernel.zero.wild) rfl
  have step : BlockStep (fun _ _ => some 7) (fun _ _ => none) Kernel.zero (.balloc 0 Kernel.zero.wild none 1 none) _ :=
    .balloc _ _ _ _ _ _ _ _ done
  have run := Run.cons _ _ _ _ _ step (.nil _)
  obtain ⟨right, once⟩ := ballocs_right_iff _ _ _ _ _ run
  exact ⟨_, _, rfl, run, right, once (by simp [NoBitmap, Kernel.zero])⟩

end Yaup
