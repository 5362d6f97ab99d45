import Mathlib.Logic.Function.Iterate
import Mathlib.Data.List.Basic

set_option autoImplicit false

namespace Yaup

abbrev Memory := BitVec 64 → BitVec 8

def storeInt (memory : Memory) (place : BitVec 64) (c : BitVec 32) : Memory := fun address =>
  let offset := address - place
  if offset < 4 then c.extractLsb' (8 * offset.toNat) 8 else memory address

structure Filling where
  memory : Memory
  sz : BitVec 64

inductive MemsetRun where
  | running (now : Filling)
  | returned (memory : Memory)

-- The body of memset's loop, behind --sz: *((int*)dst+sz) = c.
def memsetTurn (dst : BitVec 64) (c : BitVec 32) (now : Filling) : Filling :=
  let sz := now.sz - 1
  { memory := storeInt now.memory (dst + 4 * sz) c, sz }

-- while (--sz >= 0), for so many turns.
def memsetLoop (dst : BitVec 64) (c : BitVec 32) : Nat → Filling → MemsetRun
  | 0, now => .running now
  | turns + 1, now => if now.sz - 1 ≥ 0 then memsetLoop dst c turns (memsetTurn dst c now) else .returned now.memory

def memset (turns : Nat) (dst : BitVec 64) (c : BitVec 32) (sz : BitVec 64) (memory : Memory) : MemsetRun :=
  memsetLoop dst c turns { memory, sz }

def byteArg (c : BitVec 8) : BitVec 32 := c.setWidth 32

def Filled (dst : BitVec 64) (c : BitVec 8) (sz : BitVec 64) (before after : Memory) : Prop :=
  ∀ address, after address = if address - dst < sz then c else before address

def MemsetRight (dst : BitVec 64) (c : BitVec 8) (sz : BitVec 64) (before : Memory) : Prop :=
  ∃ turns after, memset turns dst (byteArg c) sz before = .returned after ∧ Filled dst c sz before after

theorem memset_loop_runs (dst : BitVec 64) (c : BitVec 32) (turns : Nat) (now : Filling) :
    memsetLoop dst c turns now = .running ((memsetTurn dst c)^[turns] now) := by
  induction turns generalizing now with
  | zero => rfl
  | succ turns ih => rw [memsetLoop, if_pos (BitVec.le_def.mpr (Nat.zero_le _)), ih, Function.iterate_succ_apply]

theorem memset_turns_sz (dst : BitVec 64) (c : BitVec 32) (turns : Nat) (now : Filling) :
    ((memsetTurn dst c)^[turns] now).sz = now.sz - BitVec.ofNat 64 turns := by
  induction turns with
  | zero => simp
  | succ turns ih =>
      rw [Function.iterate_succ_apply', memsetTurn]
      show ((memsetTurn dst c)^[turns] now).sz - 1 = _
      rw [ih]
      bv_omega

theorem store_int_top (memory : Memory) (place : BitVec 64) (c : BitVec 32) :
    storeInt memory place c (place + 3) = c.extractLsb' 24 8 := by
  have offset : place + 3 - place = 3 := by bv_omega
  unfold storeInt
  rw [offset]
  rfl

-- When all sz indices are done the next one is -1, the int in front of dst.
theorem memset_before_dst (dst : BitVec 64) (c : BitVec 32) (sz : BitVec 64) (memory : Memory) :
    ∃ now, memset (sz.toNat + 1) dst c sz memory = .running now ∧ now.memory (dst - 1) = c.extractLsb' 24 8 := by
  refine ⟨_, memset_loop_runs dst c (sz.toNat + 1) _, ?_⟩
  rw [Function.iterate_succ_apply', memsetTurn]
  have done : ((memsetTurn dst c)^[sz.toNat] { memory, sz }).sz = 0 := by
    rw [memset_turns_sz]
    bv_omega
  have place : dst - 1 = dst + 4 * (0 - 1) + 3 := by bv_omega
  simp only [done]
  rw [place]
  exact store_int_top _ _ c

theorem memset_never (dst : BitVec 64) (c : BitVec 8) (sz : BitVec 64) (before : Memory) :
    ¬MemsetRight dst c sz before ∧
      ∃ turns now, memset turns dst (byteArg c) sz before = .running now ∧ now.memory (dst - 1) = 0 := by
  constructor
  · rintro ⟨turns, after, returned, _⟩
    rw [memset, memset_loop_runs] at returned
    cases returned
  · obtain ⟨now, run, stored⟩ := memset_before_dst dst (byteArg c) sz before
    refine ⟨_, now, run, stored.trans ?_⟩
    ext bit inside
    have beyond : c.getLsbD (24 + bit) = false := BitVec.getLsbD_of_ge c _ (by omega)
    simp [byteArg, beyond]

theorem memset_eight_fails : ¬MemsetRight 4096 0 8 fun _ => 1 := by
  rintro ⟨turns, after, returned, _⟩
  rw [memset, memset_loop_runs] at returned
  cases returned

end Yaup
