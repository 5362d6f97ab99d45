import Yaup.Kernel
import Yaup.Lib.Bits

set_option autoImplicit false

namespace Yaup

open Lib

abbrev BitmapEntry := BitVec 16

def enospc : UInt64 := 28

section
variable (words : List BitmapEntry)

-- The while loop of get_free_pos, followed for so many turns. The pointer b is NULL (none) or
-- at a word of the bitmap; a read past the last word is one outside it.
def freePosLoop : Nat → Option Nat → Int32 → Except Halt (Option Nat × Int32)
  | 0, _, _ => throw .spins
  | _ + 1, none, i => return (none, i)
  | turns + 1, some p, i =>
      match words[p]? with
      | none => throw .fault
      | some entry =>
          if entry = 0 then freePosLoop turns (some (p + 1)) (i + 2) else freePosLoop turns (some p) i

def freeBit (entry : BitmapEntry) (i : Int32) (off : UInt64) : UInt64 :=
  (List.range 16).foldl
    (fun off j => if entry &&& (1 : BitmapEntry) <<< j ≠ 0 then (i + Int32.ofNat j).toInt64.toUInt64 else off) off

-- `unset` is what the locals i and off are before anything sets them.
def getFreePos (unset : Int32 × UInt64) (turns : Nat) (b : Option Nat) : Except Halt UInt64 := do
  let (b, i) ← freePosLoop words turns b unset.1
  match b with
  | none => return -enospc
  | some p =>
      match words[p]? with
      | none => throw .fault
      | some entry => return freeBit entry i unset.2

def SomeFree : Prop := ∃ p < 16 * words.length, bit words p = true

def FindsFreePos (unset : Int32 × UInt64) : Prop :=
  ∃ turns off, getFreePos words unset turns (some 0) = .ok off ∧
    (SomeFree words → off.toNat < 16 * words.length ∧ bit words off.toNat = true) ∧
      (¬SomeFree words → off = -enospc)

theorem free_pos_spins (turns p q : Nat) (i : Int32) (entry : BitmapEntry) (ahead : p ≤ q) (found : words[q]? = some entry)
    (nonzero : entry ≠ 0) : freePosLoop words turns (some p) i = .error .spins := by
  induction turns generalizing p i with
  | zero => rfl
  | succ turns ih =>
      have within : p < words.length := Nat.lt_of_le_of_lt ahead (List.getElem?_eq_some_iff.mp found).1
      rw [freePosLoop, List.getElem?_eq_getElem within]
      by_cases zero : words[p] = 0
      · have past : p ≠ q := by
          rintro rfl
          rw [List.getElem?_eq_getElem within] at found
          exact nonzero ((Option.some.inj found).symm.trans zero)
        simp only [if_pos zero]
        exact ih (p + 1) (i + 2) (Nat.lt_of_le_of_ne ahead past)
      · simp only [if_neg zero]
        exact ih p i ahead

theorem free_pos_faults (turns p : Nat) (i : Int32) (zeros : ∀ word ∈ words, word = 0) (reached : p ≤ words.length)
    (enough : words.length < p + turns) : freePosLoop words turns (some p) i = .error .fault := by
  induction turns generalizing p i with
  | zero => exact absurd (Nat.lt_of_lt_of_le enough reached) (Nat.lt_irrefl _)
  | succ turns ih =>
      rw [freePosLoop]
      by_cases within : p < words.length
      · simp only [List.getElem?_eq_getElem within, if_pos (zeros _ (List.getElem_mem within))]
        exact ih (p + 1) (i + 2) within (by omega)
      · rw [List.getElem?_eq_none (Nat.le_of_not_lt within)]
        rfl

theorem get_free_pos_spins (unset : Int32 × UInt64) (turns : Nat) (some_free : SomeFree words) :
    getFreePos words unset turns (some 0) = .error .spins := by
  obtain ⟨q, entry, found, nonzero⟩ : ∃ (q : Nat) (entry : BitmapEntry), words[q]? = some entry ∧ entry ≠ 0 := by
    by_contra nowhere
    obtain ⟨p, -, set⟩ := some_free
    have zeros : ∀ word ∈ words, word = 0 := by
      intro word here
      by_contra nonzero
      obtain ⟨q, found⟩ := List.getElem?_of_mem here
      exact nowhere ⟨q, word, found, nonzero⟩
    rw [all_clear words zeros p] at set
    exact Bool.false_ne_true set
  rw [getFreePos, free_pos_spins words turns 0 q unset.1 entry (Nat.zero_le q) found nonzero]
  rfl

theorem get_free_pos_faults (unset : Int32 × UInt64) (turns : Nat) (none_free : ¬SomeFree words)
    (enough : words.length < turns) : getFreePos words unset turns (some 0) = .error .fault := by
  have zeros : ∀ word ∈ words, word = 0 := by
    intro word here
    by_contra nonzero
    exact none_free (word_with_bit words word here nonzero)
  rw [getFreePos, free_pos_faults words turns 0 unset.1 zeros (Nat.zero_le _) (by omega)]
  rfl

theorem free_pos_endless (turns p : Nat) (i : Int32) (ended : Option Nat × Int32) :
    freePosLoop words turns (some p) i ≠ .ok ended := by
  induction turns generalizing p i with
  | zero => nofun
  | succ turns ih =>
      rw [freePosLoop]
      cases words[p]? with
      | none => nofun
      | some entry =>
          by_cases zero : entry = 0
          · simpa only [if_pos zero] using ih (p + 1) (i + 2)
          · simpa only [if_neg zero] using ih p i

theorem get_free_pos_endless (unset : Int32 × UInt64) (turns : Nat) (off : UInt64) :
    getFreePos words unset turns (some 0) ≠ .ok off := by
  intro done
  rw [getFreePos] at done
  cases loop : freePosLoop words turns (some 0) unset.1 with
  | error halt =>
      rw [loop] at done
      exact nomatch done
  | ok ended => exact free_pos_endless words turns 0 unset.1 ended loop

theorem get_free_pos_never (unset : Int32 × UInt64) :
    ¬FindsFreePos words unset ∧
      (SomeFree words → ∀ turns, getFreePos words unset turns (some 0) = .error .spins) ∧
      (¬SomeFree words → ∀ turns, words.length < turns → getFreePos words unset turns (some 0) = .error .fault) := by
  refine ⟨?_, fun free turns => get_free_pos_spins words unset turns free,
    fun none turns enough => get_free_pos_faults words unset turns none enough⟩
  rintro ⟨turns, off, done, -⟩
  exact get_free_pos_endless words unset turns off done

end

theorem first_entry_free : ¬FindsFreePos [1] (0, 0) :=
  fun ⟨turns, off, done, _⟩ => get_free_pos_endless [1] (0, 0) turns off done

-- pos / sizeof(*b)*8 and pos % sizeof(*b)*8, where sizeof(*b) is 2: the product comes after
-- the division, and the first is then cut to an int.
def entryIndex (pos : UInt64) : Int := Int.bmod (pos / 2 * 8).toNat 4294967296
def entryBit (pos : UInt64) : Nat := (pos % 2 * 8).toNat

section
variable (b : List BitmapEntry)

def orEntry (i : Int) (mask : BitVec 32) : Option (List BitmapEntry) :=
  if 0 ≤ i ∧ i < b.length then some (orAt b i.toNat (mask.setWidth 16)) else none

def setPos (pos : UInt64) : Option (List BitmapEntry) := orEntry b (entryIndex pos) (1#32 <<< entryBit pos)

def unsetPos (pos : UInt64) : Option (List BitmapEntry) := orEntry b (entryIndex pos) (~~~(1#32 <<< entryBit pos))

def SetsPos (pos : UInt64) : Prop :=
  ∃ c, setPos b pos = some c ∧ c.length = b.length ∧
    ∀ p < 16 * b.length, bit c p = (bit b p || decide (p = pos.toNat))

def ClearsPos (pos : UInt64) : Prop :=
  ∃ c, unsetPos b pos = some c ∧ c.length = b.length ∧
    ∀ p < 16 * b.length, bit c p = (bit b p && !decide (p = pos.toNat))

def RestoresPos (pos : UInt64) : Prop :=
  bit b pos.toNat = false → (setPos b pos).bind (unsetPos · pos) = some b

def Commute (f g : List BitmapEntry → Option (List BitmapEntry)) : Prop :=
  ∃ c, (f b).bind g = some c ∧ (g b).bind f = some c

def CommutePos (pos other : UInt64) : Prop :=
  ∀ f ∈ [setPos, unsetPos], ∀ g ∈ [setPos, unsetPos], Commute b (f · pos) (g · other)

def PosLaw (pos : UInt64) : Prop :=
  SetsPos b pos ∧ ClearsPos b pos ∧ RestoresPos b pos ∧
    ∀ other : UInt64, other ≠ pos → other.toNat < 16 * b.length → CommutePos b pos other

def InMap (pos : UInt64) : Prop := 0 ≤ entryIndex pos ∧ entryIndex pos < b.length

def touched (pos : UInt64) : Nat := 16 * (entryIndex pos).toNat + entryBit pos

theorem entry_bit_cases (pos : UInt64) : entryBit pos = if pos.toNat % 2 = 0 then 0 else 8 := by
  rw [entryBit, UInt64.toNat_mul, UInt64.toNat_mod]
  change pos.toNat % 2 * 8 % 2 ^ 64 = _
  rcases Nat.mod_two_eq_zero_or_one pos.toNat with even | odd
  · rw [even, if_pos rfl]
  · rw [odd, if_neg Nat.one_ne_zero]

theorem entry_bit_small (pos : UInt64) : entryBit pos < 16 := by
  rw [entry_bit_cases]
  split <;> decide

theorem bmod_natural (n : Nat) (natural : 0 ≤ Int.bmod (n : Int) 4294967296) :
    (Int.bmod (n : Int) 4294967296).toNat = n % 4294967296 := by
  rw [Int.bmod_def] at natural ⊢
  by_cases low : (n : Int) % (4294967296 : Nat) < ((4294967296 : Nat) + 1) / 2
  · rw [if_pos low]
    omega
  · rw [if_neg low] at natural
    omega

theorem entry_index_mod (pos : UInt64) : (pos / 2 * 8).toNat % 4294967296 = pos.toNat / 2 * 8 % 4294967296 := by
  rw [UInt64.toNat_mul, UInt64.toNat_div, Nat.mod_mod_of_dvd _ (by decide)]
  simp only [UInt64.reduceToNat]

theorem entry_index_natural (pos : UInt64) (natural : 0 ≤ entryIndex pos) :
    (entryIndex pos).toNat = pos.toNat / 2 * 8 % 4294967296 := by
  rw [← entry_index_mod]
  exact bmod_natural _ natural

theorem only_zero (m : Nat) (index : m = 64 * m % 4294967296) : m = 0 := by
  have low : m < 4294967296 := lt_of_eq_of_lt index (Nat.mod_lt _ (by decide))
  have parts := Nat.div_add_mod (64 * m) 4294967296
  rw [← index] at parts
  have multiple : ∀ turns, 4294967296 * turns + m = 64 * m → 63 * m = 4294967296 * turns := by
    intro turns whole
    rw [Nat.succ_mul 63 m] at whole
    exact (Nat.add_right_cancel whole).symm
  have coprime : Nat.Coprime 4294967296 63 := rfl
  exact Nat.eq_zero_of_dvd_of_lt (coprime.dvd_of_dvd_mul_left ⟨_, multiple _ parts⟩) low

theorem even_half (pos m : Nat) (itself : 16 * m + (if pos % 2 = 0 then 0 else 8) = pos) :
    pos = 16 * m ∧ pos / 2 * 8 = 64 * m := by
  by_cases even : pos % 2 = 0
  · rw [if_pos even] at itself
    omega
  · rw [if_neg even] at itself
    omega

theorem only_first (pos m : Nat) (index : m = pos / 2 * 8 % 4294967296)
    (itself : 16 * m + (if pos % 2 = 0 then 0 else 8) = pos) : pos = 0 := by
  obtain ⟨whole, half⟩ := even_half pos m itself
  rw [half] at index
  rw [whole, only_zero m index]

theorem touched_itself (pos : UInt64) (natural : 0 ≤ entryIndex pos) (itself : touched pos = pos.toNat) : pos = 0 := by
  have index := entry_index_natural pos natural
  rw [touched, entry_bit_cases] at itself
  exact UInt64.toNat_inj.mp (only_first pos.toNat _ index itself)

theorem entry_index_first : entryIndex 0 = 0 := by
  have zero : ((0 : UInt64) / 2 * 8).toNat = 0 := by decide
  unfold entryIndex
  rewrite [zero]
  exact Int.zero_bmod

theorem first_in_map (inside : (0 : UInt64).toNat < 16 * b.length) : InMap b 0 ∧ touched 0 = 0 := by
  have nonempty : 0 < b.length := Nat.pos_of_mul_pos_left inside
  rw [InMap, touched, entry_index_first, entry_bit_cases]
  exact ⟨⟨le_refl _, Int.natCast_pos.mpr nonempty⟩, rfl⟩

theorem set_mask (j k : Nat) (small : k < 16) :
    ((1#32 <<< j).setWidth 16).getLsbD k = decide (k = j) := by
  rw [BitVec.getLsbD_setWidth, BitVec.getLsbD_shiftLeft, BitVec.getLsbD_one]
  simp only [small, decide_true, Bool.true_and]
  grind

theorem unset_mask (j k : Nat) (small : k < 16) :
    ((~~~(1#32 <<< j)).setWidth 16).getLsbD k = !decide (k = j) := by
  rw [BitVec.getLsbD_setWidth, BitVec.getLsbD_not, BitVec.getLsbD_shiftLeft, BitVec.getLsbD_one]
  simp only [small, decide_true, Bool.true_and]
  grind

theorem touched_div (pos : UInt64) : touched pos / 16 = (entryIndex pos).toNat := by
  have small := entry_bit_small pos
  rw [touched]
  omega

theorem touched_mod (pos : UInt64) : touched pos % 16 = entryBit pos := by
  have small := entry_bit_small pos
  rw [touched]
  omega

theorem touched_iff (pos : UInt64) (p : Nat) :
    p = touched pos ↔ p / 16 = (entryIndex pos).toNat ∧ p % 16 = entryBit pos := by
  rw [← touched_div, ← touched_mod]
  omega

theorem or_entry_in_map (pos : UInt64) (mask : BitVec 32) (inMap : InMap b pos) :
    orEntry b (entryIndex pos) mask = some (orAt b (entryIndex pos).toNat (mask.setWidth 16)) := if_pos inMap

theorem or_entry_outside (pos : UInt64) (mask : BitVec 32) (outside : ¬InMap b pos) :
    orEntry b (entryIndex pos) mask = none := if_neg outside

theorem in_map_index (pos : UInt64) (inMap : InMap b pos) : (entryIndex pos).toNat < b.length := by
  obtain ⟨natural, within⟩ := inMap
  omega

theorem set_pos_in_map (pos : UInt64) (inMap : InMap b pos) :
    ∃ c, setPos b pos = some c ∧ c.length = b.length ∧ ∀ p, bit c p = (bit b p || decide (p = touched pos)) := by
  refine ⟨_, or_entry_in_map b pos _ inMap, or_at_length _ _ _, fun p => ?_⟩
  rw [bit_or_at b _ p _ (in_map_index b pos inMap), set_mask _ _ (Nat.mod_lt p (by decide)), ← Bool.decide_and]
  simp only [touched_iff]

theorem unset_pos_in_map (pos : UInt64) (inMap : InMap b pos) :
    ∃ c, unsetPos b pos = some c ∧ c.length = b.length ∧
      ∀ p, bit c p = (bit b p || (decide (p / 16 = (entryIndex pos).toNat) && !decide (p = touched pos))) := by
  refine ⟨_, or_entry_in_map b pos _ inMap, or_at_length _ _ _, fun p => ?_⟩
  rw [bit_or_at b _ p _ (in_map_index b pos inMap), unset_mask _ _ (Nat.mod_lt p (by decide))]
  by_cases inEntry : p / 16 = (entryIndex pos).toNat
  · simp only [touched_iff, inEntry, true_and]
  · simp only [inEntry, decide_false, Bool.false_and]

theorem touched_inside (pos : UInt64) (inMap : InMap b pos) : touched pos < 16 * b.length :=
  place_inside b.length _ _ (in_map_index b pos inMap) (entry_bit_small pos)

theorem zero_in_map (pos : UInt64) (inside : pos.toNat < 16 * b.length) (first : pos = 0) : InMap b pos := by
  rw [first] at inside ⊢
  exact (first_in_map b inside).1

theorem sets_pos_iff (pos : UInt64) (inside : pos.toNat < 16 * b.length) :
    SetsPos b pos ↔ pos = 0 ∨ (InMap b pos ∧ bit b (touched pos) = true ∧ bit b pos.toNat = true) := by
  by_cases inMap : InMap b pos
  · obtain ⟨c, done, same, bits⟩ := set_pos_in_map b pos inMap
    simp only [SetsPos, done, Option.some.injEq, exists_eq_left', same, true_and, bits, inMap]
    constructor
    · intro right
      by_cases first : pos = 0
      · exact .inl first
      · have apart : touched pos ≠ pos.toNat := fun itself => first (touched_itself pos inMap.1 itself)
        have taken := right _ (touched_inside b pos inMap)
        have asked := right _ inside
        simp only [apart, apart.symm, decide_true, decide_false, Bool.or_true, Bool.or_false] at taken asked
        exact .inr ⟨taken.symm, asked⟩
    · rintro (first | ⟨taken, asked⟩) p -
      · subst first
        rw [(first_in_map b inside).2]
        rfl
      · by_cases here : p = touched pos
        · rw [here, taken, Bool.true_or, Bool.true_or]
        · by_cases there : p = pos.toNat
          · rw [there, asked, Bool.true_or, Bool.true_or]
          · rw [decide_eq_false here, decide_eq_false there]
  · refine iff_of_false ?_ ?_
    · rintro ⟨c, done, -⟩
      rw [setPos, or_entry_outside b pos _ inMap] at done
      exact nomatch done
    · rintro (first | ⟨reached, -⟩)
      · exact inMap (zero_in_map b pos inside first)
      · exact inMap reached

-- An or clears nothing, so unset_pos is right only where there was nothing to clear, and
-- where the mask that should have spared the rest of the word finds it set.
theorem clears_pos_iff (pos : UInt64) (inside : pos.toNat < 16 * b.length) :
    ClearsPos b pos ↔ InMap b pos ∧ bit b pos.toNat = false ∧
      ∀ p, p / 16 = (entryIndex pos).toNat → p ≠ touched pos → bit b p = true := by
  by_cases inMap : InMap b pos
  · obtain ⟨c, done, same, bits⟩ := unset_pos_in_map b pos inMap
    have index := in_map_index b pos inMap
    simp only [ClearsPos, done, Option.some.injEq, exists_eq_left', same, true_and, bits, inMap]
    constructor
    · intro right
      have asked := right _ inside
      simp only [decide_true, Bool.not_true, Bool.and_false, Bool.or_eq_false_iff] at asked
      refine ⟨asked.1, fun p inEntry apart => ?_⟩
      have kept := right p (by omega)
      simp only [inEntry, apart, decide_true, decide_false, Bool.not_false, Bool.and_true, Bool.or_true] at kept
      exact (Bool.and_eq_true_iff.mp kept.symm).1
    · rintro ⟨clear, full⟩ p -
      by_cases there : p = pos.toNat
      · subst there
        by_cases inEntry : pos.toNat / 16 = (entryIndex pos).toNat
        · have itself : pos.toNat = touched pos := by
            by_contra apart
            rw [full _ inEntry apart] at clear
            exact Bool.noConfusion clear
          simp [clear, itself.symm]
        · simp [clear, inEntry]
      · by_cases spared : p / 16 = (entryIndex pos).toNat ∧ p ≠ touched pos
        · simp [full p spared.1 spared.2, there]
        · have outside : (decide (p / 16 = (entryIndex pos).toNat) && !decide (p = touched pos)) = false := by
            simpa using spared
          rw [outside, decide_eq_false there, Bool.or_false, Bool.not_false, Bool.and_true]
  · refine iff_of_false ?_ fun right => inMap right.1
    rintro ⟨c, done, -⟩
    rw [unsetPos, or_entry_outside b pos _ inMap] at done
    exact nomatch done

theorem set_unset_in_map (pos : UInt64) (inMap : InMap b pos) :
    ∃ c, (setPos b pos).bind (unsetPos · pos) = some c ∧ c.length = b.length ∧
      ∀ p, bit c p = (bit b p || decide (p / 16 = (entryIndex pos).toNat)) := by
  obtain ⟨mid, done, same, bits⟩ := set_pos_in_map b pos inMap
  have midInMap : InMap mid pos := by
    rw [InMap, same]
    exact inMap
  obtain ⟨c, undone, sameLen, after⟩ := unset_pos_in_map mid pos midInMap
  refine ⟨c, ?_, sameLen.trans same, fun p => ?_⟩
  · rw [done, Option.bind_some]
    exact undone
  · rw [after, bits]
    by_cases here : p = touched pos
    · have inEntry := ((touched_iff pos p).mp here).1
      simp [here, here ▸ inEntry]
    · rw [decide_eq_false here, Bool.or_false, Bool.not_false, Bool.and_true]

theorem restores_pos_iff (pos : UInt64) :
    RestoresPos b pos ↔ bit b pos.toNat = true ∨
      (InMap b pos ∧ ∀ p, p / 16 = (entryIndex pos).toNat → bit b p = true) := by
  by_cases set : bit b pos.toNat = true
  · exact iff_of_true (fun clear => Bool.noConfusion (set.symm.trans clear)) (.inl set)
  · rw [RestoresPos, or_iff_right set]
    have clear := Bool.eq_false_iff.mpr set
    by_cases inMap : InMap b pos
    · obtain ⟨c, done, same, bits⟩ := set_unset_in_map b pos inMap
      rw [done, Option.some.injEq, and_iff_right inMap]
      constructor
      · intro restored p inEntry
        rw [← restored clear, bits, decide_eq_true inEntry, Bool.or_true]
      · intro full _
        refine words_ext c b same fun p _ => ?_
        rw [bits]
        by_cases inEntry : p / 16 = (entryIndex pos).toNat
        · rw [full p inEntry, Bool.true_or]
        · rw [decide_eq_false inEntry, Bool.or_false]
    · refine iff_of_false (fun restored => ?_) fun right => inMap right.1
      have done := restored clear
      rw [setPos, or_entry_outside b pos _ inMap] at done
      exact nomatch done

theorem or_entries (i n : Int) (mask other : BitVec 32) :
    (orEntry b i mask).bind (orEntry · n other) =
      if (0 ≤ i ∧ i < b.length) ∧ 0 ≤ n ∧ n < b.length then
        some (orAt (orAt b i.toNat (mask.setWidth 16)) n.toNat (other.setWidth 16))
      else none := by
  by_cases inMap : 0 ≤ i ∧ i < b.length
  · rw [orEntry, if_pos inMap, Option.bind_some, orEntry, or_at_length]
    simp only [inMap, true_and]
  · rw [orEntry, if_neg inMap, Option.bind_none, if_neg fun both => inMap both.1]

theorem or_entries_commute (i n : Int) (mask other : BitVec 32) :
    Commute b (orEntry · i mask) (orEntry · n other) ↔ (0 ≤ i ∧ i < b.length) ∧ 0 ≤ n ∧ n < b.length := by
  rw [Commute, or_entries, or_entries]
  by_cases both : (0 ≤ i ∧ i < b.length) ∧ 0 ≤ n ∧ n < b.length
  · rw [if_pos both, if_pos both.symm, or_at_comm b i.toNat n.toNat _ _ (by omega) (by omega)]
    exact iff_of_true ⟨_, rfl, rfl⟩ both
  · rw [if_neg both]
    exact iff_of_false (fun ⟨_, done, _⟩ => nomatch done) both

theorem commute_pos_iff (pos other : UInt64) : CommutePos b pos other ↔ InMap b pos ∧ InMap b other := by
  have each := fun mask otherMask => or_entries_commute b (entryIndex pos) (entryIndex other) mask otherMask
  constructor
  · intro all
    exact (each _ _).mp (all setPos (.head _) setPos (.head _))
  · intro both f updates g otherUpdates
    simp only [List.mem_cons, List.not_mem_nil, or_false] at updates otherUpdates
    rcases updates with rfl | rfl <;> rcases otherUpdates with rfl | rfl <;> exact (each _ _).mpr both

theorem pos_law_never (pos : UInt64) (inside : pos.toNat < 16 * b.length) : ¬PosLaw b pos := by
  rintro ⟨sets, clears, restores, -⟩
  have clear := ((clears_pos_iff b pos inside).mp clears).2.1
  rcases (sets_pos_iff b pos inside).mp sets with first | ⟨-, -, set⟩
  · rcases (restores_pos_iff b pos).mp restores with set | ⟨inMap, full⟩
    · exact Bool.noConfusion (set.symm.trans clear)
    · have inEntry : pos.toNat / 16 = (entryIndex pos).toNat := by
        rw [first, entry_index_first]
        rfl
      exact Bool.noConfusion ((full _ inEntry).symm.trans clear)
  · exact Bool.noConfusion (set.symm.trans clear)

theorem set_unset_pos_exact (pos : UInt64) (inside : pos.toNat < 16 * b.length) :
    ¬PosLaw b pos ∧
      (SetsPos b pos ↔ pos = 0 ∨ (InMap b pos ∧ bit b (touched pos) = true ∧ bit b pos.toNat = true)) ∧
      (ClearsPos b pos ↔ InMap b pos ∧ bit b pos.toNat = false ∧
        ∀ p, p / 16 = (entryIndex pos).toNat → p ≠ touched pos → bit b p = true) ∧
      (RestoresPos b pos ↔ bit b pos.toNat = true ∨
        (InMap b pos ∧ ∀ p, p / 16 = (entryIndex pos).toNat → bit b p = true)) ∧
      ∀ other, CommutePos b pos other ↔ InMap b pos ∧ InMap b other :=
  ⟨pos_law_never b pos inside, sets_pos_iff b pos inside, clears_pos_iff b pos inside, restores_pos_iff b pos,
    commute_pos_iff b pos⟩

end

theorem set_unset_pos_exact_one : (1 : UInt64).toNat < 16 * [(0 : BitmapEntry)].length ∧ ¬PosLaw [(0 : BitmapEntry)] 1 :=
  ⟨by decide, (set_unset_pos_exact [0] 1 (by decide)).1⟩

theorem pos_one_of_one_word : setPos [0] 1 = some [256] ∧ unsetPos [2] 1 = some [65279] ∧
    ¬SetsPos [0] 1 ∧ ¬ClearsPos [2] 1 ∧ ¬PosLaw [0] 1 := by
  have set : setPos [0] 1 = some [256] := by decide +kernel
  have unset : unsetPos [2] 1 = some [65279] := by decide +kernel
  have noSet : ¬SetsPos [0] 1 := by
    rintro ⟨c, done, -, bits⟩
    obtain rfl := Option.some.inj (set.symm.trans done)
    exact absurd (bits 1 (by decide)) (by decide)
  refine ⟨set, unset, noSet, ?_, fun law => noSet law.1⟩
  rintro ⟨c, done, -, bits⟩
  obtain rfl := Option.some.inj (unset.symm.trans done)
  exact absurd (bits 0 (by decide)) (by decide)

end Yaup
