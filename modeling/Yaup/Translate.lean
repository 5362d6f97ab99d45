import Mathlib.Data.List.Nodup
import Mathlib.Data.List.Perm.Basic
import Yaup.Cksum
import Yaup.Lib.Chains

set_option autoImplicit false

namespace Yaup.Busybox

open Lib

-- The inner loop, from some i on; c is an int, and a char that is stored in it may be negative.
def translateByte (signed : Bool) : Bytes → Bytes → UInt32 → UInt32
  | s :: str1, d :: str2, c => translateByte signed str1 str2 (if c = charInt signed s then charInt signed d else c)
  | _, _, c => c

def einval : Int := 22

def translate (signed : Bool) (fp str1 str2 : Bytes) : Except Int Bytes :=
  if str1.length ≠ str2.length then .error einval
  else .ok (fp.map fun c => (translateByte signed str1 str2 c.toUInt32).toUInt8)

def subst (str1 str2 : Bytes) (byte : UInt8) : UInt8 := str2[str1.idxOf byte]?.getD byte

structure TranslateRight (signed : Bool) (fp str1 str2 : Bytes) : Prop where
  once : translate signed fp str1 str2 = .ok (fp.map (subst str1 str2))
  back : str2.Perm str1 → translate signed (fp.map (subst str1 str2)) str2 str1 = .ok fp

-- The character that place i puts in is taken up again at the later place k.
def Link (str1 str2 : Bytes) (i k : Nat) : Prop := i < k ∧ ∃ c, str2[i]? = some c ∧ str1[k]? = some c

def HighChar (signed : Bool) (byte : UInt8) : Prop := signed = true ∧ 128 ≤ byte

-- A byte of str1 ends as what its own place puts in; one that is negative as a char is not
-- found, and has to be its own replacement.
def PairsGuard (signed : Bool) (fp str1 str2 : Bytes) : Prop :=
  ∀ byte ∈ fp, ∀ i : Nat, str1[i]? = some byte →
    (HighChar signed byte → str2[i]? = some byte) ∧
    (¬HighChar signed byte → ∀ e, LastLink (Link str1 str2) i e → str2[e]? = str2[i]?)

theorem char_int_byte (signed : Bool) (byte : UInt8) : (charInt signed byte).toUInt8 = byte := by
  refine UInt8.toBitVec_inj.mp (BitVec.eq_of_getLsbD_eq fun i low => ?_)
  have bits := congrArg (fun x => BitVec.getLsbD x i) (char_low signed byte)
  simp only [masked_bit 8 _ _ low_byte_mask, decide_eq_true low, Bool.and_true] at bits
  change ((charInt signed byte).toBitVec.setWidth 8).getLsbD i = _
  rw [BitVec.getLsbD_setWidth, decide_eq_true low, Bool.true_and, bits]
  change (byte.toBitVec.setWidth 32).getLsbD i = _
  rw [BitVec.getLsbD_setWidth, decide_eq_true (by omega), Bool.true_and]

theorem char_int_injective (signed : Bool) : Function.Injective (charInt signed) := by
  intro a b same
  rw [← char_int_byte signed a, same, char_int_byte]

theorem char_int_plain (signed : Bool) (byte : UInt8) (low : ¬HighChar signed byte) : charInt signed byte = byte.toUInt32 :=
  if_neg low

theorem char_int_high (signed : Bool) (byte s : UInt8) (high : HighChar signed byte) : byte.toUInt32 ≠ charInt signed s := by
  intro same
  have equal : byte = s := by rw [← char_int_byte signed s, ← same, UInt8.toUInt8_toUInt32]
  subst equal
  rw [charInt, if_pos (show signed = true ∧ 128 ≤ byte from high)] at same
  have bits := congrArg (fun x => BitVec.getLsbD (UInt32.toBitVec x) 31) same
  change (byte.toBitVec.setWidth 32).getLsbD 31 = (0xffffff00#32 ||| _).getLsbD 31 at bits
  rw [BitVec.getLsbD_setWidth, BitVec.getLsbD_or, BitVec.getLsbD_of_ge byte.toBitVec 31 (by decide)] at bits
  simp at bits

def follow : Bytes → Bytes → UInt8 → UInt8
  | s :: str1, d :: str2, c => follow str1 str2 (if c = s then d else c)
  | _, _, c => c

theorem translate_byte_follow (signed : Bool) (str1 str2 : Bytes) (c : UInt8) :
    translateByte signed str1 str2 (charInt signed c) = charInt signed (follow str1 str2 c) := by
  induction str1 generalizing str2 c with
  | nil => rfl
  | cons s str1 ih =>
      cases str2 with
      | nil => rfl
      | cons d str2 =>
          rw [translateByte, follow, ← ih]
          by_cases here : c = s
          · rw [if_pos here, if_pos (congrArg (charInt signed) here)]
          · rw [if_neg here, if_neg fun same => here (char_int_injective signed same)]

theorem translate_byte_high (signed : Bool) (str1 str2 : Bytes) (byte : UInt8) (high : HighChar signed byte) :
    translateByte signed str1 str2 byte.toUInt32 = byte.toUInt32 := by
  induction str1 generalizing str2 with
  | nil => rfl
  | cons s str1 ih =>
      cases str2 with
      | nil => rfl
      | cons d str2 =>
          rw [translateByte, if_neg (char_int_high signed byte s high)]
          exact ih str2

theorem written_byte (signed : Bool) (str1 str2 : Bytes) (byte : UInt8) :
    (HighChar signed byte ∧ (translateByte signed str1 str2 byte.toUInt32).toUInt8 = byte) ∨
    (¬HighChar signed byte ∧ (translateByte signed str1 str2 byte.toUInt32).toUInt8 = follow str1 str2 byte) := by
  by_cases high : HighChar signed byte
  · exact .inl ⟨high, by rw [translate_byte_high signed str1 str2 byte high, UInt8.toUInt8_toUInt32]⟩
  · refine .inr ⟨high, ?_⟩
    rw [← char_int_plain signed byte high, translate_byte_follow, char_int_byte]

theorem follow_absent (str1 str2 : Bytes) (c : UInt8) (absent : c ∉ str1) : follow str1 str2 c = c := by
  induction str1 generalizing str2 with
  | nil => rfl
  | cons s str1 ih =>
      cases str2 with
      | nil => rfl
      | cons d str2 =>
          rw [follow, if_neg (List.ne_of_not_mem_cons absent)]
          exact ih str2 (List.not_mem_of_not_mem_cons absent)

theorem follow_append (front1 front2 str1 str2 : Bytes) (c : UInt8) (same : front1.length = front2.length) :
    follow (front1 ++ str1) (front2 ++ str2) c = follow str1 str2 (follow front1 front2 c) := by
  induction front1 generalizing front2 c with
  | nil =>
      cases front2 with
      | nil => rfl
      | cons d front2 => cases same
  | cons s front1 ih =>
      cases front2 with
      | nil => cases same
      | cons d front2 => exact ih front2 _ (Nat.succ_inj.mp same)

theorem list_place (list : Bytes) (i : Nat) (c : UInt8) (here : list[i]? = some c) :
    ∃ front rest, list = front ++ c :: rest ∧ front.length = i := by
  obtain ⟨inside, rfl⟩ := List.getElem?_eq_some_iff.mp here
  refine ⟨list.take i, list.drop (i + 1), ?_, List.length_take_of_le inside.le⟩
  rw [← List.drop_eq_getElem_cons inside, List.take_append_drop]

theorem link_nearer (str1 str2 : Bytes) (i k : Nat) (link : Link str1 str2 i k) : str1.length - k < str1.length - i := by
  obtain ⟨later, c, -, taken⟩ := link
  have inside := (List.getElem?_eq_some_iff.mp taken).1
  omega

section
variable (str1 str2 : Bytes) (same : str1.length = str2.length) (distinct : str1.Nodup)

include same distinct

theorem follow_place (c : UInt8) (m i : Nat) (before : m ≤ i) (here : str1[i]? = some c) :
    ∃ d, str2[i]? = some d ∧
      follow (str1.drop m) (str2.drop m) c = follow (str1.drop (i + 1)) (str2.drop (i + 1)) d := by
  obtain ⟨front1, rest1, rfl, rfl⟩ := list_place str1 i c here
  obtain ⟨d, there⟩ : ∃ d, str2[front1.length]? = some d :=
    ⟨_, List.getElem?_eq_getElem (by rw [← same]; simp)⟩
  obtain ⟨front2, rest2, rfl, length⟩ := list_place str2 _ d there
  have absent : c ∉ front1.drop m := fun member =>
    (List.nodup_middle.mp distinct).notMem (List.mem_append_left _ (List.mem_of_mem_drop member))
  refine ⟨d, there, ?_⟩
  rw [List.drop_append_of_le_length before, List.drop_append_of_le_length (length ▸ before),
    follow_append _ _ _ _ _ (by rw [List.length_drop, List.length_drop, length]), follow_absent _ _ c absent, follow, if_pos rfl]
  have behind1 : (front1 ++ c :: rest1).drop (front1.length + 1) = rest1 := by simp
  have behind2 : (front2 ++ d :: rest2).drop (front1.length + 1) = rest2 := by simp [← length]
  rw [behind1, behind2]

theorem follow_ends (i e : Nat) (c : UInt8) (put : str2[i]? = some c) (ends : LastLink (Link str1 str2) i e) :
    str2[e]? = some (follow (str1.drop (i + 1)) (str2.drop (i + 1)) c) := by
  let outcome := fun i : Nat => str2[i]?.map (follow (str1.drop (i + 1)) (str2.drop (i + 1)))
  have kept : ∀ i k, Link str1 str2 i k → outcome i = outcome k := by
    rintro i k ⟨later, c, put, taken⟩
    obtain ⟨d, next, goes⟩ := follow_place str1 str2 same distinct c (i + 1) k later taken
    simp only [outcome, put, next, Option.map_some, goes]
  have carried := last_link_carry (Link str1 str2) outcome kept i e ends
  simp only [outcome, put, Option.map_some] at carried
  obtain ⟨z, last, value⟩ := Option.map_eq_some_iff.mp carried.symm
  have absent : z ∉ str1.drop (e + 1) := by
    intro member
    obtain ⟨n, there⟩ := List.mem_iff_getElem?.mp member
    rw [List.getElem?_drop] at there
    exact ends.stops (e + 1 + n) ⟨by omega, z, last, there⟩
  rw [follow_absent _ _ z absent] at value
  rw [last, value]

omit same in
theorem subst_place (i : Nat) (byte d : UInt8) (here : str1[i]? = some byte) (there : str2[i]? = some d) :
    subst str1 str2 byte = d := by
  obtain ⟨inside, rfl⟩ := List.getElem?_eq_some_iff.mp here
  rw [subst, distinct.idxOf_getElem, there, Option.getD_some]

theorem written_right_iff (signed : Bool) (byte : UInt8) :
    (translateByte signed str1 str2 byte.toUInt32).toUInt8 = subst str1 str2 byte ↔
      ∀ i : Nat, str1[i]? = some byte → (HighChar signed byte → str2[i]? = some byte) ∧
        (¬HighChar signed byte → ∀ e, LastLink (Link str1 str2) i e → str2[e]? = str2[i]?) := by
  by_cases present : byte ∈ str1
  · obtain ⟨i, here⟩ := List.mem_iff_getElem?.mp present
    have inside := (List.getElem?_eq_some_iff.mp here).1
    obtain ⟨d, there, goes⟩ := follow_place str1 str2 same distinct byte 0 i (Nat.zero_le i) here
    have only : ∀ j : Nat, str1[j]? = some byte → i = j := fun j again =>
      (List.getElem?_inj inside distinct).mp (here.trans again.symm)
    have place : ∀ Q : Nat → Prop, (∀ j : Nat, str1[j]? = some byte → Q j) ↔ Q i := fun Q =>
      ⟨fun all => all i here, fun holds j again => only j again ▸ holds⟩
    rw [subst_place str1 str2 distinct i byte d here there, place, there]
    rcases written_byte signed str1 str2 byte with ⟨high, written⟩ | ⟨low, written⟩
    · rw [written]
      constructor
      · intro equal
        exact ⟨fun _ => congrArg some equal.symm, fun low => absurd high low⟩
      · intro guard
        exact (Option.some.inj (guard.1 high)).symm
    · rw [written]
      change follow (str1.drop 0) (str2.drop 0) byte = d ↔ _
      rw [goes]
      constructor
      · intro equal
        refine ⟨fun high => absurd high low, fun _ e ends => ?_⟩
        rw [follow_ends str1 str2 same distinct i e d there ends, equal]
      · intro guard
        obtain ⟨e, ends⟩ := last_link_exists (Link str1 str2) (fun i => str1.length - i) (link_nearer str1 str2) i
        have last := guard.2 low e ends
        rw [follow_ends str1 str2 same distinct i e d there ends] at last
        exact Option.some.inj last
  · have kept : (translateByte signed str1 str2 byte.toUInt32).toUInt8 = byte := by
      rcases written_byte signed str1 str2 byte with ⟨-, written⟩ | ⟨-, written⟩
      · exact written
      · rw [written, follow_absent str1 str2 byte present]
    have nowhere : ∀ i : Nat, str1[i]? ≠ some byte := fun i here => present (List.mem_of_getElem? here)
    have whole : str2[str1.idxOf byte]? = none := by
      rw [List.idxOf_eq_length present, same]
      exact List.getElem?_eq_none (Nat.le_refl _)
    rw [kept, subst, whole, Option.getD_none]
    exact iff_of_true rfl fun i here => absurd here (nowhere i)

omit distinct in
theorem translated (signed : Bool) (fp : Bytes) :
    translate signed fp str1 str2 = .ok (fp.map fun c => (translateByte signed str1 str2 c.toUInt32).toUInt8) :=
  if_neg (not_not.mpr same)

theorem once_right_iff (signed : Bool) (fp : Bytes) :
    translate signed fp str1 str2 = .ok (fp.map (subst str1 str2)) ↔ PairsGuard signed fp str1 str2 := by
  rw [translated str1 str2 same, Except.ok.injEq, List.map_inj_left]
  exact forall₂_congr fun byte _ => written_right_iff str1 str2 same distinct signed byte

theorem subst_back (perm : str2.Perm str1) (byte : UInt8) : subst str2 str1 (subst str1 str2 byte) = byte := by
  have distinct2 : str2.Nodup := perm.nodup_iff.mpr distinct
  by_cases present : byte ∈ str1
  · obtain ⟨i, here⟩ := List.mem_iff_getElem?.mp present
    obtain ⟨d, there, -⟩ := follow_place str1 str2 same distinct byte 0 i (Nat.zero_le i) here
    rw [subst_place str1 str2 distinct i byte d here there]
    exact subst_place str2 str1 distinct2 i d byte there here
  · have absent : byte ∉ str2 := fun member => present (perm.mem_iff.mp member)
    have out : ∀ a b : Bytes, a.length = b.length → byte ∉ a → subst a b byte = byte := by
      intro a b length other
      rw [subst, List.idxOf_eq_length other, length, List.getElem?_eq_none (Nat.le_refl _), Option.getD_none]
    rw [out str1 str2 same present, out str2 str1 same.symm absent]

theorem back_right_iff (signed : Bool) (fp : Bytes) (perm : str2.Perm str1) :
    translate signed (fp.map (subst str1 str2)) str2 str1 = .ok fp ↔
      PairsGuard signed (fp.map (subst str1 str2)) str2 str1 := by
  have back : (fp.map (subst str1 str2)).map (subst str2 str1) = fp := by
    rw [List.map_map]
    exact (List.map_congr_left fun byte _ => subst_back str1 str2 same distinct perm byte).trans (List.map_id fp)
  have once := once_right_iff str2 str1 same.symm (perm.nodup_iff.mpr distinct) signed (fp.map (subst str1 str2))
  rwa [back] at once

theorem translate_right_iff (signed : Bool) (fp : Bytes) :
    TranslateRight signed fp str1 str2 ↔
      PairsGuard signed fp str1 str2 ∧ (str2.Perm str1 → PairsGuard signed (fp.map (subst str1 str2)) str2 str1) := by
  have once := once_right_iff str1 str2 same distinct signed fp
  constructor
  · rintro ⟨right, back⟩
    exact ⟨once.mp right, fun perm => (back_right_iff str1 str2 same distinct signed fp perm).mp (back perm)⟩
  · rintro ⟨guard, back⟩
    exact ⟨once.mpr guard, fun perm => (back_right_iff str1 str2 same distinct signed fp perm).mpr (back perm)⟩

end

-- "abe" by "ab" to "cd": what one place puts in no other takes up.
theorem translate_right_apart : TranslateRight true [97, 98, 101] [97, 98] [99, 100] := by
  have low : ∀ byte ∈ ([97, 98, 101] : Bytes), ¬128 ≤ byte := by simp
  have apart : ∀ c ∈ ([99, 100] : Bytes), c ∉ ([97, 98] : Bytes) := by simp
  refine (translate_right_iff [97, 98] [99, 100] rfl (by decide) true [97, 98, 101]).mpr ⟨?_, fun perm => ?_⟩
  · refine fun byte member i _ => ⟨fun high => absurd high.2 (low byte member), fun _ e ends => ?_⟩
    rcases ends.reached.cases_head with rfl | ⟨k, ⟨-, c, put, taken⟩, -⟩
    · rfl
    · exact absurd (List.mem_of_getElem? taken) (apart c (List.mem_of_getElem? put))
  · exact absurd (perm.subset List.mem_cons_self) (by decide)

-- "a" by "ab" to "bc" comes out as "c".
theorem translate_twice :
    ¬∀ (signed : Bool) (fp str1 str2 : Bytes), str1.length = str2.length → str1.Nodup → TranslateRight signed fp str1 str2 := by
  intro claim
  have right := (claim true [97] [97, 98] [98, 99] rfl (by decide)).once
  cases right

end Yaup.Busybox
