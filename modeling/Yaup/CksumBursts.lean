import Yaup.Cksum
import Yaup.Lib.CrcBursts

set_option autoImplicit false

namespace Yaup.Busybox

open Lib

def byteBits (byte : UInt8) : List Bool := (List.range 8).map byte.toBitVec.getLsbD

def bitsOf (bytes : Bytes) : List Bool := bytes.flatMap byteBits

-- What crc32 sums up of a file shorter than its block: the bytes, EOF in a char, and what the
-- block had from malloc.
def lastBlock (size : Nat) (junk : Nat → UInt8) (contents : Bytes) : Bytes :=
  contents ++ 255 :: ((List.range size).map junk).drop (contents.length + 1)

theorem byte_bits_length (byte : UInt8) : (byteBits byte).length = 8 := by simp [byteBits]

theorem bits_of_length (bytes : Bytes) : (bitsOf bytes).length = 8 * bytes.length := by
  induction bytes with
  | nil => rfl
  | cons byte rest ih =>
      rw [bitsOf, List.flatMap_cons, List.length_append, byte_bits_length]
      change 8 + (bitsOf rest).length = _
      rw [ih, List.length_cons]
      omega

theorem pack_byte (byte : UInt8) : (pack (byteBits byte) : BitVec 32) = byte.toUInt32.toBitVec := by
  refine BitVec.eq_of_getLsbD_eq fun i inside => ?_
  change _ = (byte.toBitVec.setWidth 32).getLsbD i
  rw [pack_bit _ i inside, BitVec.getLsbD_setWidth, decide_eq_true inside, Bool.true_and]
  by_cases low : i < 8
  · rw [List.getD_eq_getElem _ _ (by rw [byte_bits_length]; exact low)]
    simp [byteBits]
  · rw [List.getD_eq_default _ _ (by rw [byte_bits_length]; omega), BitVec.getLsbD_of_ge _ _ (Nat.not_lt.mp low)]

theorem crc_byte_pushed (crc : UInt32) (byte : UInt8) :
    (crcByte crc byte).toBitVec = pushBits autodin crc.toBitVec (byteBits byte) := by
  rw [crc_byte_shifts, push_bits_pack autodin _ _ (by rw [byte_bits_length]; decide), byte_bits_length, pack_byte]
  rfl

theorem crc_bits_pushed (crc : UInt32) (bytes : Bytes) :
    (crcBits crc bytes).toBitVec = pushBits autodin crc.toBitVec (bitsOf bytes) := by
  induction bytes generalizing crc with
  | nil => rfl
  | cons byte rest ih =>
      calc (crcBits crc (byte :: rest)).toBitVec = (crcBits (crcByte crc byte) rest).toBitVec := rfl
        _ = pushBits autodin (pushBits autodin crc.toBitVec (byteBits byte)) (bitsOf rest) := by
            rw [ih, crc_byte_pushed]
        _ = pushBits autodin crc.toBitVec (bitsOf (byte :: rest)) := List.foldl_append.symm

theorem crc_fold_detects (signed : Bool) (crc : UInt32) (a b : Bytes) (burst : Burst 32 (bitsOf a) (bitsOf b)) :
    crcFold signed crc a ≠ crcFold signed crc b := by
  rw [crc_macro_bits, crc_macro_bits]
  intro same
  have pushed := congrArg UInt32.toBitVec same
  rw [crc_bits_pushed, crc_bits_pushed] at pushed
  exact burst_detected autodin (by decide) crc.toBitVec _ _ burst pushed

theorem burst_append (n : Nat) (a b more : List Bool) (burst : Burst n a b) : Burst n (a ++ more) (b ++ more) := by
  obtain ⟨before, x, y, after, rfl, rfl, length, short, other⟩ := burst.parts
  exact ⟨before, x, y, after ++ more, by simp, by simp, length, short, other⟩

theorem burst_length (n : Nat) (a b : Bytes) (burst : Burst n (bitsOf a) (bitsOf b)) : a.length = b.length := by
  obtain ⟨before, x, y, after, left, right, length, -, -⟩ := burst.parts
  have lengths : (bitsOf a).length = (bitsOf b).length := by
    rw [left, right]
    simp [length]
  rw [bits_of_length, bits_of_length] at lengths
  omega

theorem fill_buf_closed (count i : Nat) (buf : Bytes) : fillBuf count i ⟨[], true⟩ buf = (⟨[], true⟩, buf) := by
  induction count generalizing i with
  | zero => rfl
  | succ count ih =>
      rw [fillBuf, if_neg (by decide)]
      exact ih (i + 1)

theorem fill_buf_short (count : Nat) (contents filled rest : Bytes) (short : contents.length < count)
    (room : rest.length = count) :
    fillBuf count filled.length ⟨contents, false⟩ (filled ++ rest) =
      (⟨[], true⟩, filled ++ (contents ++ 255 :: rest.drop (contents.length + 1))) := by
  induction count generalizing contents filled rest with
  | zero => cases short
  | succ count ih =>
      obtain ⟨old, rest, rfl⟩ := List.exists_cons_of_length_eq_add_one room
      have put : ∀ byte : UInt8, (filled ++ old :: rest).set filled.length byte = filled ++ byte :: rest := by
        intro byte
        rw [List.set_append_right _ _ le_rfl, Nat.sub_self, List.set_cons_zero]
      rw [fillBuf, if_pos rfl]
      cases contents with
      | nil =>
          change fillBuf count (filled.length + 1) ⟨[], true⟩ ((filled ++ old :: rest).set filled.length 255) = _
          rw [fill_buf_closed, put]
          rfl
      | cons byte more =>
          change fillBuf count (filled.length + 1) ⟨more, false⟩ ((filled ++ old :: rest).set filled.length byte) = _
          have later := ih more (filled ++ [byte]) rest (Nat.lt_of_succ_lt_succ short) (Nat.succ.inj room)
          rw [List.length_append, List.append_assoc, List.append_assoc] at later
          rw [put]
          exact later

theorem crc_loop_whole (signed : Bool) (buf : Bytes) (sum : Summed) (left : sum.nr = buf.length) :
    crcLoop signed buf sum = some ⟨sum.taken ++ buf, crcFold signed sum.crc buf, -1⟩ := by
  induction buf generalizing sum with
  | nil =>
      have none : sum.nr = 0 := left
      rw [crcLoop, if_pos none, none, List.append_nil]
      rfl
  | cons byte rest ih =>
      have some : sum.nr ≠ 0 := by
        rw [left, List.length_cons]
        omega
      rw [crcLoop, if_neg some, ih _ (by simp only [left, List.length_cons]; omega)]
      simp [crcFold]

theorem last_block_length (size : Nat) (junk : Nat → UInt8) (contents : Bytes) (short : contents.length < size) :
    (lastBlock size junk contents).length = size := by
  simp only [lastBlock, List.length_append, List.length_cons, List.length_drop, List.length_map, List.length_range]
  omega

theorem crc32_short (size : Nat) (signed : Bool) (junk : Nat → UInt8) (contents : Bytes) (octets : Int)
    (short : contents.length < size) :
    crc32From size signed junk contents octets =
      some ⟨~~~crcFold signed 0xffffffff (lastBlock size junk contents), octets, lastBlock size junk contents⟩ := by
  have filled := fill_buf_short size contents [] ((List.range size).map junk) short (by simp)
  rw [List.nil_append, List.nil_append] at filled
  have summed := crc_loop_whole signed (lastBlock size junk contents) ⟨[], 0xffffffff, size⟩
    (by rw [last_block_length size junk contents short])
  have closed : ∀ sum : Summed, crcTurns signed ⟨[], true⟩ (lastBlock size junk contents) sum = some sum := by
    intro sum
    rw [crcTurns, if_neg (by decide)]
  rw [crc32From, crcTurns, if_pos rfl]
  dsimp only
  rw [Int.toNat_natCast]
  split
  · rename_i failed
    change crcLoop signed (fillBuf size ([] : Bytes).length _ _).2 _ = none at failed
    rw [filled] at failed
    cases failed.symm.trans summed
  · rename_i after turned
    change crcLoop signed (fillBuf size ([] : Bytes).length _ _).2 _ = some after at turned
    change (crcTurns signed (fillBuf size ([] : Bytes).length _ _).1
      (fillBuf size ([] : Bytes).length _ _).2 after).map _ = _
    rw [filled] at turned ⊢
    cases turned.symm.trans summed
    exact congrArg _ (closed _)

structure BurstTold (signed : Bool) (a b : Bytes) : Prop where
  folds : ∀ crc, crcFold signed crc a ≠ crcFold signed crc b
  answers : ∀ size junk octets, a.length < size →
    ∃ left right, crc32From size signed junk a octets = some left ∧ crc32From size signed junk b octets = some right ∧
      left.crc ≠ right.crc

theorem burst_changes_crc (signed : Bool) (a b : Bytes) (burst : Burst 32 (bitsOf a) (bitsOf b)) :
    BurstTold signed a b where
  folds := fun crc => crc_fold_detects signed crc a b burst
  answers := by
    intro size junk octets short
    have length := burst_length 32 a b burst
    refine ⟨_, _, crc32_short size signed junk a octets short,
      crc32_short size signed junk b octets (length ▸ short), ?_⟩
    intro same
    refine crc_fold_detects signed 0xffffffff (lastBlock size junk a) (lastBlock size junk b) ?_ ?_
    · have more := burst_append 32 _ _ (bitsOf (255 :: ((List.range size).map junk).drop (a.length + 1))) burst
      rw [lastBlock, lastBlock, ← length, bitsOf, bitsOf, List.flatMap_append, List.flatMap_append]
      exact more
    · have sums := congrArg (fun crc : UInt32 => ~~~crc) same
      simpa using sums

-- "ab" and "Ab".
theorem burst_changes_crc_letter : BurstTold true [97, 98] [65, 98] :=
  burst_changes_crc true [97, 98] [65, 98]
    ⟨⟨[true, false, false, false, false], [true], [false], [true, false] ++ bitsOf [98], by decide, by decide, rfl,
      by decide, by decide⟩⟩

end Yaup.Busybox
