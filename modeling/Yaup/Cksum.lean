import Yaup.Lib.Crc
import Yaup.Lib.Text

set_option autoImplicit false

namespace Yaup.Busybox

open Lib

def crc32tab : List UInt32 := [
    0x00000000, 0x77073096, 0xee0e612c, 0x990951ba, 0x076dc419, 0x706af48f, 0xe963a535, 0x9e6495a3,
    0x0edb8832, 0x79dcb8a4, 0xe0d5e91e, 0x97d2d988, 0x09b64c2b, 0x7eb17cbd, 0xe7b82d07, 0x90bf1d91,
    0x1db71064, 0x6ab020f2, 0xf3b97148, 0x84be41de, 0x1adad47d, 0x6ddde4eb, 0xf4d4b551, 0x83d385c7,
    0x136c9856, 0x646ba8c0, 0xfd62f97a, 0x8a65c9ec, 0x14015c4f, 0x63066cd9, 0xfa0f3d63, 0x8d080df5,
    0x3b6e20c8, 0x4c69105e, 0xd56041e4, 0xa2677172, 0x3c03e4d1, 0x4b04d447, 0xd20d85fd, 0xa50ab56b,
    0x35b5a8fa, 0x42b2986c, 0xdbbbc9d6, 0xacbcf940, 0x32d86ce3, 0x45df5c75, 0xdcd60dcf, 0xabd13d59,
    0x26d930ac, 0x51de003a, 0xc8d75180, 0xbfd06116, 0x21b4f4b5, 0x56b3c423, 0xcfba9599, 0xb8bda50f,
    0x2802b89e, 0x5f058808, 0xc60cd9b2, 0xb10be924, 0x2f6f7c87, 0x58684c11, 0xc1611dab, 0xb6662d3d,
    0x76dc4190, 0x01db7106, 0x98d220bc, 0xefd5102a, 0x71b18589, 0x06b6b51f, 0x9fbfe4a5, 0xe8b8d433,
    0x7807c9a2, 0x0f00f934, 0x9609a88e, 0xe10e9818, 0x7f6a0dbb, 0x086d3d2d, 0x91646c97, 0xe6635c01,
    0x6b6b51f4, 0x1c6c6162, 0x856530d8, 0xf262004e, 0x6c0695ed, 0x1b01a57b, 0x8208f4c1, 0xf50fc457,
    0x65b0d9c6, 0x12b7e950, 0x8bbeb8ea, 0xfcb9887c, 0x62dd1ddf, 0x15da2d49, 0x8cd37cf3, 0xfbd44c65,
    0x4db26158, 0x3ab551ce, 0xa3bc0074, 0xd4bb30e2, 0x4adfa541, 0x3dd895d7, 0xa4d1c46d, 0xd3d6f4fb,
    0x4369e96a, 0x346ed9fc, 0xad678846, 0xda60b8d0, 0x44042d73, 0x33031de5, 0xaa0a4c5f, 0xdd0d7cc9,
    0x5005713c, 0x270241aa, 0xbe0b1010, 0xc90c2086, 0x5768b525, 0x206f85b3, 0xb966d409, 0xce61e49f,
    0x5edef90e, 0x29d9c998, 0xb0d09822, 0xc7d7a8b4, 0x59b33d17, 0x2eb40d81, 0xb7bd5c3b, 0xc0ba6cad,
    0xedb88320, 0x9abfb3b6, 0x03b6e20c, 0x74b1d29a, 0xead54739, 0x9dd277af, 0x04db2615, 0x73dc1683,
    0xe3630b12, 0x94643b84, 0x0d6d6a3e, 0x7a6a5aa8, 0xe40ecf0b, 0x9309ff9d, 0x0a00ae27, 0x7d079eb1,
    0xf00f9344, 0x8708a3d2, 0x1e01f268, 0x6906c2fe, 0xf762575d, 0x806567cb, 0x196c3671, 0x6e6b06e7,
    0xfed41b76, 0x89d32be0, 0x10da7a5a, 0x67dd4acc, 0xf9b9df6f, 0x8ebeeff9, 0x17b7be43, 0x60b08ed5,
    0xd6d6a3e8, 0xa1d1937e, 0x38d8c2c4, 0x4fdff252, 0xd1bb67f1, 0xa6bc5767, 0x3fb506dd, 0x48b2364b,
    0xd80d2bda, 0xaf0a1b4c, 0x36034af6, 0x41047a60, 0xdf60efc3, 0xa867df55, 0x316e8eef, 0x4669be79,
    0xcb61b38c, 0xbc66831a, 0x256fd2a0, 0x5268e236, 0xcc0c7795, 0xbb0b4703, 0x220216b9, 0x5505262f,
    0xc5ba3bbe, 0xb2bd0b28, 0x2bb45a92, 0x5cb36a04, 0xc2d7ffa7, 0xb5d0cf31, 0x2cd99e8b, 0x5bdeae1d,
    0x9b64c2b0, 0xec63f226, 0x756aa39c, 0x026d930a, 0x9c0906a9, 0xeb0e363f, 0x72076785, 0x05005713,
    0x95bf4a82, 0xe2b87a14, 0x7bb12bae, 0x0cb61b38, 0x92d28e9b, 0xe5d5be0d, 0x7cdcefb7, 0x0bdbdf21,
    0x86d3d2d4, 0xf1d4e242, 0x68ddb3f8, 0x1fda836e, 0x81be16cd, 0xf6b9265b, 0x6fb077e1, 0x18b74777,
    0x88085ae6, 0xff0f6a70, 0x66063bca, 0x11010b5c, 0x8f659eff, 0xf862ae69, 0x616bffd3, 0x166ccf45,
    0xa00ae278, 0xd70dd2ee, 0x4e048354, 0x3903b3c2, 0xa7672661, 0xd06016f7, 0x4969474d, 0x3e6e77db,
    0xaed16a4a, 0xd9d65adc, 0x40df0b66, 0x37d83bf0, 0xa9bcae53, 0xdebb9ec5, 0x47b2cf7f, 0x30b5ffe9,
    0xbdbdf21c, 0xcabac28a, 0x53b39330, 0x24b4a3a6, 0xbad03605, 0xcdd70693, 0x54de5729, 0x23d967bf,
    0xb3667a2e, 0xc4614ab8, 0x5d681b02, 0x2a6f2b94, 0xb40bbe37, 0xc30c8ea1, 0x5a05df1b, 0x2d02ef8d]

-- The macro CRC32; `ch` is an int, of which it takes the low 8 bits.
def crc32Macro (crc ch : UInt32) : UInt32 := (crc >>> 8) ^^^ crc32tab.getD ((crc ^^^ ch) &&& 0xff).toNat 0

-- A char as an int. Whether a char has a sign is up to the compiler.
def charInt (signed : Bool) (ch : UInt8) : UInt32 :=
  if signed = true ∧ 128 ≤ ch then 0xffffff00 ||| ch.toUInt32 else ch.toUInt32

def crcFold (signed : Bool) (crc : UInt32) (bytes : Bytes) : UInt32 :=
  bytes.foldl (fun crc ch => crc32Macro crc (charInt signed ch)) crc

def crcBit (crc : UInt32) : UInt32 := if crc &&& 1 = 1 then (crc >>> 1) ^^^ 0xedb88320 else crc >>> 1

def crcByte (crc : UInt32) (byte : UInt8) : UInt32 := crcBit^[8] (crc ^^^ byte.toUInt32)

def crcBits (crc : UInt32) (bytes : Bytes) : UInt32 := bytes.foldl crcByte crc

def autodin : BitVec 32 := 0xedb88320

theorem crc_bit_shift (crc : UInt32) : (crcBit crc).toBitVec = shiftOut autodin crc.toBitVec := by
  have low : crc &&& 1 = 1 ↔ crc.toBitVec.getLsbD 0 = true := by
    rw [← UInt32.toBitVec_inj, UInt32.toBitVec_and]
    change crc.toBitVec &&& 1#32 = 1#32 ↔ _
    rw [BitVec.and_one_eq_setWidth_ofBool_getLsbD]
    cases crc.toBitVec.getLsbD 0 with
    | false => decide
    | true => decide
  unfold crcBit shiftOut
  by_cases one : crc &&& 1 = 1
  · rw [if_pos one, if_pos (low.mp one)]
    rfl
  · rw [if_neg one, if_neg fun bit => one (low.mpr bit)]
    rfl

theorem crc_byte_shifts (crc : UInt32) (byte : UInt8) :
    (crcByte crc byte).toBitVec = shiftsOut autodin 8 (crc ^^^ byte.toUInt32).toBitVec := by
  have steps : ∀ n x, (crcBit^[n] x).toBitVec = shiftsOut autodin n x.toBitVec := by
    intro n
    induction n with
    | zero => exact fun _ => rfl
    | succ n ih =>
        intro x
        rw [Function.iterate_succ_apply, ih, crc_bit_shift]
        rfl
  exact steps 8 _

theorem crc_table :
    crc32tab = (List.range 256).map fun i => UInt32.ofBitVec (shiftsOut autodin 8 (BitVec.ofNat 32 i)) := by
  decide +kernel

theorem low_byte_mask : LowMask 8 (0xff#32) := by
  unfold LowMask
  decide

theorem macro_index (crc ch : UInt32) : ((crc ^^^ ch) &&& 0xff).toNat < 256 :=
  Nat.lt_succ_of_le Nat.and_le_right

theorem crc_entry (i : UInt32) (inside : i.toNat < 256) :
    (crc32tab.getD i.toNat 0).toBitVec = shiftsOut autodin 8 i.toBitVec := by
  rw [crc_table, List.getD_eq_getElem?_getD, List.getElem?_map, List.getElem?_range inside]
  exact congrArg (shiftsOut autodin 8) (BitVec.ofNat_toNat 32 i.toBitVec)

theorem byte_narrow (byte : UInt8) : byte.toUInt32.toBitVec &&& 0xff#32 = byte.toUInt32.toBitVec := by
  refine BitVec.eq_of_getLsbD_eq fun i inside => ?_
  rw [masked_bit 8 _ _ low_byte_mask]
  by_cases low : i < 8
  · rw [decide_eq_true low, Bool.and_true]
  · have clear : byte.toUInt32.toBitVec.getLsbD i = false := by
      change (byte.toBitVec.setWidth 32).getLsbD i = false
      rw [BitVec.getLsbD_setWidth, BitVec.getLsbD_of_ge _ _ (Nat.not_lt.mp low), Bool.and_false]
    rw [clear, Bool.false_and]

theorem char_low (signed : Bool) (byte : UInt8) :
    (charInt signed byte).toBitVec &&& 0xff#32 = byte.toUInt32.toBitVec := by
  unfold charInt
  split
  · have high : (0xffffff00#32 &&& 0xff#32) = 0#32 := by decide
    change (0xffffff00#32 ||| byte.toUInt32.toBitVec) &&& 0xff#32 = _
    refine BitVec.eq_of_getLsbD_eq fun i inside => ?_
    have clear := congrArg (fun x => BitVec.getLsbD x i) high
    have narrow := congrArg (fun x => BitVec.getLsbD x i) (byte_narrow byte)
    simp only [BitVec.getLsbD_and, BitVec.getLsbD_or, BitVec.getLsbD_zero] at clear narrow ⊢
    rw [Bool.and_or_distrib_right, clear, narrow, Bool.false_or]
  · exact byte_narrow byte

theorem macro_byte (signed : Bool) (crc : UInt32) (byte : UInt8) :
    crc32Macro crc (charInt signed byte) = crcByte crc byte := by
  rw [← UInt32.toBitVec_inj, crc_byte_shifts]
  change crc.toBitVec >>> 8 ^^^ (crc32tab.getD ((crc ^^^ charInt signed byte) &&& 0xff).toNat 0).toBitVec = _
  rw [crc_entry _ (macro_index _ _)]
  exact table_step autodin 8 0xff#32 crc.toBitVec byte.toUInt32.toBitVec _ low_byte_mask (byte_narrow byte)
    (char_low signed byte)

theorem crc_macro_bits (signed : Bool) (crc : UInt32) (bytes : Bytes) : crcFold signed crc bytes = crcBits crc bytes := by
  induction bytes generalizing crc with
  | nil => rfl
  | cons byte rest ih =>
      rw [crcFold, List.foldl_cons, macro_byte]
      exact ih (crcByte crc byte)

def fgetc (file : Stream) : Option UInt8 × Stream :=
  match file.rest with
  | [] => (none, { file with eof := true })
  | byte :: rest => (some byte, { file with rest := rest })

-- The loop over buf with `count` bytes to go, from i on. EOF is -1, which is 255 in a char.
def fillBuf : Nat → Nat → Stream → Bytes → Stream × Bytes
  | 0, _, file, buf => (file, buf)
  | count + 1, i, file, buf =>
      if file.eof = false then
        let (byte, file) := fgetc file
        fillBuf count (i + 1) file (buf.set i (byte.getD 255))
      else fillBuf count (i + 1) file buf

structure Summed where
  taken : Bytes
  crc : UInt32
  nr : Int

-- for (p = buf; nr--; ++p), from p on; none is a read past buf.
def crcLoop (signed : Bool) : Bytes → Summed → Option Summed
  | [], sum => if sum.nr = 0 then some { sum with nr := sum.nr - 1 } else none
  | byte :: rest, sum =>
      if sum.nr = 0 then some { sum with nr := sum.nr - 1 }
      else crcLoop signed rest ⟨sum.taken ++ [byte], crc32Macro sum.crc (charInt signed byte), sum.nr - 1⟩

theorem crc_loop_left (signed : Bool) (buf : Bytes) (sum after : Summed) (done : crcLoop signed buf sum = some after) :
    after.nr = -1 ∧ 0 ≤ sum.nr := by
  induction buf generalizing sum with
  | nil =>
      rw [crcLoop] at done
      split at done
      · rename_i zero
        cases done
        simp [zero]
      · cases done
  | cons byte rest ih =>
      rw [crcLoop] at done
      split at done
      · rename_i zero
        cases done
        simp [zero]
      · obtain ⟨left, positive⟩ := ih _ done
        exact ⟨left, by simp only at positive; omega⟩

-- while (!feof(fp)): after a turn nr is -1, and a turn that finds it so does not end.
def crcTurns (signed : Bool) (file : Stream) (buf : Bytes) (sum : Summed) : Option Summed :=
  if file.eof = false then
    let filled := fillBuf sum.nr.toNat 0 file buf
    match _ : crcLoop signed filled.2 sum with
    | none => none
    | some after => crcTurns signed filled.1 filled.2 after
  else some sum
termination_by (sum.nr + 1).toNat
decreasing_by
  have left := crc_loop_left signed _ sum after (by assumption)
  omega

-- The answer, the int behind `octets` and the bytes that went into the sum. `size` is the
-- first value of nr, and `junk` what malloc finds in its block.
structure Checksum where
  crc : UInt32
  octets : Int
  taken : Bytes

def crc32From (size : Nat) (signed : Bool) (junk : Nat → UInt8) (contents : Bytes) (octets : Int) : Option Checksum :=
  (crcTurns signed ⟨contents, false⟩ ((List.range size).map junk) ⟨[], 0xffffffff, size⟩).map fun sum =>
    ⟨~~~sum.crc, octets, sum.taken⟩

def crc32 : Bool → (Nat → UInt8) → Bytes → Int → Option Checksum := crc32From 8

def Checksum.Right (sum : Checksum) (contents : Bytes) : Prop :=
  sum.taken = contents ∧ sum.crc = ~~~crcBits 0xffffffff contents ∧ sum.octets = contents.length

def Crc32Right (signed : Bool) (junk : Nat → UInt8) (contents : Bytes) (octets : Int) : Prop :=
  ∃ sum, crc32 signed junk contents octets = some sum ∧ sum.Right contents ∧
    ∀ size, 0 < size → crc32From size signed junk contents octets = some sum

theorem fill_buf_open (count i : Nat) (contents buf : Bytes) (long : count ≤ contents.length) :
    (fillBuf count i ⟨contents, false⟩ buf).1 = ⟨contents.drop count, false⟩ := by
  induction count generalizing i contents buf with
  | zero => rfl
  | succ count ih =>
      cases contents with
      | nil => cases long
      | cons byte rest =>
          rw [fillBuf, if_pos rfl]
          exact ih (i + 1) rest _ (Nat.le_of_succ_le_succ long)

theorem crc_loop_runs_off (signed : Bool) (buf : Bytes) (sum : Summed) (low : sum.nr < 0) : crcLoop signed buf sum = none := by
  cases ended : crcLoop signed buf sum with
  | none => rfl
  | some after => exact absurd (crc_loop_left signed buf sum after ended).2 (Int.not_le.mpr low)

theorem crc_loop_takes (signed : Bool) (buf : Bytes) (sum after : Summed) (done : crcLoop signed buf sum = some after) :
    (after.taken.length : Int) = sum.taken.length + sum.nr := by
  induction buf generalizing sum with
  | nil =>
      rw [crcLoop] at done
      split at done
      · rename_i zero
        cases done
        simp [zero]
      · cases done
  | cons byte rest ih =>
      rw [crcLoop] at done
      split at done
      · rename_i zero
        cases done
        simp [zero]
      · rw [ih _ done]
        simp only [List.length_append, List.length_cons, List.length_nil]
        omega

theorem crc_turns_after (signed : Bool) (file : Stream) (buf : Bytes) (sum after : Summed) (spent : sum.nr = -1)
    (done : crcTurns signed file buf sum = some after) : file.eof = true ∧ after = sum := by
  rw [crcTurns] at done
  by_cases more : file.eof = false
  · rw [if_pos more] at done
    dsimp only at done
    split at done
    · cases done
    · rename_i turned
      rw [crc_loop_runs_off signed _ sum (by omega)] at turned
      cases turned
  · rw [if_neg more] at done
    cases done
    exact ⟨by simpa using more, rfl⟩

theorem crc32_takes (size : Nat) (signed : Bool) (junk : Nat → UInt8) (contents : Bytes) (octets : Int) (sum : Checksum)
    (done : crc32From size signed junk contents octets = some sum) :
    contents.length < size ∧ sum.taken.length = size ∧ sum.octets = octets := by
  obtain ⟨after, turned, rfl⟩ := Option.map_eq_some_iff.mp done
  rw [crcTurns, if_pos rfl] at turned
  dsimp only at turned
  split at turned
  · cases turned
  · rename_i first summed
    obtain ⟨seen, rfl⟩ := crc_turns_after signed _ _ first after (crc_loop_left signed _ _ first summed).1 turned
    have taken := crc_loop_takes signed _ _ _ summed
    refine ⟨?_, by simpa only [List.length_nil, Int.natCast_zero, Int.zero_add, Int.natCast_inj] using taken, rfl⟩
    by_contra long
    rw [Int.toNat_natCast, fill_buf_open size 0 contents _ (Nat.not_lt.mp long)] at seen
    cases seen

theorem crc32_never_right (size : Nat) (signed : Bool) (junk : Nat → UInt8) (contents : Bytes) (octets : Int) :
    ¬Crc32Right signed junk contents octets ∧
      ∀ sum, crc32From size signed junk contents octets = some sum → ¬sum.Right contents := by
  have wrong : ∀ size sum, crc32From size signed junk contents octets = some sum → ¬sum.Right contents := by
    intro size sum done right
    obtain ⟨short, taken, -⟩ := crc32_takes size signed junk contents octets sum done
    rw [right.1] at taken
    exact absurd taken (Nat.ne_of_lt short)
  refine ⟨?_, wrong size⟩
  rintro ⟨sum, done, right, -⟩
  exact wrong 8 sum done right

-- Of the nine bytes "123456789" the second block is never read, and the sum leaves buf.
theorem crc32_runs_off : ¬Crc32Right true (fun _ => 0) [49, 50, 51, 52, 53, 54, 55, 56, 57] 0 := by
  rintro ⟨sum, done, -⟩
  exact absurd (crc32_takes 8 _ _ _ _ sum done).1 (by decide)

end Yaup.Busybox
