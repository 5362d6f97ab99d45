import Yaup.Cmp
import Yaup.Lib.Cells

set_option autoImplicit false

namespace Yaup.Busybox

open Lib

-- while (c != EOF && c != delim), with buff[i] to be stored next.
def getDelimLoop (sz : Nat) (delim : Int) (buff : Bytes) (i : Nat) (c : Option UInt8) (str : Stream) :
    Except Undefined (Bytes × Stream) :=
  match c with
  | none => (putCell buff i 0).map fun buff => (buff, str)
  | some byte =>
      if (byte.toNat : Int) = delim then (putCell buff i 0).map fun buff => (buff, str)
      else
        match putCell buff i byte with
        | .error undefined => .error undefined
        | .ok buff =>
            let next := fgetc str
            if sz < i + 1 then .ok (buff, next.2) else getDelimLoop sz delim buff (i + 1) next.1 next.2
termination_by c.toList.length + str.rest.length
decreasing_by
  unfold fgetc
  cases str.rest with
  | nil => simp
  | cons byte rest => simp

def getDelim (buff : Bytes) (sz : Nat) (delim : Int) (str : Stream) : Except Undefined (Bytes × Stream) :=
  getDelimLoop sz delim buff 0 (fgetc str).1 (fgetc str).2

def delimited (delim : Int) (rest : Bytes) : Bytes := rest.takeWhile fun byte => (byte.toNat : Int) ≠ delim

def readPast (str : Stream) (tail : Bytes) : Stream := { rest := tail.tail, eof := str.eof || tail.isEmpty }

def stored (buff text : Bytes) : Bytes := text ++ 0 :: buff.drop (text.length + 1)

def GetDelimRight (delim : Int) (buff : Bytes) (str : Stream) : Prop :=
  ∃ after file, getDelim buff buff.length delim str = .ok (after, file) ∧ 0 ∈ after ∧
    ((delimited delim str.rest).length < buff.length →
      after = stored buff (delimited delim str.rest) ∧
        file = readPast str (str.rest.drop (delimited delim str.rest).length))

-- By induction on the field, with `front` stored and the room for the field and its NUL to come.
theorem get_delim_reads (sz : Nat) (delim : Int) (text tail front old after : Bytes) (last : UInt8) (str : Stream)
    (reads : str.rest = text ++ tail) (plain : ∀ byte ∈ text, (byte.toNat : Int) ≠ delim)
    (stops : ∀ byte ∈ tail.head?, (byte.toNat : Int) = delim) (length : old.length = text.length)
    (room : front.length + text.length ≤ sz) :
    getDelimLoop sz delim (front ++ old ++ last :: after) front.length (fgetc str).1 (fgetc str).2 =
      .ok (front ++ text ++ 0 :: after, readPast str tail) := by
  induction text generalizing front old str with
  | nil =>
      have empty : old = [] := List.length_eq_zero_iff.mp length
      subst empty
      cases tail with
      | nil =>
          have read : fgetc str = (none, { str with eof := true }) := by simp [fgetc, reads]
          simp [read, getDelimLoop, put_cell_front, readPast, reads, Except.map]
      | cons byte tail =>
          have ends : (byte.toNat : Int) = delim := stops byte rfl
          have read : fgetc str = (some byte, { str with rest := tail }) := by simp [fgetc, reads]
          simp [read, getDelimLoop, put_cell_front, readPast, Except.map, ends]
  | cons byte text ih =>
      obtain ⟨stale, old, rfl⟩ := List.exists_cons_of_length_eq_add_one length
      have other : (byte.toNat : Int) ≠ delim := plain byte List.mem_cons_self
      have read : fgetc str = (some byte, { str with rest := text ++ tail }) := by simp [fgetc, reads]
      have stored := put_cell_front front (old ++ last :: after) stale byte
      have deeper := ih (front ++ [byte]) old { str with rest := text ++ tail } rfl
        (fun byte member => plain byte (List.mem_cons_of_mem _ member)) (by simpa using length)
        (by simp at room ⊢; omega)
      have goes : ¬sz < front.length + 1 := by simp at room; omega
      rw [List.append_assoc, List.cons_append, read, getDelimLoop, if_neg other, stored]
      simp only [if_neg goes]
      simpa [readPast] using deeper

theorem get_delim_outside (delim : Int) (text tail front old : Bytes) (str : Stream) (reads : str.rest = text ++ tail)
    (plain : ∀ byte ∈ text, (byte.toNat : Int) ≠ delim) (long : old.length ≤ text.length) :
    getDelimLoop (front ++ old).length delim (front ++ old) front.length (fgetc str).1 (fgetc str).2 =
      .error .outside := by
  induction old generalizing front text str with
  | nil =>
      have full : ∀ byte, putCell (front ++ []) front.length byte = .error .outside := fun byte =>
        put_cell_outside _ _ _ (by simp)
      cases (fgetc str).1 with
      | none =>
          rw [getDelimLoop, full]
          rfl
      | some byte =>
          rw [getDelimLoop, full, full]
          split
          · rfl
          · rfl
  | cons stale old ih =>
      obtain ⟨byte, text, rfl⟩ := List.exists_cons_of_length_pos (Nat.lt_of_lt_of_le (Nat.succ_pos _) long)
      have other : (byte.toNat : Int) ≠ delim := plain byte List.mem_cons_self
      have read : fgetc str = (some byte, { str with rest := text ++ tail }) := by simp [fgetc, reads]
      have deeper := ih text (front ++ [byte]) { str with rest := text ++ tail } rfl
        (fun byte member => plain byte (List.mem_cons_of_mem _ member)) (by simpa using long)
      have goes : ¬(front ++ stale :: old).length < front.length + 1 := by simp
      rw [read, getDelimLoop, if_neg other, put_cell_front]
      simp only [if_neg goes]
      simpa using deeper

theorem delimited_plain (delim : Int) (rest : Bytes) : ∀ byte ∈ delimited delim rest, (byte.toNat : Int) ≠ delim :=
  fun _ member => by simpa using List.mem_takeWhile_imp member

theorem delimited_stops (delim : Int) (rest : Bytes) :
    ∀ byte ∈ (rest.drop (delimited delim rest).length).head?, (byte.toNat : Int) = delim := by
  induction rest with
  | nil => simp
  | cons first rest ih =>
      unfold delimited at ih ⊢
      by_cases ends : (first.toNat : Int) = delim
      · rw [List.takeWhile_cons_of_neg (by simpa using ends)]
        intro byte member
        cases member
        exact ends
      · rw [List.takeWhile_cons_of_pos (by simpa using ends)]
        exact ih

theorem delimited_parts (delim : Int) (rest : Bytes) :
    rest = delimited delim rest ++ rest.drop (delimited delim rest).length := by
  have taken : rest.take (delimited delim rest).length = delimited delim rest :=
    (List.prefix_iff_eq_take.mp (List.takeWhile_prefix _)).symm
  conv => lhs; rw [← List.take_append_drop (delimited delim rest).length rest, taken]

theorem get_delim_fits (delim : Int) (buff : Bytes) (str : Stream) (fits : (delimited delim str.rest).length < buff.length) :
    getDelim buff buff.length delim str =
      .ok (stored buff (delimited delim str.rest), readPast str (str.rest.drop (delimited delim str.rest).length)) := by
  have cell : buff = buff.take (delimited delim str.rest).length ++
      buff[(delimited delim str.rest).length] :: buff.drop ((delimited delim str.rest).length + 1) := by simp
  have run := get_delim_reads buff.length delim _ _ [] (buff.take (delimited delim str.rest).length)
    (buff.drop ((delimited delim str.rest).length + 1)) buff[(delimited delim str.rest).length] str
    (delimited_parts delim str.rest) (delimited_plain delim str.rest) (delimited_stops delim str.rest)
    (List.length_take_of_le (Nat.le_of_lt fits)) (by simpa using Nat.le_of_lt fits)
  rw [List.nil_append, List.nil_append, ← cell] at run
  exact run

theorem get_delim_long (delim : Int) (buff : Bytes) (str : Stream) (long : buff.length ≤ (delimited delim str.rest).length) :
    getDelim buff buff.length delim str = .error .outside :=
  get_delim_outside delim _ _ [] buff str (delimited_parts delim str.rest) (delimited_plain delim str.rest) long

theorem delimited_text (delim : Int) (text tail : Bytes) (plain : ∀ byte ∈ text, (byte.toNat : Int) ≠ delim)
    (stops : ∀ byte ∈ tail.head?, (byte.toNat : Int) = delim) : delimited delim (text ++ tail) = text := by
  have rest : (tail.takeWhile fun byte => (byte.toNat : Int) ≠ delim) = [] := by
    cases tail with
    | nil => rfl
    | cons byte tail => exact List.takeWhile_cons_of_neg (by simpa using stops byte rfl)
  rw [delimited, List.takeWhile_append_of_pos (by simpa using plain), rest, List.append_nil]

theorem get_delim_text (size : Nat) (delim : Int) (buff text tail : Bytes) (str : Stream) (sized : buff.length = size)
    (reads : str.rest = text ++ tail) (plain : ∀ byte ∈ text, (byte.toNat : Int) ≠ delim)
    (stops : ∀ byte ∈ tail.head?, (byte.toNat : Int) = delim) :
    getDelim buff size delim str =
      if text.length < size then .ok (stored buff text, readPast str tail) else .error .outside := by
  subst sized
  have field : delimited delim str.rest = text := reads ▸ delimited_text delim text tail plain stops
  split
  · rename_i fits
    rw [get_delim_fits delim buff str (field ▸ fits), field, reads, List.drop_left]
  · rename_i long
    exact get_delim_long delim buff str (field ▸ Nat.not_lt.mp long)

theorem get_delim_byte (size : Nat) (delim : UInt8) (buff text tail : Bytes) (str : Stream) (sized : buff.length = size)
    (reads : str.rest = text ++ tail) (plain : delim ∉ text) (stops : ∀ byte ∈ tail.head?, byte = delim) :
    getDelim buff size delim.toNat str =
      if text.length < size then .ok (stored buff text, readPast str tail) else .error .outside := by
  refine get_delim_text size _ buff text tail str sized reads (fun byte member same => ?_) fun byte member => ?_
  · exact plain (UInt8.toNat_inj.mp (Int.ofNat_inj.mp same) ▸ member)
  · rw [stops byte member]

theorem stored_length (buff text : Bytes) (fits : text.length < buff.length) : (stored buff text).length = buff.length := by
  simp only [stored, List.length_append, List.length_cons, List.length_drop]
  omega

theorem fgetc_no_more (file : Stream) : (fgetc file).2.left ≤ file.left := by
  obtain ⟨rest, eof⟩ := file
  cases rest with
  | nil => simp [fgetc, Stream.left]
  | cons byte rest =>
      simp only [fgetc, Stream.left, List.length_cons]
      exact Nat.add_le_add_right (Nat.le_succ _) _

theorem terminated_stream (cells after : Bytes) (i : Nat) (str file : Stream)
    (done : (putCell cells i 0).map (fun buff => (buff, str)) = .ok (after, file)) : file = str := by
  cases put : putCell cells i 0 with
  | error undefined =>
      rw [put] at done
      cases done
  | ok buff =>
      rw [put] at done
      cases done
      rfl

theorem get_delim_loop_left (sz : Nat) (delim : Int) (buff after : Bytes) (i : Nat) (c : Option UInt8) (str file : Stream)
    (done : getDelimLoop sz delim buff i c str = .ok (after, file)) : file.left ≤ str.left := by
  revert done
  fun_induction getDelimLoop sz delim buff i c str with
  | case1 buff i str => exact fun done => (terminated_stream _ _ _ _ _ done) ▸ Nat.le_refl _
  | case2 buff i str byte ends => exact fun done => (terminated_stream _ _ _ _ _ done) ▸ Nat.le_refl _
  | case3 =>
      intro done
      cases done
  | case4 buff i str byte ends stored put next beyond =>
      intro done
      cases done
      exact fgetc_no_more str
  | case5 buff i str byte ends stored put next goes ih =>
      intro done
      exact Nat.le_trans (ih done) (fgetc_no_more str)

theorem get_delim_left (buff after : Bytes) (sz : Nat) (delim : Int) (str file : Stream)
    (done : getDelim buff sz delim str = .ok (after, file)) :
    file.left ≤ str.left ∧ (str.eof = false → file.left < str.left) := by
  have rest := get_delim_loop_left sz delim buff after 0 _ _ file done
  exact ⟨Nat.le_trans rest (fgetc_no_more str), fun more => Nat.lt_of_le_of_lt rest (fgetc_left str more)⟩

theorem get_delim_right_iff (delim : Int) (buff : Bytes) (str : Stream) :
    GetDelimRight delim buff str ↔ (delimited delim str.rest).length < buff.length := by
  constructor
  · rintro ⟨after, file, done, -⟩
    by_contra long
    rw [get_delim_long delim buff str (Nat.not_lt.mp long)] at done
    cases done
  · intro fits
    exact ⟨_, _, get_delim_fits delim buff str fits, by simp [stored], fun _ => ⟨rfl, rfl⟩⟩

-- The five digits of "65534:" in gid[5].
theorem get_delim_five_digits : ¬GetDelimRight 58 [0, 0, 0, 0, 0] ⟨[54, 53, 53, 51, 52, 58], false⟩ := by
  rw [get_delim_right_iff]
  decide

end Yaup.Busybox
