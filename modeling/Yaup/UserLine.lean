import Yaup.Lib.Scan
import Yaup.LoginGuard

set_option autoImplicit false

namespace Yaup

open Lib

-- One turn of get_user_line: what is left of the file when fgets is called, and the line
-- buffer behind it.
structure Look where
  rest : Bytes
  line : Bytes

def looks (size : Nat) (room : 1 < size) (file : Stream) (line : Bytes) : List Look :=
  if _ : file.eof = false then
    ⟨file.rest, (fgets size file line).2⟩ :: looks size room (fgets size file line).1 (fgets size file line).2
  else []
termination_by file.left
decreasing_by exact fgets_left size file line room (by assumption)

def findLook (username : Bytes) : List Look → Bytes → Option (Option Look)
  | [], _ => some none
  | look :: later, buff =>
      match checkLine (fun _ => true) username look.line buff with
      | none => none
      | some (true, _) => some (some look)
      | some (false, buff) => findLook username later buff

theorem user_line_room : 1 < maxUserLine := by decide

def userLooks (heap : Heap) (passwd : Bytes) : List Look :=
  looks maxUserLine user_line_room (fopen passwd) (malloc heap.userLine maxUserLine)

def userLook (heap : Heap) (passwd username : Bytes) : Option (Option Look) :=
  findLook username (userLooks heap passwd) (malloc heap.user maxUserName)

theorem find_line_looks (size : Nat) (room : 1 < size) (username : Bytes) (file : Stream) (line buff : Bytes) :
    ((findLine size room (fun _ => true) username file line buff).map
        fun (found, line, _) => if found then some line else none) =
      (findLook username (looks size room file line) buff).map (Option.map Look.line) := by
  rw [findLine, looks]
  split
  · dsimp only
    rw [findLook]
    dsimp only
    cases checkLine (fun _ => true) username (fgets size file line).2 buff with
    | none => rfl
    | some answer =>
        obtain ⟨found, buff'⟩ := answer
        cases found with
        | true => rfl
        | false => exact find_line_looks size room username (fgets size file line).1 (fgets size file line).2 buff'
  · rfl
termination_by file.left
decreasing_by exact fgets_left size file line room (by assumption)

theorem get_user_line_look (heap : Heap) (passwd username : Bytes) :
    getUserLine heap passwd username = (userLook heap passwd username).map (Option.map Look.line) := by
  rw [userLook, userLooks, ← find_line_looks, getUserLine]
  cases findLine maxUserLine _ (fun _ => true) username (fopen passwd) (malloc heap.userLine maxUserLine)
    (malloc heap.user maxUserName) with
  | none => rfl
  | some answer => rfl

structure LineAt (passwd before line behind : Bytes) : Prop where
  whole : passwd = before ++ line ++ behind
  starts : Starts before
  plain : 10 ∉ line
  ends : behind = [] ∨ behind.head? = some 10

def FirstField (line user : Bytes) : Prop := 58 ∈ line ∧ (line.takeWhile fun byte => byte ≠ 58) = user

def Taken (passwd user : Bytes) (look : Look) : Prop :=
  ∃ before line behind, LineAt passwd before line behind ∧ FirstField line user ∧ look.rest = line ++ behind ∧
    Holds look.line (line ++ behind.take 1)

def UserLineRight (heap : Heap) (passwd username user : Bytes) : Prop :=
  ∃ answer, getUserLine heap passwd username = some (answer.map Look.line) ∧ userLook heap passwd username = some answer ∧
    match answer with
    | some look => Taken passwd user look
    | none => ∀ before line behind, LineAt passwd before line behind → ¬FirstField line user

-- The line buffer has a colon among the bytes that there is room for in the user buffer.
def Readable (look : Look) : Prop := 58 ∈ look.line.take maxUserName

def shownName (line : Bytes) : Bytes := (line.takeWhile fun byte => byte ≠ 58).takeWhile fun byte => byte ≠ 0

def Shows (user : Bytes) (look : Look) : Prop := shownName look.line = user

instance (look : Look) : Decidable (Readable look) := inferInstanceAs (Decidable (_ ∈ _))

instance (user : Bytes) (look : Look) : Decidable (Shows user look) := inferInstanceAs (Decidable (_ = _))

def Look.piece (look : Look) : Bytes := (Lib.readLine (maxUserLine - 1) look.rest).1

structure WholeLine (passwd user : Bytes) (look : Look) : Prop where
  starts : ∃ before, passwd = before ++ look.rest ∧ Starts before
  ends : look.piece.getLast? = some 10 ∨ look.piece = look.rest
  named : FirstField look.piece user

def Sought (user : Bytes) (look : Look) : Prop := ¬Readable look ∨ Shows user look

def Passed (user : Bytes) (look : Look) : Prop := Readable look ∧ ¬Shows user look

theorem not_sought_passed (user : Bytes) (look : Look) : ¬Sought user look ↔ Passed user look := by
  rw [Sought, Passed, not_or, not_not]

def UserLineGuard (heap : Heap) (passwd user : Bytes) : Prop :=
  ∀ look, Leads (Sought user) (Passed user) (userLooks heap passwd) look → Readable look ∧ WholeLine passwd user look

theorem copy_field_no_room (line buff : Bytes) (i : Nat) (inside : i ≤ buff.length)
    (far : 58 ∉ line.take (buff.length - i)) :
    (copyField (fun _ => true) line i buff).bind (fun copied => putByte copied.2 copied.1 0) = none := by
  induction line generalizing i buff with
  | nil => rfl
  | cons byte rest ih =>
      by_cases full : i = buff.length
      · have over_end : putByte buff i 0 = none := if_neg (by omega)
        have no_byte : putByte buff i byte = none := if_neg (by omega)
        rw [copyField]
        split
        · rw [no_byte]
          rfl
        · exact over_end
      · have below : i < buff.length := by omega
        obtain ⟨more, room⟩ : ∃ more, buff.length - i = more + 1 := ⟨buff.length - i - 1, by omega⟩
        rw [room, List.take_succ_cons] at far
        have other : byte ≠ 58 := fun same => far (same ▸ List.mem_cons_self)
        rw [copyField, if_pos ⟨other, rfl⟩, putByte, if_pos below, Option.bind_some]
        apply ih
        · rw [List.length_set]
          exact below
        · rw [List.length_set, show buff.length - (i + 1) = more by omega]
          exact List.not_mem_of_not_mem_cons far

theorem check_line_unreadable (username line buff : Bytes) (size : buff.length = maxUserName)
    (far : 58 ∉ line.take maxUserName) : checkLine (fun _ => true) username line buff = none := by
  have lost := copy_field_no_room line buff 0 (Nat.zero_le _) (by rw [size]; exact far)
  cases copied : copyField (fun _ => true) line 0 buff with
  | none => simp [checkLine, copied]
  | some answer =>
      rw [copied] at lost
      have no_nul : putByte answer.2 answer.1 0 = none := lost
      simp [checkLine, copied, no_nul]

theorem check_line_shown (username user line buff : Bytes) (named : Holds username user) (plain : 0 ∉ user)
    (size : buff.length = maxUserName) (near : 58 ∈ line.take maxUserName) :
    ∃ buff', checkLine (fun _ => true) username line buff = some (decide (shownName line = user), buff') ∧
      buff'.length = maxUserName := by
  obtain ⟨name, more, parts, colon⟩ := List.eq_append_cons_of_mem near
  have whole : line = name ++ 58 :: (more ++ line.drop maxUserName) := by
    calc line = line.take maxUserName ++ line.drop maxUserName := (List.take_append_drop _ _).symm
      _ = name ++ 58 :: (more ++ line.drop maxUserName) := by rw [parts, List.append_assoc, List.cons_append]
  have short : (line.take maxUserName).length ≤ maxUserName := List.length_take_le _ _
  rw [parts] at short
  simp only [List.length_append, List.length_cons] at short
  obtain ⟨buff', checked, -, length⟩ := check_line_copied (fun _ => true) username buff user name
    (more ++ line.drop maxUserName) colon named plain (fun _ _ => rfl) (by omega)
  rw [← whole] at checked
  have shown : shownName line = name.takeWhile fun byte => byte ≠ 0 := by
    rw [shownName]
    congr 1
    rw [whole]
    exact take_while_until name _ 58 colon
  exact ⟨buff', shown ▸ checked, length.trans size⟩

section
variable (username user : Bytes) (named : Holds username user) (plain : 0 ∉ user)
include named plain

theorem find_look_cons (look : Look) (later : List Look) (buff : Bytes) (size : buff.length = maxUserName) :
    (¬Readable look ∧ findLook username (look :: later) buff = none) ∨
    (Readable look ∧ Shows user look ∧ findLook username (look :: later) buff = some (some look)) ∨
    (Passed user look ∧ ∃ buff', buff'.length = maxUserName ∧
      findLook username (look :: later) buff = findLook username later buff') := by
  by_cases near : Readable look
  · obtain ⟨buff', checked, length⟩ := check_line_shown username user look.line buff named plain size near
    by_cases shows : Shows user look
    · rw [decide_eq_true (show shownName look.line = user from shows)] at checked
      exact .inr (.inl ⟨near, shows, by rw [findLook, checked]⟩)
    · rw [decide_eq_false (show ¬shownName look.line = user from shows)] at checked
      exact .inr (.inr ⟨⟨near, shows⟩, buff', length, by rw [findLook, checked]⟩)
  · exact .inl ⟨near, by rw [findLook, check_line_unreadable username look.line buff size near]⟩

theorem find_look_none (entries : List Look) (buff : Bytes) (size : buff.length = maxUserName)
    (all : ∀ look ∈ entries, Passed user look) : findLook username entries buff = some none := by
  induction entries generalizing buff with
  | nil => rfl
  | cons look later ih =>
      rw [List.forall_mem_cons] at all
      rcases find_look_cons username user named plain look later buff size with
        ⟨far, -⟩ | ⟨-, shows, -⟩ | ⟨-, buff', length, goes⟩
      · exact absurd all.1.1 far
      · exact absurd shows all.1.2
      · rw [goes]
        exact ih buff' length all.2

theorem find_look_first (entries : List Look) (buff : Bytes) (look : Look) (size : buff.length = maxUserName)
    (first : Leads (Sought user) (Passed user) entries look) :
    (¬Readable look ∧ findLook username entries buff = none) ∨
    (Readable look ∧ Shows user look ∧ findLook username entries buff = some (some look)) := by
  induction entries generalizing buff with
  | nil => exact absurd first (leads_nil _ _ look)
  | cons head later ih =>
      rcases find_look_cons username user named plain head later buff size with
        ⟨far, lost⟩ | ⟨near, shows, found⟩ | ⟨passed, buff', length, goes⟩
      · rcases (leads_cons _ _ look head later).mp first with ⟨-, rfl⟩ | ⟨passed, -⟩
        · exact .inl ⟨far, lost⟩
        · exact absurd passed.1 far
      · rcases (leads_cons _ _ look head later).mp first with ⟨-, rfl⟩ | ⟨passed, -⟩
        · exact .inr ⟨near, shows, found⟩
        · exact absurd shows passed.2
      · rcases (leads_cons _ _ look head later).mp first with ⟨sought, -⟩ | ⟨-, deeper⟩
        · rcases sought with far | shows
          · exact absurd passed.1 far
          · exact absurd shows passed.2
        · rw [goes]
          exact ih buff' length deeper

end

theorem looks_read (size : Nat) (room : 1 < size) (file : Stream) (line : Bytes) (length : line.length = size) :
    ∀ look ∈ looks size room file line, ∃ eof old,
      old.length = size ∧ look.line = (fgets size ⟨look.rest, eof⟩ old).2 := by
  intro look member
  rw [looks] at member
  split at member
  · rcases List.mem_cons.mp member with rfl | later
    · exact ⟨file.eof, line, length, rfl⟩
    · exact looks_read size room _ _ (fgets_length size file line (Nat.lt_of_succ_lt room) length) look later
  · cases member
termination_by file.left
decreasing_by exact fgets_left size file line room (by assumption)

theorem looks_next (size : Nat) (room : 1 < size) (file : Stream) (line : Bytes) (goes : file.eof = false) :
    looks size room file line =
      ⟨file.rest, (fgets size file line).2⟩ :: looks size room (fgets size file line).1 (fgets size file line).2 := by
  rw [looks, dif_pos goes]

-- Every line is read from its start on: by induction on the bytes in front of it.
theorem looks_reach (size : Nat) (room : 1 < size) (before rest line : Bytes) (starts : Starts before) :
    ∃ look ∈ looks size room ⟨before ++ rest, false⟩ line, look.rest = rest := by
  by_cases empty : before = []
  · subst empty
    refine ⟨⟨rest, (fgets size ⟨rest, false⟩ line).2⟩, ?_, rfl⟩
    rw [looks, dif_pos rfl]
    exact List.mem_cons_self
  · obtain ⟨piece, later, whole, some, read⟩ := read_line_before (size - 1) before rest (by omega) empty starts
    have shorter : later.length < before.length := by
      rw [whole, List.length_append]
      exact Nat.lt_add_of_pos_left (List.length_pos_iff.mpr some)
    obtain ⟨look, member, same⟩ := looks_reach size room later rest (fgets size ⟨before ++ rest, false⟩ line).2
      (starts_behind later piece (whole ▸ starts))
    refine ⟨look, ?_, same⟩
    rw [looks, dif_pos rfl]
    have next : (fgets size ⟨before ++ rest, false⟩ line).1 = ⟨later ++ rest, false⟩ := by
      simp only [fgets, read, Bool.or_false]
    rw [next]
    exact List.mem_cons_of_mem _ member
termination_by before.length

theorem first_field_behind (line behind : Bytes) (colon : 58 ∈ line) :
    ((line ++ behind).takeWhile fun byte => byte ≠ 58) = line.takeWhile fun byte => byte ≠ 58 := by
  obtain ⟨name, more, rfl, plain⟩ := List.eq_append_cons_of_mem colon
  rw [List.append_assoc, List.cons_append, take_while_until name _ 58 plain, take_while_until name more 58 plain]

section
variable (heap : Heap) (passwd user : Bytes) (look : Look)

theorem user_look_line (member : look ∈ userLooks heap passwd) :
    look.line.length = maxUserLine ∧ (look.piece ≠ [] → ∃ after, look.line = look.piece ++ 0 :: after) := by
  obtain ⟨eof, old, length, read⟩ := looks_read maxUserLine user_line_room _ _ (malloc_length _ _) look member
  refine ⟨read ▸ fgets_length maxUserLine _ old (by decide) length, fun some => ?_⟩
  rw [read, fgets]
  dsimp only
  rw [if_neg (show (Lib.readLine (maxUserLine - 1) look.rest).1 ≠ [] from some)]
  exact ⟨_, rfl⟩

theorem taken_whole_line (member : look ∈ userLooks heap passwd) (taken : Taken passwd user look) :
    WholeLine passwd user look := by
  obtain ⟨before, line, behind, ⟨whole, starts, plain, ends⟩, named, rest, after, held⟩ := taken
  have length := (user_look_line heap passwd look member).1
  rw [held] at length
  simp only [List.length_append, List.length_cons] at length
  have start : ∃ before, passwd = before ++ look.rest ∧ Starts before := by
    refine ⟨before, ?_, starts⟩
    rw [whole, rest, List.append_assoc]
  rcases ends with rfl | newline
  · have short : line.length ≤ maxUserLine - 1 := by omega
    have read : look.piece = line := by
      rw [Look.piece, rest, List.append_nil, read_line_end (maxUserLine - 1) line plain short]
    exact ⟨start, .inr (by rw [read, rest, List.append_nil]), read ▸ named⟩
  · obtain ⟨later, rfl⟩ := List.head?_eq_some_iff.mp newline
    have short : line.length < maxUserLine - 1 := by
      simp at length
      omega
    have read : look.piece = line ++ [10] := by
      rw [Look.piece, rest, read_line_newline (maxUserLine - 1) line later plain short]
    refine ⟨start, .inl ?_, ?_⟩
    · rw [read, List.getLast?_concat]
    · rw [read]
      exact ⟨List.mem_append_left [10] named.1, (first_field_behind line [10] named.1).trans named.2⟩

theorem whole_line_taken (member : look ∈ userLooks heap passwd) (whole : WholeLine passwd user look) :
    Taken passwd user look := by
  obtain ⟨⟨before, start, starts⟩, ends, named⟩ := whole
  have some : look.piece ≠ [] := List.ne_nil_of_mem named.1
  obtain ⟨after, held⟩ := (user_look_line heap passwd look member).2 some
  have parts := read_line_parts (maxUserLine - 1) look.rest
  have plain := read_line_plain (maxUserLine - 1) look.rest
  change look.piece ++ _ = look.rest at parts
  change 10 ∉ look.piece.dropLast at plain
  by_cases newline : look.piece.getLast? = Option.some 10
  · obtain ⟨line, piece⟩ := List.getLast?_eq_some_iff.mp newline
    rw [piece, List.dropLast_concat] at plain
    have rest : look.rest = line ++ 10 :: (Lib.readLine (maxUserLine - 1) look.rest).2.1 := by
      rw [piece] at parts
      simpa using parts.symm
    have colon : 58 ∈ line := by
      have among := named.1
      rw [piece] at among
      exact (List.mem_append.mp among).resolve_right (by decide)
    have name := named.2
    rw [piece, first_field_behind line [10] colon] at name
    refine ⟨before, line, _, ⟨?_, starts, plain, .inr rfl⟩, ⟨colon, name⟩, rest, after, ?_⟩
    · exact start.trans (by rw [List.append_assoc, ← rest])
    · rw [held, piece]
      rfl
  · have last : look.piece = look.rest := ends.resolve_left newline
    refine ⟨before, look.piece, [], ⟨?_, starts, plain_not_last _ plain newline, .inl rfl⟩, named, ?_, after, ?_⟩
    · rw [start, last, List.append_nil]
    · rw [last, List.append_nil]
    · rw [held, List.take_nil, List.append_nil]

end

theorem line_at_sought (heap : Heap) (passwd line behind user : Bytes) (look : Look) (nul : 0 ∉ user) (plain : 10 ∉ line)
    (named : FirstField line user) (member : look ∈ userLooks heap passwd) (rest : look.rest = line ++ behind) :
    Sought user look := by
  obtain ⟨name, more, rfl, colon⟩ := List.eq_append_cons_of_mem named.1
  have same : name = user := (take_while_until name more 58 colon).symm.trans named.2
  subst same
  have newline : 10 ∉ name := fun inside => plain (List.mem_append_left _ inside)
  have held := (user_look_line heap passwd look member).2
  rw [List.append_assoc, List.cons_append] at rest
  by_cases short : name.length < maxUserLine - 1
  · obtain ⟨seen, read⟩ := read_line_open (maxUserLine - 1) name (more ++ behind) 58 newline short
    have piece : look.piece = name ++ 58 :: seen := by rw [Look.piece, rest, read]
    obtain ⟨after, line⟩ := held (by simp [piece])
    refine .inr ?_
    rw [Shows, shownName, line, piece, List.append_assoc, List.cons_append, take_while_until name _ 58 colon,
      take_while_whole name 0 nul]
  · have full : (name.take (maxUserLine - 1)).length = maxUserLine - 1 := List.length_take_of_le (Nat.not_lt.mp short)
    have read := read_line_full (name.take (maxUserLine - 1)) (name.drop (maxUserLine - 1) ++ 58 :: (more ++ behind))
      fun inside => newline (List.mem_of_mem_take inside)
    rw [full, ← List.append_assoc, List.take_append_drop] at read
    have piece : look.piece = name.take (maxUserLine - 1) := by rw [Look.piece, rest, read]
    obtain ⟨after, line⟩ := held (List.ne_nil_of_length_pos (by rw [piece, full]; decide))
    refine .inl fun near => colon ?_
    rw [Readable, line, piece, List.take_append_of_le_length (by rw [full]; decide)] at near
    exact List.mem_of_mem_take (List.mem_of_mem_take near)

theorem user_line_right_iff (heap : Heap) (passwd username user : Bytes) (named : Holds username user) (plain : 0 ∉ user) :
    UserLineRight heap passwd username user ↔ UserLineGuard heap passwd user := by
  have size : (malloc heap.user maxUserName).length = maxUserName := malloc_length _ _
  constructor
  · rintro ⟨answer, -, looked, right⟩ look first
    have member := (leads_mem _ _ _ look first).1
    rcases find_look_first username user named plain _ _ look size first with ⟨-, lost⟩ | ⟨near, -, found⟩
    · cases looked.symm.trans lost
    · cases looked.symm.trans found
      exact ⟨near, taken_whole_line heap passwd user look member right⟩
  · intro guard
    by_cases some : ∃ look ∈ userLooks heap passwd, Sought user look
    · obtain ⟨sought, among, hit⟩ := some
      obtain ⟨look, leads⟩ := leads_exists (Sought user) _ sought among hit
      have first := leads_weaken (Sought user) _ (Passed user) (fun other => (not_sought_passed user other).mp) _ look leads
      have member := (leads_mem _ _ _ look first).1
      obtain ⟨near, whole⟩ := guard look first
      rcases find_look_first username user named plain _ _ look size first with ⟨far, -⟩ | ⟨-, -, found⟩
      · exact absurd near far
      · have looked : userLook heap passwd username = .some (.some look) := found
        refine ⟨.some look, by rw [get_user_line_look, looked]; rfl, looked, ?_⟩
        exact whole_line_taken heap passwd user look member whole
    · have all : ∀ look ∈ userLooks heap passwd, Passed user look := fun look member =>
        (not_sought_passed user look).mp fun hit => some ⟨look, member, hit⟩
      have looked : userLook heap passwd username = .some none := find_look_none username user named plain _ _ size all
      refine ⟨none, by rw [get_user_line_look, looked]; rfl, looked, fun before line behind at_line field => ?_⟩
      obtain ⟨look, member, rest⟩ := looks_reach maxUserLine user_line_room before (line ++ behind)
        (malloc heap.userLine maxUserLine) at_line.starts
      rw [← List.append_assoc, ← at_line.whole] at member
      have sought := line_at_sought heap passwd line behind user look plain at_line.plain field member rest
      exact (not_sought_passed user look).mpr (all look member) sought

-- bob:y and ann:x.
def twoLines : Bytes := [98, 111, 98, 58, 121, 10, 97, 110, 110, 58, 120, 10]

theorem user_line_right_second :
    Holds [97, 110, 110, 0] [97, 110, 110] ∧ 0 ∉ ([97, 110, 110] : Bytes) ∧
      UserLineRight (.filled 0) twoLines [97, 110, 110, 0] [97, 110, 110] := by
  have named : Holds [97, 110, 110, 0] [97, 110, 110] := holds_text [97, 110, 110] []
  refine ⟨named, by decide, (user_line_right_iff (.filled 0) twoLines _ _ named (by decide)).mpr fun look first => ?_⟩
  rw [userLooks, looks_next _ _ _ _ rfl] at first
  rcases (leads_cons _ _ look _ _).mp first with ⟨bob, -⟩ | ⟨-, second⟩
  · rcases bob with far | shows
    · exact absurd (by decide) far
    · exact absurd shows (by decide)
  · rw [looks_next _ _ _ _ (by decide)] at second
    rcases (leads_cons _ _ look _ _).mp second with ⟨-, rfl⟩ | ⟨passed, -⟩
    · exact ⟨by decide, ⟨twoLines.take 6, by decide, .inr (by decide)⟩, .inl (by decide), by decide, by decide⟩
    · exact absurd (by decide) passed.2

theorem user_line_runs_off :
    ¬∀ (heap : Heap) (passwd username user : Bytes), Holds username user → 0 ∉ user →
      UserLineRight heap passwd username user := by
  intro right
  obtain ⟨answer, -, looked, -⟩ := right (.filled 0) [97, 110, 110, 10] [97, 110, 110, 0] [97, 110, 110]
    (holds_text [97, 110, 110] []) (by decide)
  rw [userLook, userLooks, looks_next _ _ _ _ rfl, findLook, check_line_unreadable _ _ _ (malloc_length _ _) (by decide)] at looked
  cases looked

end Yaup
