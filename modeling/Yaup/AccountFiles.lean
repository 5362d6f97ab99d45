import Yaup.Login

set_option autoImplicit false

namespace Yaup

open Lib

structure Field where
  text : Bytes
  plain : ∀ byte ∈ text, byte ≠ 58 ∧ byte ≠ 10 ∧ byte ≠ 0

theorem plain_text (text : Bytes) (all : (text.all fun byte => byte != 58 && byte != 10 && byte != 0) = true) :
    ∀ byte ∈ text, byte ≠ 58 ∧ byte ≠ 10 ∧ byte ≠ 0 := by
  intro byte member
  have each := List.all_eq_true.mp all byte member
  rw [Bool.and_eq_true, Bool.and_eq_true, bne_iff_ne, bne_iff_ne, bne_iff_ne] at each
  exact ⟨each.1.1, each.1.2, each.2⟩

structure Entry where
  name : Field
  second : Field
  others : List Field
  fits : name.text.length < maxUserName

def Entry.body (e : Entry) : Bytes :=
  e.name.text ++ 58 :: (e.second.text ++ e.others.flatMap fun field => 58 :: field.text)

-- The last line may lack its newline.
def fileLines (ended : Bool) : List Entry → List Bytes
  | [] => []
  | e :: rest => (if rest = [] ∧ ended = false then e.body else e.body ++ [10]) :: fileLines ended rest

structure AccountFile (size : Nat) where
  entries : List Entry
  ended : Bool
  fits : ∀ line ∈ fileLines ended entries, line.length < size

def AccountFile.bytes {size : Nat} (file : AccountFile size) : Bytes := (fileLines file.ended file.entries).flatten

def OnLine (line : Bytes) (e : Entry) : Prop := ∃ last after, line = e.body ++ last :: after ∧ (last = 10 ∨ last = 0)

theorem entry_body_plain (e : Entry) : 10 ∉ e.body := by
  intro member
  simp only [Entry.body, List.mem_append, List.mem_cons, List.mem_flatMap] at member
  rcases member with named | colon | second | ⟨field, -, colon | other⟩
  · exact (e.name.plain 10 named).2.1 rfl
  · exact absurd colon (by decide)
  · exact (e.second.plain 10 second).2.1 rfl
  · exact absurd colon (by decide)
  · exact (field.plain 10 other).2.1 rfl

theorem field_no_colon (field : Field) : 58 ∉ field.text := fun member => (field.plain 58 member).1 rfl

theorem field_no_nul (field : Field) : 0 ∉ field.text := fun member => (field.plain 0 member).2.2 rfl

theorem word_no_nul (word : Word) : 0 ∉ word.text := fun member => (word.plain 0 member).1 rfl

theorem on_line_name (line : Bytes) (e : Entry) (held : OnLine line e) :
    ∃ more, line = e.name.text ++ 58 :: more ∧ (more.head? = some 120 ↔ e.second.text.head? = some 120) ∧ more ≠ [] := by
  obtain ⟨last, after, rfl, ends⟩ := held
  refine ⟨e.second.text ++ (e.others.flatMap (fun field => 58 :: field.text) ++ last :: after), ?_, ?_, ?_⟩
  · simp [Entry.body]
  · cases second : e.second.text with
    | cons byte rest => simp
    | nil =>
        cases e.others with
        | cons field rest => simp
        | nil => rcases ends with rfl | rfl <;> simp
  · simp

theorem copy_field_name (goOn : Nat → Bool) (name more front old after : Bytes) (plain : 58 ∉ name)
    (bounded : ∀ i < front.length + name.length, goOn i = true) (room : old.length = name.length) :
    copyField goOn (name ++ 58 :: more) front.length (front ++ old ++ after) =
      some (front.length + name.length, front ++ name ++ after) := by
  induction name generalizing front old with
  | nil =>
      have none : old = [] := List.length_eq_zero_iff.mp room
      simp [copyField, none]
  | cons byte rest ih =>
      cases old with
      | nil => cases room
      | cons stale old =>
          have other : byte ≠ 58 := fun same => plain (same ▸ List.mem_cons_self)
          have goes : goOn front.length = true := bounded _ (by simp)
          have inside : front.length < (front ++ (stale :: old) ++ after).length := by simp
          have placed : (front ++ (stale :: old) ++ after).set front.length byte = (front ++ [byte]) ++ old ++ after := by
            simp
          have deeper := ih (front ++ [byte]) old (List.not_mem_of_not_mem_cons plain)
            (fun i below => bounded i (by simp at below ⊢; omega)) (by simpa using room)
          have total : (front ++ [byte]).length + rest.length = front.length + (byte :: rest).length := by simp; omega
          rw [total] at deeper
          rw [List.cons_append, copyField, if_pos ⟨other, goes⟩, putByte, if_pos inside, placed, Option.bind_some]
          simpa using deeper

theorem check_line_copied (goOn : Nat → Bool) (username buff user name more : Bytes) (colon : 58 ∉ name)
    (named : Holds username user) (plain : 0 ∉ user) (bounded : ∀ i < name.length, goOn i = true)
    (fits : name.length < buff.length) :
    ∃ buff', checkLine goOn username (name ++ 58 :: more) buff =
        some (decide ((name.takeWhile fun byte => byte ≠ 0) = user), buff') ∧
      Holds buff' (name.takeWhile fun byte => byte ≠ 0) ∧ buff'.length = buff.length := by
  obtain ⟨old, stale, after, rfl, length⟩ : ∃ old stale after, buff = old ++ stale :: after ∧
      old.length = name.length := by
    refine ⟨buff.take name.length, buff[name.length], buff.drop (name.length + 1), ?_, ?_⟩
    · simp
    · simp; omega
  have copied := copy_field_name goOn name more [] old (stale :: after) colon
    (fun i below => bounded i (by simpa using below)) length
  simp only [List.nil_append, List.length_nil, Nat.zero_add] at copied
  have holds := holds_shown name after
  have same := same_string_texts _ username _ user (take_while_plain name 0) plain holds named
  refine ⟨name ++ 0 :: after, ?_, holds, by simp [length]⟩
  rw [checkLine, copied, Option.bind_eq_bind, Option.bind_some]
  simp [putByte, same]

theorem check_line_name (goOn : Nat → Bool) (username buff user name more : Bytes) (colon : 58 ∉ name) (nul : 0 ∉ name)
    (named : Holds username user) (plain : 0 ∉ user) (bounded : ∀ i < name.length, goOn i = true)
    (fits : name.length < buff.length) :
    ∃ buff', checkLine goOn username (name ++ 58 :: more) buff = some (decide (name = user), buff') ∧
      Holds buff' name ∧ buff'.length = buff.length := by
  have checked := check_line_copied goOn username buff user name more colon named plain bounded fits
  rwa [take_while_whole name 0 nul] at checked

theorem check_line_entry (goOn : Nat → Bool) (username line buff user : Bytes) (e : Entry) (held : OnLine line e)
    (named : Holds username user) (plain : 0 ∉ user) (bounded : ∀ i < maxUserName, goOn i = true)
    (room : maxUserName ≤ buff.length) :
    ∃ buff', checkLine goOn username line buff = some (decide (e.name.text = user), buff') ∧
      Holds buff' e.name.text ∧ buff'.length = buff.length := by
  obtain ⟨more, rfl, -, -⟩ := on_line_name line e held
  have fits := e.fits
  exact check_line_name goOn username buff user e.name.text more (field_no_colon e.name) (field_no_nul e.name) named plain
    (fun i below => bounded i (by omega)) (by omega)

theorem fgets_entry (size : Nat) (ended : Bool) (e : Entry) (rest : List Entry) (line : Bytes)
    (fits : ∀ text ∈ fileLines ended (e :: rest), text.length < size) :
    OnLine (fgets size { rest := (fileLines ended (e :: rest)).flatten, eof := false } line).2 e ∧
      ∃ eof, (fgets size { rest := (fileLines ended (e :: rest)).flatten, eof := false } line).1 =
        { rest := (fileLines ended rest).flatten, eof := eof } ∧ (eof = true → rest = []) := by
  have plain := entry_body_plain e
  have first := fits _ List.mem_cons_self
  have some : e.body ≠ [] := by simp [Entry.body]
  by_cases last : rest = [] ∧ ended = false
  · obtain ⟨rfl, rfl⟩ := last
    simp only [true_and, if_pos] at first
    have read := read_line_end (size - 1) e.body plain (by omega)
    simp only [fgets, fileLines, true_and, if_pos, List.flatten_cons, List.flatten_nil, List.append_nil, read, if_neg some]
    exact ⟨⟨0, _, rfl, .inr rfl⟩, _, rfl, fun _ => trivial⟩
  · rw [if_neg last] at first
    have read := read_line_newline (size - 1) e.body (fileLines ended rest).flatten plain (by simp at first; omega)
    have joined : (fileLines ended (e :: rest)).flatten = e.body ++ 10 :: (fileLines ended rest).flatten := by
      simp [fileLines, if_neg last]
    have line : e.body ++ [10] ≠ [] := by simp
    simp only [joined, fgets, read, if_neg line]
    refine ⟨⟨10, _, List.append_assoc _ _ _, .inl rfl⟩, _, rfl, ?_⟩
    simp

-- By induction on the lines. Where none is left and the end was not met yet, fgets leaves
-- the last line in the buffer, and the loop checks that line once more.
theorem find_line_entries (size : Nat) (room : 1 < size) (goOn : Nat → Bool) (username user line buff : Bytes)
    (ended : Bool) (entries : List Entry) (named : Holds username user) (plain : 0 ∉ user)
    (bounded : ∀ i < maxUserName, goOn i = true) (wide : maxUserName ≤ buff.length)
    (fits : ∀ text ∈ fileLines ended entries, text.length < size)
    (held : entries = [] → ∃ e, OnLine line e ∧ e.name.text ≠ user) :
    ∃ line' buff', findLine size room goOn username { rest := (fileLines ended entries).flatten, eof := false } line buff =
        some ((entries.find? fun e => e.name.text = user).isSome, line', buff') ∧
      ∀ e, entries.find? (fun e => e.name.text = user) = some e →
        OnLine line' e ∧ Holds buff' e.name.text ∧ maxUserName ≤ buff'.length := by
  induction entries generalizing line buff with
  | nil =>
      obtain ⟨e, on, other⟩ := held rfl
      obtain ⟨buff', checked, -, -⟩ := check_line_entry goOn username line buff user e on named plain bounded wide
      rw [findLine, dif_pos rfl]
      simp only [fileLines, List.flatten_nil, fgets_empty size line room, checked, decide_eq_false other]
      rw [findLine, dif_neg (by simp)]
      exact ⟨line, buff', rfl, fun e found => by cases found⟩
  | cons e rest ih =>
      obtain ⟨on, eof, after, ends⟩ := fgets_entry size ended e rest line fits
      obtain ⟨buff', checked, copied, length⟩ :=
        check_line_entry goOn username _ buff user e on named plain bounded wide
      rw [findLine, dif_pos rfl]
      by_cases same : e.name.text = user
      · simp only [checked, decide_eq_true same]
        have first : (e :: rest).find? (fun e => e.name.text = user) = some e := by simp [same]
        refine ⟨_, buff', by rw [first]; rfl, fun other found => ?_⟩
        rw [first] at found
        cases found
        exact ⟨on, copied, length ▸ wide⟩
      · simp only [checked, decide_eq_false same, after]
        have skipped : (e :: rest).find? (fun e => e.name.text = user) = rest.find? (fun e => e.name.text = user) := by
          simp [same]
        rw [skipped]
        cases eof with
        | false =>
            exact ih _ buff' (length ▸ wide) (fun text member => fits text (List.mem_cons_of_mem _ member))
              (fun _ => ⟨e, on, same⟩)
        | true =>
            rw [ends rfl, findLine, dif_neg (by simp)]
            exact ⟨_, buff', rfl, fun e found => by cases found⟩

end Yaup
