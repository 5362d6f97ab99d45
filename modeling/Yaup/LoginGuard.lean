import Yaup.AccountFiles

set_option autoImplicit false

namespace Yaup

open Lib

def AccountFile.lookup {size : Nat} (file : AccountFile size) (user : Bytes) : Option Entry :=
  file.entries.find? fun e => e.name.text = user

def AccountFile.Has {size : Nat} (file : AccountFile size) (user second : Bytes) : Prop :=
  ∃ e ∈ file.entries, e.name.text = user ∧ e.second.text = second

def Granted (passwd : AccountFile maxUserLine) (shadow : AccountFile maxShdwLine) (user password : Bytes) : Prop :=
  ∃ e ∈ passwd.entries, e.name.text = user ∧ (e.second.text.head? ≠ some 120 ∨ shadow.Has user password)

structure Guarded (passwd : AccountFile maxUserLine) (shadow : AccountFile maxShdwLine)
    (user password : Word) : Prop where
  reaches : ∀ (heap : Heap) (username : Bytes), username.length = maxUserName →
    ∃ reached after, round heap passwd.bytes shadow.bytes username user password = some (reached, after) ∧
      (reached = true → Granted passwd shadow user.text password.text)
  answers : ∀ (heap : Heap) (username typed : Bytes), Holds username user.text → Holds typed password.text →
    ∃ answer, matchPassword heap shadow.bytes username typed = some answer ∧
      (answer ≠ 0 ↔ shadow.Has user.text password.text)

theorem lookup_some {size : Nat} (file : AccountFile size) (user : Bytes) (e : Entry)
    (found : file.lookup user = some e) : e ∈ file.entries ∧ e.name.text = user := by
  have named := List.find?_some found
  exact ⟨List.mem_of_find?_eq_some found, by simpa using named⟩

theorem lookup_none {size : Nat} (file : AccountFile size) (user : Bytes) (missing : file.lookup user = none)
    (e : Entry) (member : e ∈ file.entries) : e.name.text ≠ user := by
  simpa using List.find?_eq_none.mp missing e member

theorem get_user_line_entries (heap : Heap) (passwd : AccountFile maxUserLine) (username user : Bytes)
    (named : Holds username user) (plain : 0 ∉ user) (some : passwd.entries ≠ []) :
    (passwd.lookup user = none ∧ getUserLine heap passwd.bytes username = .some none) ∨
    ∃ e line, passwd.lookup user = .some e ∧ OnLine line e ∧
      getUserLine heap passwd.bytes username = .some (.some line) := by
  obtain ⟨line, buff, found, held⟩ := find_line_entries maxUserLine (by decide) (fun _ => true) username user
    (malloc heap.userLine maxUserLine) (malloc heap.user maxUserName) passwd.ended passwd.entries named plain
    (fun _ _ => rfl) (by simp) passwd.fits (fun empty => absurd empty some)
  cases search : passwd.lookup user with
  | none =>
      rw [AccountFile.lookup] at search
      rw [search] at found
      exact .inl ⟨rfl, by simp [getUserLine, fopen, AccountFile.bytes, found]⟩
  | some e =>
      have on := (held e search).1
      rw [AccountFile.lookup] at search
      rw [search] at found
      exact .inr ⟨e, line, rfl, on, by simp [getUserLine, fopen, AccountFile.bytes, found]⟩

theorem has_password_name (name more : Bytes) (plain : 58 ∉ name) :
    hasPassword (name ++ 58 :: more) = more.head?.map fun next => next == 120 := by
  induction name with
  | nil => rfl
  | cons byte rest ih =>
      have other : byte ≠ 58 := fun same => plain (same ▸ List.mem_cons_self)
      rw [List.cons_append, hasPassword, if_pos other]
      exact ih (List.not_mem_of_not_mem_cons plain)

theorem has_password_line (line : Bytes) (e : Entry) (held : OnLine line e) :
    hasPassword line = some (decide (e.second.text.head? = some 120)) := by
  obtain ⟨more, rfl, second, some⟩ := on_line_name line e held
  rw [has_password_name _ more (field_no_colon e.name)]
  cases more with
  | nil => exact absurd rfl some
  | cons byte rest =>
      have same : decide (e.second.text.head? = .some 120) = (byte == 120) := by
        rw [Bool.eq_iff_iff]
        simp [← second]
      rw [same]
      rfl

theorem match_password_entries (heap : Heap) (shadow : AccountFile maxShdwLine) (username typed : Bytes)
    (user password : Word) (named : Holds username user.text) (given : Holds typed password.text)
    (some : shadow.entries ≠ []) :
    matchPassword heap shadow.bytes username typed =
      .some (if (shadow.lookup user.text).isSome ∧ password.text ≠ user.text then 0 else 1) := by
  obtain ⟨line, buff, found, held⟩ := find_line_entries maxShdwLine (by decide) (fun i => decide (i < maxUserName))
    username user.text (malloc heap.line maxShdwLine) (malloc heap.buff maxShdwLine) shadow.ended shadow.entries
    named (word_no_nul user) (fun i below => decide_eq_true below) (by simp; decide) shadow.fits
    (fun empty => absurd empty some)
  cases search : shadow.lookup user.text with
  | none =>
      rw [AccountFile.lookup] at search
      rw [search] at found
      simp [matchPassword, fopen, AccountFile.bytes, found]
  | some e =>
      obtain ⟨on, ⟨after, rfl⟩, -⟩ := held e search
      have same := (lookup_some shadow user.text e search).2
      obtain ⟨more, rfl, -, -⟩ := on_line_name line e on
      rw [AccountFile.lookup] at search
      rw [search] at found
      have copied := copy_field_name (fun _ => true) e.name.text more [] e.name.text (0 :: after)
        (field_no_colon e.name) (fun _ _ => rfl) rfl
      simp only [List.nil_append, List.length_nil, Nat.zero_add] at copied
      have compared := same_string_texts _ typed e.name.text password.text (field_no_nul e.name)
        (word_no_nul password) (holds_text e.name.text after) given
      rw [same] at copied compared found
      by_cases typedName : password.text = user.text
      · simp [matchPassword, fopen, AccountFile.bytes, found, copied, compared, typedName]
      · simp [matchPassword, fopen, AccountFile.bytes, found, copied, compared, typedName, Ne.symm typedName]

theorem scan_word_holds (buffer after : Bytes) (word : Word) (scanned : scanWord buffer word = some after) :
    word.text.length < buffer.length ∧ Holds after word.text ∧ after.length = buffer.length := by
  by_cases fits : word.text.length < buffer.length
  · rw [scanWord, if_pos fits] at scanned
    cases scanned
    exact ⟨fits, holds_text _ _, by simp; omega⟩
  · rw [scanWord, if_neg fits] at scanned
    cases scanned

theorem scan_word_fits (buffer : Bytes) (word : Word) (fits : word.text.length < buffer.length) :
    ∃ after, scanWord buffer word = some after := ⟨_, if_pos fits⟩

def AccountFile.Asks (passwd : AccountFile maxUserLine) (user : Bytes) : Prop :=
  ∃ e, passwd.lookup user = some e ∧ e.second.text.head? = some 120

-- When a round comes to execve: by an entry without a password, by one whose user shadow
-- does not have, or by the user's own name for a password.
theorem round_entries (heap : Heap) (passwd : AccountFile maxUserLine) (shadow : AccountFile maxShdwLine)
    (username : Bytes) (user password : Word) (users : passwd.entries ≠ []) (secrets : shadow.entries ≠ [])
    (length : username.length = maxUserName) (userFits : user.text.length < maxUserName)
    (passwordFits : passwd.Asks user.text → password.text.length < maxPasswd) :
    ∃ reached after, round heap passwd.bytes shadow.bytes username user password = some (reached, after) ∧
      after.length = maxUserName ∧
      (reached = true ↔ ∃ e, passwd.lookup user.text = some e ∧
        (e.second.text.head? = some 120 → shadow.lookup user.text = none ∨ password.text = user.text)) := by
  obtain ⟨after, scanned⟩ := scan_word_fits username user (length ▸ userFits)
  obtain ⟨-, named, same⟩ := scan_word_holds username after user scanned
  rcases get_user_line_entries heap passwd after user.text named (word_no_nul user) users with
    ⟨missing, got⟩ | ⟨e, line, found, on, got⟩
  · refine ⟨false, after, by simp [round, scanned, got], same.trans length, ?_⟩
    simp [missing]
  · have second := has_password_line line e on
    by_cases asks : e.second.text.head? = some 120
    · obtain ⟨typed, given⟩ := scan_word_fits (malloc heap.passwd maxPasswd) password
        (by simpa using passwordFits ⟨e, found, asks⟩)
      have holds := (scan_word_holds _ typed password given).2.1
      have matched := match_password_entries heap shadow after typed user password named holds secrets
      rw [decide_eq_true asks] at second
      refine ⟨_, after, by simp [round, scanned, got, second, given, matched]; rfl, same.trans length, ?_⟩
      simp only [found]
      cases shadow.lookup user.text <;> simp [asks]
    · rw [decide_eq_false asks] at second
      refine ⟨true, after, by simp [round, scanned, got, second], same.trans length, ?_⟩
      simp [found, asks]

theorem copy_field_runs_off (line buff : Bytes) (i : Nat) (plain : 58 ∉ line) :
    copyField (fun _ => true) line i buff = none := by
  induction line generalizing i buff with
  | nil => rfl
  | cons byte rest ih =>
      have other : byte ≠ 58 := fun same => plain (same ▸ List.mem_cons_self)
      rw [copyField, if_pos ⟨other, rfl⟩, putByte]
      split
      · exact ih _ _ (List.not_mem_of_not_mem_cons plain)
      · rfl

-- An empty file leaves the malloced line as it was, and the scans read it all the same.
theorem find_line_empty (size : Nat) (room : 1 < size) (goOn : Nat → Bool) (username line buff : Bytes) :
    findLine size room goOn username (fopen []) line buff =
      (checkLine goOn username line buff).map fun check => (check.1, line, check.2) := by
  rw [findLine, dif_pos (show (fopen []).eof = false from rfl)]
  simp only [fopen, fgets_empty size line room]
  cases check : checkLine goOn username line buff with
  | none => rfl
  | some answer =>
      obtain ⟨found, after⟩ := answer
      cases found with
      | true => rfl
      | false =>
          simp only []
          rw [findLine, dif_neg (by simp)]
          rfl

def Heap.filled (byte : UInt8) : Heap :=
  ⟨fun _ => byte, fun _ => byte, fun _ => byte, fun _ => byte, fun _ => byte⟩

theorem malloc_filled (byte : UInt8) (size : Nat) : malloc (fun _ => byte) size = List.replicate size byte := by
  simp [malloc]

theorem get_user_line_empty (username : Bytes) : getUserLine (.filled 0) [] username = none := by
  have plain : 58 ∉ malloc (fun _ => 0) maxUserLine := by simp [malloc]
  have check : checkLine (fun _ => true) username (malloc (fun _ => 0) maxUserLine) (malloc (fun _ => 0) maxUserName) =
      none := by
    simp [checkLine, copy_field_runs_off _ _ _ plain]
  simp only [getUserLine, Heap.filled, find_line_empty, check]
  rfl

theorem check_line_colon (goOn : Nat → Bool) (username rest after : Bytes) (byte : UInt8) (user : Word)
    (named : Holds username user.text) :
    checkLine goOn username (58 :: rest) (byte :: after) = some (false, 0 :: after) := by
  have other := same_string_texts (0 :: after) username [] user.text List.not_mem_nil (word_no_nul user)
    (holds_text [] after) named
  rw [decide_eq_false (Ne.symm user.some)] at other
  simp [checkLine, copyField, putByte, other]

theorem match_password_empty (username typed : Bytes) (user : Word) (named : Holds username user.text) :
    matchPassword (.filled 58) [] username typed = some 1 := by
  obtain ⟨rest, line⟩ : ∃ rest, malloc (fun _ => 58) maxShdwLine = 58 :: rest :=
    ⟨_, (malloc_filled 58 maxShdwLine).trans List.replicate_succ⟩
  simp only [matchPassword, Heap.filled, find_line_empty, line, check_line_colon _ _ _ _ _ user named]
  rfl

theorem file_bytes_empty {size : Nat} (file : AccountFile size) (empty : file.entries = []) : file.bytes = [] := by
  simp [AccountFile.bytes, empty, fileLines]

theorem answer_right_iff (shadow : AccountFile maxShdwLine) (user password : Bytes) :
    ((if (shadow.lookup user).isSome ∧ password ≠ user then 0 else 1) ≠ 0 ↔ shadow.Has user password) ↔
      (∃ e ∈ shadow.entries, e.name.text = user) ∧ (password = user ↔ shadow.Has user password) := by
  cases search : shadow.lookup user with
  | none =>
      have missing := lookup_none shadow user search
      have noEntry : ¬ shadow.Has user password := fun ⟨e, member, same, _⟩ => missing e member same
      have noLine : ¬ ∃ e ∈ shadow.entries, e.name.text = user := fun ⟨e, member, same⟩ => missing e member same
      simp [noEntry, noLine]
  | some e =>
      have line : ∃ e ∈ shadow.entries, e.name.text = user := ⟨e, lookup_some shadow user e search⟩
      by_cases name : password = user <;> simp [line, name]

section Guarded

variable (passwd : AccountFile maxUserLine) (shadow : AccountFile maxShdwLine) (user password : Word)

theorem guarded_user_fits (guarded : Guarded passwd shadow user password) : user.text.length < maxUserName := by
  obtain ⟨reached, after, done, -⟩ := guarded.reaches (.filled 0) (malloc (fun _ => 0) maxUserName) (malloc_length _ _)
  by_cases fits : user.text.length < maxUserName
  · exact fits
  · simp [round, scanWord, fits] at done

theorem guarded_users (guarded : Guarded passwd shadow user password) : passwd.entries ≠ [] := by
  intro empty
  obtain ⟨reached, after, done, -⟩ := guarded.reaches (.filled 0) (malloc (fun _ => 0) maxUserName) (malloc_length _ _)
  have fits := guarded_user_fits passwd shadow user password guarded
  simp [round, scanWord, fits, file_bytes_empty passwd empty, get_user_line_empty] at done

theorem guarded_secrets (guarded : Guarded passwd shadow user password) : shadow.entries ≠ [] := by
  intro empty
  obtain ⟨answer, done, right⟩ := guarded.answers (.filled 58) _ _ (holds_text user.text []) (holds_text password.text [])
  rw [file_bytes_empty shadow empty, match_password_empty _ _ user (holds_text user.text [])] at done
  cases done
  obtain ⟨e, member, -⟩ := right.mp (by decide)
  simp [empty] at member

theorem guarded_password_fits (guarded : Guarded passwd shadow user password) (asks : passwd.Asks user.text) :
    password.text.length < maxPasswd := by
  obtain ⟨reached, after, done, -⟩ := guarded.reaches (.filled 0) (malloc (fun _ => 0) maxUserName) (malloc_length _ _)
  obtain ⟨username, scanned⟩ := scan_word_fits (malloc (fun _ => 0) maxUserName) user
    (by simpa using guarded_user_fits passwd shadow user password guarded)
  obtain ⟨-, named, -⟩ := scan_word_holds _ username user scanned
  obtain ⟨e, found, second⟩ := asks
  rcases get_user_line_entries (.filled 0) passwd username user.text named (word_no_nul user)
    (guarded_users passwd shadow user password guarded) with ⟨missing, -⟩ | ⟨e', line, found', on, got⟩
  · rw [found] at missing
    cases missing
  · rw [found] at found'
    cases found'
    have asked := has_password_line line e on
    rw [decide_eq_true second] at asked
    by_cases fits : password.text.length < maxPasswd
    · exact fits
    · have refused : scanWord (malloc (Heap.filled 0).passwd maxPasswd) password = none := by simp [scanWord, fits]
      simp [round, scanned, got, asked, refused] at done

theorem login_guarded_iff :
    Guarded passwd shadow user password ↔
      user.text.length < maxUserName ∧ (passwd.Asks user.text → password.text.length < maxPasswd) ∧
        passwd.entries ≠ [] ∧ (∃ e ∈ shadow.entries, e.name.text = user.text) ∧
        (password.text = user.text ↔ shadow.Has user.text password.text) := by
  constructor
  · intro guarded
    obtain ⟨answer, done, right⟩ :=
      guarded.answers (.filled 0) _ _ (holds_text user.text []) (holds_text password.text [])
    rw [match_password_entries (.filled 0) shadow _ _ user password (holds_text _ _) (holds_text _ _)
      (guarded_secrets passwd shadow user password guarded)] at done
    cases done
    exact ⟨guarded_user_fits passwd shadow user password guarded,
      guarded_password_fits passwd shadow user password guarded,
      guarded_users passwd shadow user password guarded, (answer_right_iff shadow _ _).mp right⟩
  · rintro ⟨userFits, passwordFits, users, known, secret⟩
    have secrets : shadow.entries ≠ [] := by
      obtain ⟨e, member, -⟩ := known
      exact List.ne_nil_of_mem member
    refine ⟨fun heap username length => ?_, fun heap username typed named given => ?_⟩
    · obtain ⟨reached, after, done, -, when⟩ :=
        round_entries heap passwd shadow username user password users secrets length userFits passwordFits
      refine ⟨reached, after, done, fun yes => ?_⟩
      obtain ⟨e, found, asked⟩ := when.mp yes
      obtain ⟨member, same⟩ := lookup_some passwd user.text e found
      refine ⟨e, member, same, ?_⟩
      by_cases second : e.second.text.head? = some 120
      · rcases asked second with missing | name
        · obtain ⟨s, listed, named⟩ := known
          exact absurd named (lookup_none shadow user.text missing s listed)
        · exact .inr (secret.mp name)
      · exact .inl second
    · exact ⟨_, match_password_entries heap shadow username typed user password named given secrets,
        (answer_right_iff shadow _ _).mpr ⟨known, secret⟩⟩

end Guarded

theorem round_length (heap : Heap) (passwd shadow username after : Bytes) (user password : Word) (reached : Bool)
    (done : round heap passwd shadow username user password = some (reached, after)) :
    after.length = username.length := by
  obtain ⟨scanned, took, rest⟩ := Option.bind_eq_some_iff.mp done
  have length := (scan_word_holds username scanned user took).2.2
  obtain ⟨found, -, rest⟩ := Option.bind_eq_some_iff.mp rest
  cases found with
  | none =>
      cases rest
      exact length
  | some line =>
      obtain ⟨asks, -, rest⟩ := Option.bind_eq_some_iff.mp rest
      cases asks with
      | false =>
          cases rest
          exact length
      | true =>
          obtain ⟨typed, -, rest⟩ := Option.bind_eq_some_iff.mp rest
          obtain ⟨answer, -, rest⟩ := Option.bind_eq_some_iff.mp rest
          cases rest
          exact length

theorem login_guarded (passwd : AccountFile maxUserLine) (shadow : AccountFile maxShdwLine) (heaps : Nat → Heap)
    (n : Nat) (username : Bytes) (typed : List (Word × Word)) (length : username.length = maxUserName)
    (guarded : ∀ pair ∈ typed, Guarded passwd shadow pair.1 pair.2) :
    ∃ reached, login passwd.bytes shadow.bytes heaps n username typed = some reached ∧
      ∀ pair ∈ reached, Granted passwd shadow pair.1.text pair.2.text := by
  induction typed generalizing n username with
  | nil => exact ⟨[], rfl, fun pair member => by cases member⟩
  | cons pair rest ih =>
      obtain ⟨user, password⟩ := pair
      have first := guarded _ List.mem_cons_self
      obtain ⟨reached, after, done, granted⟩ := first.reaches (heaps n) username length
      obtain ⟨later, ran, all⟩ := ih (n + 1) after ((round_length _ _ _ _ _ _ _ _ done).trans length)
        fun pair member => guarded pair (List.mem_cons_of_mem _ member)
      cases reached with
      | false => exact ⟨later, by simp [login, done, ran], all⟩
      | true =>
          refine ⟨(user, password) :: later, by simp [login, done, ran], ?_⟩
          intro pair member
          rcases List.mem_cons.mp member with rfl | member
          · exact granted rfl
          · exact all pair member

def bob : Word := ⟨[98, 111, 98], by simp, by simp [IsSpace]⟩
def secret : Word := ⟨[112, 119], by simp, by simp [IsSpace]⟩

-- bob:x in /etc/passwd, and only ann:pw in /etc/shadow.
def bobFile : AccountFile maxUserLine :=
  ⟨[⟨⟨[98, 111, 98], by simp⟩, ⟨[120], by simp⟩, [], by decide⟩], true, by decide⟩
def annFile : AccountFile maxShdwLine :=
  ⟨[⟨⟨[97, 110, 110], by simp⟩, ⟨[112, 119], by simp⟩, [], by decide⟩], true, by decide⟩

theorem unlisted_user_granted :
    ¬ Guarded bobFile annFile bob secret ∧ ¬ Granted bobFile annFile bob.text secret.text ∧
      ∃ after, round (.filled 0) bobFile.bytes annFile.bytes (malloc (fun _ => 0) maxUserName) bob secret =
        some (true, after) := by
  have refused : ¬ Granted bobFile annFile bob.text secret.text := by
    simp [Granted, AccountFile.Has, bobFile, annFile, bob]
  obtain ⟨reached, after, done, -, when⟩ := round_entries (.filled 0) bobFile annFile (malloc (fun _ => 0) maxUserName)
    bob secret (by decide) (by decide) (malloc_length _ _) (by decide) (fun _ => by decide)
  have yes : reached = true := when.mpr ⟨_, rfl, fun _ => .inl rfl⟩
  rw [yes] at done
  refine ⟨fun guarded => ?_, refused, after, done⟩
  obtain ⟨reached', after', done', granted⟩ := guarded.reaches _ _ (malloc_length _ _)
  rw [done] at done'
  cases done'
  exact refused (granted rfl)

end Yaup
