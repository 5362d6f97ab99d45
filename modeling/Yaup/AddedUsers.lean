import Yaup.Useradd

set_option autoImplicit false

namespace Yaup

open Lib

structure AllFound (passwd : AccountFile maxUserLine) (added : List Added) (final : Bytes) : Prop where
  old : ∀ (heap : Heap) (username : Bytes), ∀ e ∈ passwd.entries, Holds username e.name.text →
    ∃ line, getUserLine heap final username = some (some line) ∧ OnLine line e
  new : ∀ (heap : Heap) (username : Bytes), ∀ a ∈ added, Holds username a.name.text →
    ∃ line text, getUserLine heap final username = some (some line) ∧ a.run.userLine = some text ∧ Holds line text ∧
      hasPassword line = some (!a.run.givesD)

def lineRead : Nat := maxUserLine - 1

structure Findable (passwd : AccountFile maxUserLine) (added : List Added) : Prop where
  written : ∀ a ∈ added, a.run.userLine = some a.entry ∧ a.entry.length < maxUserLine
  plain : ∀ a ∈ added, 10 ∉ a.entry.dropLast
  colon : ∀ a ∈ added, 58 ∉ a.name.text
  fits : ∀ a ∈ added, a.name.text.length < maxUserName
  flagged : ∀ a ∈ added, a.run.junk.dflag = true → a.run.givesD = true
  closed : ∀ line ∈ (fileLines passwd.ended passwd.entries ++ added.map (·.entry)).dropLast, Closes lineRead line

structure Record (line name : Bytes) : Prop where
  starts : ∃ more, line = name ++ 58 :: more
  colon : 58 ∉ name
  nul : 0 ∉ name
  fits : name.length < maxUserName
  short : line.length ≤ lineRead
  plain : 10 ∉ line.dropLast

theorem plain_without_newline (line : Bytes) (plain : 10 ∉ line.dropLast) (last : line.getLast? ≠ some 10) : 10 ∉ line := by
  rcases List.eq_nil_or_concat line with rfl | ⟨body, byte, same⟩
  · simp
  · rw [List.concat_eq_append] at same
    subst same
    rw [List.dropLast_concat] at plain
    rw [List.getLast?_concat] at last
    simp only [List.mem_append, List.mem_singleton, not_or]
    exact ⟨plain, fun same => last (congrArg some same.symm)⟩

theorem read_record (line name rest : Bytes) (record : Record line name) :
    ∃ tail, (readLine lineRead (line ++ rest)).1 = line ++ tail ∧
      ((Closes lineRead line ∨ rest = []) ∧ tail = [] ∨ ¬Closes lineRead line ∧ tail.head? = rest.head?) := by
  by_cases closes : Closes lineRead line
  · refine ⟨[], ?_, .inl ⟨.inl closes, rfl⟩⟩
    rw [read_line_closed lineRead line rest record.short record.plain closes, List.append_nil]
  · have newline := plain_without_newline line record.plain fun last => closes (.inl last)
    have room : line.length < lineRead := Nat.lt_of_le_of_ne record.short fun full => closes (.inr full)
    cases rest with
    | nil =>
        refine ⟨[], ?_, .inl ⟨.inr rfl, rfl⟩⟩
        rw [List.append_nil, read_line_end lineRead line newline record.short]
    | cons byte rest =>
        obtain ⟨more, read⟩ := read_line_open lineRead line rest byte newline room
        exact ⟨byte :: more, read, .inr ⟨closes, rfl⟩⟩

theorem record_some (line name : Bytes) (record : Record line name) : line ≠ [] := by
  obtain ⟨more, rfl⟩ := record.starts
  simp

theorem line_room : 1 < maxUserLine := by decide

abbrev scan (username : Bytes) (file : Stream) (line buff : Bytes) : Option (Bool × Bytes × Bytes) :=
  findLine maxUserLine line_room (fun _ => true) username file line buff

theorem scan_skip (username user line buff rest : Bytes) (lines : List Bytes) (named : Holds username user)
    (plain : 0 ∉ user) (wide : buff.length = maxUserName)
    (others : ∀ l ∈ lines, Closes lineRead l ∧ ∃ name, Record l name ∧ name ≠ user) :
    ∃ line' buff', buff'.length = maxUserName ∧
      scan username { rest := lines.flatten ++ rest, eof := false } line buff =
        scan username { rest := rest, eof := false } line' buff' := by
  induction lines generalizing line buff with
  | nil => exact ⟨line, buff, wide, rfl⟩
  | cons first later ih =>
      obtain ⟨closes, name, record, other⟩ := others first List.mem_cons_self
      obtain ⟨more, starts⟩ := record.starts
      have read := read_line_closed lineRead first (later.flatten ++ rest) record.short record.plain closes
      have taken : ∀ buffer, fgets maxUserLine { rest := first ++ (later.flatten ++ rest), eof := false } buffer =
          ({ rest := later.flatten ++ rest, eof := false }, first ++ 0 :: buffer.drop (first.length + 1)) := by
        intro buffer
        change readLine (maxUserLine - 1) _ = _ at read
        simp only [fgets, read, if_neg (record_some first name record), Bool.or_false]
      obtain ⟨buff', checked, -, length⟩ := check_line_name (fun _ => true) username buff user name
        (more ++ 0 :: line.drop (first.length + 1)) record.colon record.nul named plain (fun _ _ => rfl)
        (wide ▸ record.fits)
      have joined : name ++ 58 :: (more ++ 0 :: line.drop (first.length + 1)) =
          first ++ 0 :: line.drop (first.length + 1) := by
        rw [starts, List.append_assoc, List.cons_append]
      rw [joined, decide_eq_false other] at checked
      obtain ⟨line'', buff'', wide', rest_same⟩ := ih (first ++ 0 :: line.drop (first.length + 1)) buff'
        (length.trans wide) fun l member => others l (List.mem_cons_of_mem _ member)
      refine ⟨line'', buff'', wide', ?_⟩
      rw [← rest_same, scan, findLine, dif_pos rfl, List.flatten_cons, List.append_assoc, taken]
      simp only [checked]

theorem scan_hit (username user line buff text rest : Bytes) (named : Holds username user) (plain : 0 ∉ user)
    (wide : buff.length = maxUserName) (record : Record text user) :
    ∃ tail after buff', scan username { rest := text ++ rest, eof := false } line buff =
        some (true, text ++ tail ++ 0 :: after, buff') ∧
      ((Closes lineRead text ∨ rest = []) ∧ tail = [] ∨ ¬Closes lineRead text ∧ tail.head? = rest.head?) := by
  obtain ⟨tail, read, ends⟩ := read_record text user rest record
  obtain ⟨more, starts⟩ := record.starts
  have some : text ++ tail ≠ [] := by simp [record_some text user record]
  obtain ⟨buff', checked, -, -⟩ := check_line_name (fun _ => true) username buff user user
    (more ++ tail ++ 0 :: line.drop ((text ++ tail).length + 1)) record.colon record.nul named plain (fun _ _ => rfl)
    (wide ▸ record.fits)
  have joined : user ++ 58 :: (more ++ tail ++ 0 :: line.drop ((text ++ tail).length + 1)) =
      text ++ tail ++ 0 :: line.drop ((text ++ tail).length + 1) := by
    simp [starts]
  rw [joined, decide_eq_true rfl] at checked
  refine ⟨tail, line.drop ((text ++ tail).length + 1), buff', ?_, ends⟩
  have taken : (fgets maxUserLine { rest := text ++ rest, eof := false } line).2 =
      text ++ tail ++ 0 :: line.drop ((text ++ tail).length + 1) := by
    change (readLine (maxUserLine - 1) _).1 = _ at read
    simp only [fgets, read, if_neg some]
  rw [scan, findLine, dif_pos rfl]
  simp only [taken, checked]

theorem get_user_line_record (heap : Heap) (username user text rest : Bytes) (before : List Bytes)
    (named : Holds username user) (plain : 0 ∉ user) (record : Record text user)
    (others : ∀ l ∈ before, Closes lineRead l ∧ ∃ name, Record l name ∧ name ≠ user) :
    ∃ tail after, getUserLine heap (before.flatten ++ (text ++ rest)) username =
        some (some (text ++ tail ++ 0 :: after)) ∧
      ((Closes lineRead text ∨ rest = []) ∧ tail = [] ∨ ¬Closes lineRead text ∧ tail.head? = rest.head?) := by
  obtain ⟨line, buff, wide, skipped⟩ := scan_skip username user (malloc heap.userLine maxUserLine)
    (malloc heap.user maxUserName) (text ++ rest) before named plain (malloc_length _ _) others
  obtain ⟨tail, after, buff', hit, ends⟩ := scan_hit username user line buff text rest named plain wide record
  refine ⟨tail, after, ?_, ends⟩
  have found := skipped.trans hit
  rw [scan] at found
  simp [getUserLine, fopen, found]

theorem old_records (passwd : AccountFile maxUserLine) (line : Bytes) (e : Entry)
    (member : (line, e) ∈ (fileLines passwd.ended passwd.entries).zip passwd.entries) :
    Record line e.name.text ∧ (line = e.body ∨ line = e.body ++ [10]) := by
  have forms : ∀ (ended : Bool) (entries : List Entry), (line, e) ∈ (fileLines ended entries).zip entries →
      line = e.body ∨ line = e.body ++ [10] := by
    intro ended entries
    induction entries with
    | nil => exact fun none => by cases none
    | cons first rest ih =>
        intro inside
        rw [fileLines, List.zip_cons_cons] at inside
        rcases List.mem_cons.mp inside with same | later
        · obtain ⟨rfl, rfl⟩ := Prod.mk.inj same
          split
          · exact .inl rfl
          · exact .inr rfl
        · exact ih later
  have form := forms _ _ member
  have short := passwd.fits line (List.of_mem_zip member).1
  have newline := entry_body_plain e
  refine ⟨⟨?_, field_no_colon e.name, field_no_nul e.name, e.fits, Nat.le_sub_one_of_lt short, ?_⟩, form⟩
  · rcases form with rfl | rfl
    · exact ⟨_, rfl⟩
    · exact ⟨_, List.append_assoc _ _ _⟩
  · rcases form with rfl | rfl
    · exact fun inside => newline ((List.dropLast_sublist _).subset inside)
    · rwa [List.dropLast_concat]

section
variable (records : List (Bytes × Bytes)) (each : ∀ r ∈ records, Record r.1 r.2)
  (distinct : (records.map Prod.snd).Nodup)
include each distinct

theorem records_found (before after : List (Bytes × Bytes)) (r : Bytes × Bytes) (split : records = before ++ r :: after)
    (closed : ∀ b ∈ before, Closes lineRead b.1) (heap : Heap) (username : Bytes) (named : Holds username r.2) :
    ∃ tail stale, getUserLine heap (records.map Prod.fst).flatten username = some (some (r.1 ++ tail ++ 0 :: stale)) ∧
      ((Closes lineRead r.1 ∨ (after.map Prod.fst).flatten = []) ∧ tail = [] ∨
        ¬Closes lineRead r.1 ∧ tail.head? = (after.map Prod.fst).flatten.head?) := by
  have here : r ∈ records := by simp [split]
  have others : ∀ l ∈ before.map Prod.fst, Closes lineRead l ∧ ∃ name, Record l name ∧ name ≠ r.2 := by
    intro l member
    obtain ⟨b, inside, rfl⟩ := List.mem_map.mp member
    refine ⟨closed b inside, b.2, each b (by simp [split, inside]), fun same => ?_⟩
    rw [split, List.map_append, List.map_cons] at distinct
    exact (List.nodup_append.mp distinct).2.2 b.2 (List.mem_map_of_mem inside) r.2 List.mem_cons_self same
  obtain ⟨tail, stale, got, ends⟩ := get_user_line_record heap username r.2 r.1 (after.map Prod.fst).flatten
    (before.map Prod.fst) named (each r here).nul (each r here) others
  refine ⟨tail, stale, ?_, ends⟩
  have joined : (records.map Prod.fst).flatten =
      (before.map Prod.fst).flatten ++ (r.1 ++ (after.map Prod.fst).flatten) := by
    simp [split]
  rw [joined]
  exact got

theorem records_returned (closed : ∀ l ∈ (records.map Prod.fst).dropLast, Closes lineRead l) (r : Bytes × Bytes)
    (member : r ∈ records) (heap : Heap) (username : Bytes) (named : Holds username r.2) :
    ∃ stale, getUserLine heap (records.map Prod.fst).flatten username = some (some (r.1 ++ 0 :: stale)) := by
  obtain ⟨before, after, split⟩ := List.append_of_mem member
  have early : ∀ b ∈ before, Closes lineRead b.1 := by
    intro b inside
    refine closed b.1 ?_
    rw [split, List.map_append, List.map_cons, List.dropLast_append_of_ne_nil (List.cons_ne_nil _ _)]
    exact List.mem_append_left _ (List.mem_map_of_mem inside)
  obtain ⟨tail, stale, got, ⟨-, rfl⟩ | ⟨goes, head⟩⟩ :=
    records_found records each distinct before after r split early heap username named
  · exact ⟨stale, by simpa using got⟩
  · have last : after = [] := by
      by_contra more
      refine goes (closed r.1 ?_)
      rw [split, List.map_append, List.map_cons, List.dropLast_append_of_ne_nil (List.cons_ne_nil _ _),
        List.dropLast_cons_of_ne_nil (by simpa using more)]
      simp
    subst last
    have none : tail = [] := by simpa using head
    subst none
    exact ⟨stale, by simpa using got⟩

-- Where login finds the records, each closes that has another behind it: the first that did
-- not would run on into the next. By induction on how many come before.
theorem records_close (right : ∀ r ∈ records, Closes lineRead r.1 ∨ ∃ heap username line last stale, Holds username r.2 ∧
      getUserLine heap (records.map Prod.fst).flatten username = some (some line) ∧ line = r.1 ++ last :: stale ∧
        (last = 10 ∨ last = 0)) (count : Nat) (before after : List (Bytes × Bytes)) (r : Bytes × Bytes)
    (split : records = before ++ r :: after) (size : before.length = count) (some : after ≠ []) : Closes lineRead r.1 := by
  induction count using Nat.strongRecOn generalizing before after r with
  | ind count ih =>
      have early : ∀ b ∈ before, Closes lineRead b.1 := by
        intro b inside
        obtain ⟨front, back, parts⟩ := List.append_of_mem inside
        refine ih front.length ?_ front (back ++ r :: after) b ?_ rfl (by simp)
        · rw [← size, parts]
          simp
        · rw [split, parts]
          simp
      rcases right r (by simp [split]) with closes | ⟨heap, username, line, last, stale, named, got, reads, ends⟩
      · exact closes
      · obtain ⟨tail, stale', got', ⟨closes | none, -⟩ | ⟨-, head⟩⟩ :=
          records_found records each distinct before after r split early heap username named
        · exact closes
        · obtain ⟨next, later, rfl⟩ := List.exists_cons_of_ne_nil some
          have next_some := record_some _ _ (each next (by simp [split]))
          simp [next_some] at none
        · obtain ⟨next, later, rfl⟩ := List.exists_cons_of_ne_nil some
          have record := each next (by simp [split])
          obtain ⟨more, starts⟩ := record.starts
          have same : line = r.1 ++ tail ++ 0 :: stale' := by
            rw [got] at got'
            exact Option.some.inj (Option.some.inj got')
          rw [reads, List.append_assoc] at same
          have follows := List.append_cancel_left same
          have nul := record.nul
          have newline := record.plain
          rw [starts] at newline
          rw [List.map_cons, List.flatten_cons, starts] at head
          cases named_next : next.2 with
          | nil =>
              rw [named_next] at head
              cases tail with
              | nil => cases head
              | cons byte tail =>
                  rw [(List.cons.inj follows).1] at ends
                  rw [Option.some.inj head] at ends
                  exact absurd ends (by decide)
          | cons first name =>
              rw [named_next] at head nul newline
              cases tail with
              | nil => cases head
              | cons byte tail =>
                  rw [(List.cons.inj follows).1, Option.some.inj head] at ends
                  rcases ends with rfl | rfl
                  · refine absurd ?_ newline
                    rw [List.dropLast_append_of_ne_nil (List.cons_ne_nil _ _)]
                    exact List.mem_append_left _ List.mem_cons_self
                  · exact absurd List.mem_cons_self nul

end

theorem copy_field_end (line buff after : Bytes) (i n : Nat) (copied : copyField (fun _ => true) line i buff = some (n, after)) :
    after.length = buff.length ∧ ∀ name more, line = name ++ 58 :: more → 58 ∉ name → n = i + name.length := by
  induction line generalizing buff i with
  | nil => cases copied
  | cons byte rest ih =>
      rw [copyField] at copied
      by_cases colon : byte = 58
      · subst colon
        simp only [ne_eq, not_true_eq_false, false_and, if_false, Option.some.injEq, Prod.mk.injEq] at copied
        obtain ⟨rfl, rfl⟩ := copied
        refine ⟨rfl, fun name more same plain => ?_⟩
        cases name with
        | nil => rfl
        | cons first name =>
            have here : (58 : UInt8) = first := (List.cons.inj same).1
            exact absurd (here ▸ List.mem_cons_self) plain
      · rw [if_pos ⟨colon, rfl⟩] at copied
        obtain ⟨put, placed, deeper⟩ := Option.bind_eq_some_iff.mp copied
        obtain ⟨length, ends⟩ := ih put (i + 1) deeper
        rw [putByte] at placed
        split at placed
        · cases placed
          refine ⟨length.trans List.length_set, fun name more same plain => ?_⟩
          cases name with
          | nil => exact absurd (List.cons.inj same).1 colon
          | cons first name =>
              rw [ends name more (List.cons.inj same).2 (List.not_mem_of_not_mem_cons plain), List.length_cons]
              omega
        · cases placed

theorem check_line_length (username line buff after : Bytes) (found : Bool)
    (checked : checkLine (fun _ => true) username line buff = some (found, after)) : after.length = buff.length := by
  rw [checkLine] at checked
  obtain ⟨⟨n, copied⟩, copy, checked⟩ := Option.bind_eq_some_iff.mp checked
  obtain ⟨put, placed, checked⟩ := Option.bind_eq_some_iff.mp checked
  obtain ⟨answer, -, checked⟩ := Option.bind_eq_some_iff.mp checked
  cases checked
  rw [← (copy_field_end line buff copied 0 n copy).1]
  rw [putByte] at placed
  split at placed
  · cases placed
    exact List.length_set
  · cases placed

theorem check_line_found (username name more buff after : Bytes) (nul : 0 ∉ name) (named : Holds username name)
    (wide : buff.length = maxUserName)
    (checked : checkLine (fun _ => true) username (name ++ 58 :: more) buff = some (true, after)) :
    58 ∉ name ∧ name.length < maxUserName := by
  have fits : ∀ first rest, name ++ 58 :: more = first ++ 58 :: rest → 58 ∉ first → first.length < maxUserName := by
    intro first rest same plain
    have whole := checked
    rw [checkLine] at whole
    obtain ⟨⟨n, copied⟩, copy, whole⟩ := Option.bind_eq_some_iff.mp whole
    obtain ⟨put, placed, -⟩ := Option.bind_eq_some_iff.mp whole
    obtain ⟨length, ends⟩ := copy_field_end _ buff copied 0 n copy
    have index := ends first rest same plain
    rw [putByte] at placed
    split at placed
    · omega
    · cases placed
  have colon : 58 ∉ name := by
    intro member
    obtain ⟨first, rest, split, plain⟩ := List.eq_append_cons_of_mem member
    have line : name ++ 58 :: more = first ++ 58 :: (rest ++ 58 :: more) := by simp [split]
    obtain ⟨after', other, -, -⟩ := check_line_name (fun _ => true) username buff name first (rest ++ 58 :: more) plain
      (fun inside => nul (by simp [split, inside])) named nul (fun _ _ => rfl) (wide ▸ fits first _ line plain)
    rw [line, other] at checked
    have same : first = name := by simpa using (Prod.mk.inj (Option.some.inj checked)).1
    have lengths := congrArg List.length split
    rw [← same] at lengths
    simp at lengths
  exact ⟨colon, fits name more rfl colon⟩

def ReadIn (line : Bytes) : Prop := ∃ text after, line = text ++ 0 :: after ∧ 10 ∉ text.dropLast

theorem fgets_read_in (file : Stream) (line : Bytes) (held : file.rest = [] → ReadIn line) :
    ReadIn (fgets maxUserLine file line).2 := by
  simp only [fgets]
  by_cases none : (readLine (maxUserLine - 1) file.rest).1 = []
  · rw [if_pos none]
    refine held ?_
    have total := read_line_rest (maxUserLine - 1) file.rest
    cases rest : file.rest with
    | nil => rfl
    | cons byte more =>
        change (readLine (126 + 1) _).1 = [] at none
        rw [rest, readLine] at none
        split at none
        · cases none
        · cases none
  · rw [if_neg none]
    exact ⟨_, _, rfl, read_line_plain _ _⟩

theorem scan_found (username : Bytes) (file : Stream) (line buff line' buff' : Bytes)
    (held : file.rest = [] → ReadIn line) (wide : buff.length = maxUserName)
    (found : scan username file line buff = some (true, line', buff')) :
    ReadIn line' ∧ ∃ buff₀, buff₀.length = maxUserName ∧
      checkLine (fun _ => true) username line' buff₀ = some (true, buff') := by
  induction left : file.left using Nat.strongRecOn generalizing file line buff with
  | ind n ih =>
      rw [scan, findLine] at found
      by_cases more : file.eof = false
      · rw [dif_pos more] at found
        dsimp only at found
        have reads := fgets_read_in file line held
        cases checked : checkLine (fun _ => true) username (fgets maxUserLine file line).2 buff with
        | none =>
            rw [checked] at found
            cases found
        | some answer =>
            obtain ⟨same, after⟩ := answer
            rw [checked] at found
            cases same with
            | true =>
                cases found
                exact ⟨reads, buff, wide, checked⟩
            | false =>
                exact ih _ (left ▸ fgets_left maxUserLine file line (by decide) more) _ _ after (fun _ => reads)
                  ((check_line_length _ _ _ _ _ checked).trans wide) found rfl
      · rw [dif_neg more] at found
        cases found

theorem get_user_line_found (heap : Heap) (passwd username line : Bytes) (some : passwd ≠ [])
    (got : getUserLine heap passwd username = .some (.some line)) :
    ReadIn line ∧ ∃ buff₀ after, buff₀.length = maxUserName ∧
      checkLine (fun _ => true) username line buff₀ = .some (true, after) := by
  obtain ⟨⟨found, line', buff'⟩, searched, got⟩ := Option.bind_eq_some_iff.mp got
  cases found with
  | false => cases got
  | true =>
      cases got
      obtain ⟨reads, buff₀, wide, checked⟩ := scan_found username _ _ _ _ _ (fun none => absurd none some)
        (malloc_length _ _) searched
      exact ⟨reads, buff₀, buff', wide, checked⟩

theorem read_in_plain (line text : Bytes) (reads : ReadIn line) (holds : Holds line text) (nul : 0 ∉ text) :
    10 ∉ text.dropLast := by
  obtain ⟨whole, after, rfl, plain⟩ := reads
  obtain ⟨after', same⟩ := holds
  rcases List.append_eq_append_iff.mp same with ⟨more, split, rest⟩ | ⟨more, split, -⟩
  · cases more with
    | nil =>
        rw [List.append_nil] at split
        rwa [split]
    | cons byte more =>
        rw [split, ← (List.cons.inj rest).1] at nul
        exact absurd (List.mem_append_right _ List.mem_cons_self) nul
  · cases more with
    | nil =>
        rw [List.append_nil] at split
        rwa [← split]
    | cons byte more =>
        rw [split, List.dropLast_append_of_ne_nil (List.cons_ne_nil _ _)] at plain
        exact fun member => plain (List.mem_append_left _ ((List.dropLast_sublist _).subset member))

def records (passwd : AccountFile maxUserLine) (added : List Added) : List (Bytes × Bytes) :=
  ((fileLines passwd.ended passwd.entries).zip passwd.entries).map (fun p => (p.1, p.2.name.text)) ++
    added.map fun a => (a.entry, a.name.text)

theorem file_lines_length (ended : Bool) (entries : List Entry) : (fileLines ended entries).length = entries.length := by
  induction entries with
  | nil => rfl
  | cons e rest ih => rw [fileLines, List.length_cons, List.length_cons, ih]

theorem records_lines (passwd : AccountFile maxUserLine) (added : List Added) :
    (records passwd added).map Prod.fst = fileLines passwd.ended passwd.entries ++ added.map (·.entry) := by
  have lines : ((fileLines passwd.ended passwd.entries).zip passwd.entries).map Prod.fst =
      fileLines passwd.ended passwd.entries := List.map_fst_zip (file_lines_length _ _).le
  rw [records, List.map_append, List.map_map, List.map_map]
  exact congrArg (· ++ added.map (·.entry)) lines

theorem records_names (passwd : AccountFile maxUserLine) (added : List Added) :
    (records passwd added).map Prod.snd = passwd.entries.map (·.name.text) ++ added.map (·.name.text) := by
  have entries : ((fileLines passwd.ended passwd.entries).zip passwd.entries).map Prod.snd = passwd.entries :=
    List.map_snd_zip (file_lines_length _ _).ge
  have names := congrArg (List.map fun e : Entry => e.name.text) entries
  rw [List.map_map] at names
  rw [records, List.map_append, List.map_map, List.map_map]
  exact congrArg (· ++ added.map (·.name.text)) names

theorem added_starts (a : Added) (written : a.run.userLine = some a.entry) :
    ∃ more, a.entry = a.name.text ++ 58 :: more ∧
      (more.head? = some 120 ↔ ¬(a.run.junk.dflag || a.run.givesD) = true) ∧ more ≠ [] := by
  obtain ⟨name, more, named, line, second, some⟩ := user_line_text a.run a.entry written
  rw [a.named] at named
  cases named
  exact ⟨more, line, second, some⟩

theorem added_has_password (a : Added) (stale : Bytes) (written : a.run.userLine = some a.entry)
    (colon : 58 ∉ a.name.text) :
    hasPassword (a.entry ++ 0 :: stale) = some (!(a.run.junk.dflag || a.run.givesD)) := by
  obtain ⟨more, line, second, some⟩ := added_starts a written
  rw [line, List.append_assoc, List.cons_append, has_password_name _ _ colon]
  cases more with
  | nil => exact absurd rfl some
  | cons byte more =>
      have same : (byte == 120) = !(a.run.junk.dflag || a.run.givesD) := by
        rw [Bool.eq_iff_iff, Bool.not_eq_true', ← Bool.not_eq_true, ← second]
        simp
      rw [← same]
      rfl

theorem records_each (passwd : AccountFile maxUserLine) (added : List Added)
    (new : ∀ a ∈ added, Record a.entry a.name.text) : ∀ r ∈ records passwd added, Record r.1 r.2 := by
  intro r member
  rcases List.mem_append.mp member with old | later
  · obtain ⟨p, inside, rfl⟩ := List.mem_map.mp old
    exact (old_records passwd p.1 p.2 inside).1
  · obtain ⟨a, inside, rfl⟩ := List.mem_map.mp later
    exact new a inside

theorem returned_record (a : Added) (final line : Bytes) (some : final ≠ []) (written : a.run.userLine = .some a.entry)
    (short : a.entry.length < maxUserLine)
    (got : getUserLine (.filled 0) final (a.name.text ++ [0]) = .some (.some line)) (holds : Holds line a.entry) :
    Record a.entry a.name.text := by
  obtain ⟨more, starts, -, -⟩ := added_starts a written
  obtain ⟨read, buff, after, wide, checked⟩ := get_user_line_found (.filled 0) final _ line some got
  have plain := read_in_plain line a.entry read holds (user_line_plain a.run a.entry written)
  obtain ⟨stale, same⟩ := holds
  rw [same, starts, List.append_assoc, List.cons_append] at checked
  obtain ⟨colon, fits⟩ := check_line_found _ _ _ buff after a.name.plain (holds_text a.name.text []) wide checked
  exact ⟨⟨more, starts⟩, colon, a.name.plain, fits, Nat.le_sub_one_of_lt short, plain⟩

section
variable (passwd : AccountFile maxUserLine) (added : List Added)
  (distinct : (passwd.entries.map (·.name.text) ++ added.map (·.name.text)).Nodup)
include distinct

theorem found_findable (final : Bytes) (ran : useradds (added.map (·.run)) passwd.bytes = some final)
    (found : AllFound passwd added final) : Findable passwd added := by
  obtain ⟨written, whole⟩ := (useradds_run added passwd.bytes final).mp ran
  have file : final = ((records passwd added).map Prod.fst).flatten := by
    rw [whole, records_lines, List.flatten_append, AccountFile.bytes]
  have reads : ∀ a ∈ added, ∃ line, getUserLine (.filled 0) final (a.name.text ++ [0]) = some (some line) ∧
      Holds line a.entry ∧ hasPassword line = some (!a.run.givesD) := by
    intro a member
    obtain ⟨line, text, got, same, holds, asks⟩ := found.new (.filled 0) _ a member (holds_text a.name.text [])
    rw [(written a member).1] at same
    cases same
    exact ⟨line, got, holds, asks⟩
  have each : ∀ a ∈ added, Record a.entry a.name.text := by
    intro a member
    obtain ⟨line, got, holds, -⟩ := reads a member
    refine returned_record a final line ?_ (written a member).1 (written a member).2 got holds
    obtain ⟨more, starts, -, -⟩ := added_starts a (written a member).1
    have inside : a.entry ≠ [] := by simp [starts]
    intro empty
    rw [whole] at empty
    exact inside (List.flatten_eq_nil_iff.mp (List.append_eq_nil_iff.mp empty).2 a.entry (List.mem_map_of_mem member))
  have right : ∀ r ∈ records passwd added, Closes lineRead r.1 ∨ ∃ heap username line last stale, Holds username r.2 ∧
      getUserLine heap ((records passwd added).map Prod.fst).flatten username = some (some line) ∧
        line = r.1 ++ last :: stale ∧ (last = 10 ∨ last = 0) := by
    rw [← file]
    intro r member
    rcases List.mem_append.mp member with old | new
    · obtain ⟨p, inside, rfl⟩ := List.mem_map.mp old
      rcases (old_records passwd p.1 p.2 inside).2 with body | ended
      · obtain ⟨line, got, last, stale, reads, ends⟩ := found.old (.filled 0) (p.2.name.text ++ [0]) p.2
          (List.of_mem_zip inside).2 (holds_text p.2.name.text [])
        rw [← body] at reads
        exact .inr ⟨.filled 0, _, line, last, stale, holds_text p.2.name.text [], got, reads, ends⟩
      · refine .inl (.inl ?_)
        change p.1.getLast? = _
        rw [ended, List.getLast?_concat]
    · obtain ⟨a, inside, rfl⟩ := List.mem_map.mp new
      obtain ⟨line, got, ⟨stale, same⟩, -⟩ := reads a inside
      exact .inr ⟨.filled 0, _, line, 0, stale, holds_text a.name.text [], got, same, .inr rfl⟩
  refine ⟨written, fun a member => (each a member).plain, fun a member => (each a member).colon,
    fun a member => (each a member).fits, fun a member junk => ?_, fun line member => ?_⟩
  · obtain ⟨line, -, ⟨stale, same⟩, asks⟩ := reads a member
    rw [same, added_has_password a stale (written a member).1 (each a member).colon, junk] at asks
    simpa using asks
  · rw [← records_lines, ← List.map_dropLast] at member
    obtain ⟨r, inside, rfl⟩ := List.mem_map.mp member
    obtain ⟨before, after, split⟩ := List.append_of_mem inside
    have some : records passwd added ≠ [] := fun none => by simp [none] at inside
    have whole := List.dropLast_append_getLast some
    rw [split, List.append_assoc, List.cons_append] at whole
    have names : ((records passwd added).map Prod.snd).Nodup := (records_names passwd added).symm ▸ distinct
    exact records_close (records passwd added) (records_each passwd added each) names right before.length before _ r
      whole.symm rfl (by simp)

theorem findable_found (findable : Findable passwd added) :
    ∃ final, useradds (added.map (·.run)) passwd.bytes = some final ∧ AllFound passwd added final := by
  have each : ∀ a ∈ added, Record a.entry a.name.text := by
    intro a inside
    obtain ⟨written, short⟩ := findable.written a inside
    obtain ⟨more, starts, -, -⟩ := added_starts a written
    exact ⟨⟨more, starts⟩, findable.colon a inside, a.name.plain, findable.fits a inside, Nat.le_sub_one_of_lt short,
      findable.plain a inside⟩
  have names : ((records passwd added).map Prod.snd).Nodup := (records_names passwd added).symm ▸ distinct
  have closed := findable.closed
  rw [← records_lines] at closed
  have returned := records_returned (records passwd added) (records_each passwd added each) names closed
  rw [records_lines, List.flatten_append] at returned
  refine ⟨_, (useradds_run added passwd.bytes _).mpr ⟨findable.written, rfl⟩, ?_, ?_⟩
  · intro heap username e member named
    obtain ⟨line, inside⟩ : ∃ line, (line, e) ∈ (fileLines passwd.ended passwd.entries).zip passwd.entries := by
      have whole : ((fileLines passwd.ended passwd.entries).zip passwd.entries).map Prod.snd = passwd.entries :=
        List.map_snd_zip (file_lines_length _ _).ge
      rw [← whole] at member
      obtain ⟨p, inside, rfl⟩ := List.mem_map.mp member
      exact ⟨p.1, inside⟩
    obtain ⟨stale, got⟩ := returned (line, e.name.text) (List.mem_append_left _ (List.mem_map_of_mem inside)) heap
      username named
    refine ⟨_, got, ?_⟩
    rcases (old_records passwd line e inside).2 with rfl | rfl
    · exact ⟨0, stale, rfl, .inr rfl⟩
    · exact ⟨10, 0 :: stale, List.append_assoc _ _ _, .inl rfl⟩
  · intro heap username a member named
    obtain ⟨stale, got⟩ := returned (a.entry, a.name.text) (List.mem_append_right _ (List.mem_map_of_mem member)) heap
      username named
    have written := (findable.written a member).1
    refine ⟨_, a.entry, got, written, ⟨stale, rfl⟩, ?_⟩
    have flag := findable.flagged a member
    rw [added_has_password a stale written (findable.colon a member)]
    cases junk : a.run.junk.dflag with
    | false => rfl
    | true =>
        rw [flag junk]
        rfl

theorem added_users_found_iff :
    (∃ final, useradds (added.map (·.run)) passwd.bytes = some final ∧ AllFound passwd added final) ↔
      Findable passwd added := by
  constructor
  · rintro ⟨final, ran, found⟩
    exact found_findable passwd added distinct final ran found
  · exact findable_found passwd added distinct

end

def noOptions : Options := ⟨false, false, 0, none, none⟩

-- useradd NAME -h / -s /
def plainRun (name : Arg) : Useradd where
  argv := [⟨[117], by decide⟩, name, ⟨[45, 104], by decide⟩, ⟨[47], by decide⟩, ⟨[45, 115], by decide⟩, ⟨[47], by decide⟩]
  index := 1
  junk := noOptions
  userExists := false
  getUid := 1
  findGid := fun _ => 0

def plainAdded (byte : UInt8) (other : byte ≠ 0) : Added where
  run := plainRun ⟨[byte], by simpa using other.symm⟩
  name := ⟨[byte], by simpa using other.symm⟩
  named := rfl
  some := List.cons_ne_nil _ _
  fresh := rfl

def addedA : Added := plainAdded 97 (by decide)
def addedB : Added := plainAdded 98 (by decide)

-- a:x:1:0::/:/ behind bob:x and its newline.
theorem added_users_found_one :
    ∃ final, useradds ([addedA].map (·.run)) bobFile.bytes = some final ∧ AllFound bobFile [addedA] final := by
  refine (added_users_found_iff bobFile [addedA] (by decide)).mpr ⟨?_, ?_, ?_, ?_, ?_, ?_⟩
  · decide
  · decide
  · decide
  · decide
  · decide
  · unfold Closes
    decide

theorem added_users_share_line :
    ¬∀ (passwd : AccountFile maxUserLine) (added : List Added),
      (passwd.entries.map (·.name.text) ++ added.map (·.name.text)).Nodup →
        ∃ final, useradds (added.map (·.run)) passwd.bytes = some final ∧ AllFound passwd added final := by
  intro claim
  obtain ⟨final, ran, found⟩ := claim bobFile [addedA, addedB] (by decide)
  have closes := (found_findable bobFile [addedA, addedB] (by decide) final ran found).closed addedA.entry (by decide)
  revert closes
  unfold Closes
  decide

end Yaup
