import Yaup.Lib.Ctype
import Yaup.Lib.Lines
import Yaup.Lib.Lists
import Yaup.Lib.Outcome
import Yaup.Login

set_option autoImplicit false

namespace Yaup.Busybox

open Lib

inductive GrepStop where
  | outside
  | running
deriving DecidableEq

-- fscanf(fp, "%[^\n]\n", buff)
def scanLine (fp : Stream) (buff : Bytes) : Except GrepStop (Stream × Bytes) :=
  let text := fp.rest.takeWhile fun c => c ≠ 10
  let rest := fp.rest.dropWhile fun c => c ≠ 10
  if text = [] then .ok ({ rest, eof := fp.eof || rest = [] }, buff)
  else if text.length < buff.length then
    let rest := rest.dropWhile isspace
    .ok ({ rest, eof := fp.eof || rest = [] }, text ++ 0 :: buff.drop (text.length + 1))
  else .error .outside

-- The loop over buff[i], where `found` is match. pattern has its terminator.
def matchLoop (pattern : Bytes) : Bytes → Nat → Bool → Option Bool
  | [], _, _ => none
  | c :: buff, j, found =>
      if c = 0 then some found
      else
        match (pattern ++ [0])[j]? with
        | none => none
        | some p =>
            if c ≠ p then matchLoop pattern buff 0 false
            else if j + 1 ≥ pattern.length then some true
            else matchLoop pattern buff (j + 1) true

-- The matcher, and the printf, which needs a terminator.
def testLine (pattern buff : Bytes) (found : Bool) : Except GrepStop Bool :=
  match matchLoop pattern buff 0 found with
  | none => .error .outside
  | some found => if found = true ∧ 0 ∉ buff then .error .outside else .ok found

def shown (buff : Bytes) : Bytes := buff.takeWhile fun c => c ≠ 0

structure GrepTurn where
  text : Bytes
  printed : Bool
deriving DecidableEq

-- while (!feof(fp)), for at most so many turns.
def grepLoop (pattern : Bytes) : Nat → Stream → Bytes → Bool → Except GrepStop (List GrepTurn)
  | 0, _, _, _ => .error .running
  | n + 1, fp, buff, found =>
      if fp.eof = true then .ok []
      else do
        let (fp, buff) ← scanLine fp buff
        let found ← testLine pattern buff found
        let turns ← grepLoop pattern n fp buff found
        return ⟨shown buff, found⟩ :: turns

-- match has no first value of its own, and neither has what malloc returns.
def grep (pattern : Bytes) (junk : Nat → UInt8) (found : Bool) (contents : Bytes) (turns : Nat) :
    Except GrepStop (List GrepTurn) :=
  grepLoop pattern turns (fopen contents) (malloc junk 512) found

-- After a line the blanks in front of the next are gone too, and lines of blanks alone.
def strip (line : Bytes) : Bytes := line.dropWhile isspace

def grepReads : List Bytes → List (Bytes × Option Bytes)
  | [] => []
  | first :: later =>
      (first, some first) :: later.map fun line => (line, if strip line = [] then none else some (strip line))

def readTexts (lines : List Bytes) : List Bytes := (grepReads lines).filterMap Prod.snd

def laterTexts (later : List Bytes) : List Bytes := (later.map strip).filter fun text => text ≠ []

def verdict (pattern text : Bytes) (found : Bool) : Bool := (matchLoop pattern (text ++ [0]) 0 found).getD false

def turnsOver (pattern : Bytes) (found : Bool) : List Bytes → List GrepTurn
  | [] => []
  | text :: later =>
      let found := verdict pattern (shown text) found
      ⟨shown text, found⟩ :: turnsOver pattern found later

def GrepTests (pattern : Bytes) (junk : Nat → UInt8) (found : Bool) (contents : Bytes) : Prop :=
  ∃ n turns, grep pattern junk found contents n = .ok turns ∧
    turns.map GrepTurn.text = (lines contents).filter fun line => line ≠ []

structure TestsGuard (contents : Bytes) : Prop where
  begun : (lines contents).head? ≠ some []
  margin : ∀ line ∈ (lines contents).tail, ∀ c ∈ line.head?, isspace c = false
  fits : ∀ line ∈ lines contents, line.length < 512 ∧ 0 ∉ line

theorem match_loop_ends (pattern text after : Bytes) (j : Nat) (found : Bool) (inside : j ≤ pattern.length) :
    ∃ answer, matchLoop pattern (text ++ 0 :: after) j found = some answer ∧
      matchLoop pattern (shown text ++ [0]) j found = some answer := by
  induction text generalizing j found with
  | nil => exact ⟨found, rfl, rfl⟩
  | cons c text ih =>
      by_cases nul : c = 0
      · subst nul
        exact ⟨found, rfl, rfl⟩
      · have begins : shown (c :: text) = c :: shown text := List.takeWhile_cons_of_pos (by simpa using nul)
        obtain ⟨p, entry⟩ : ∃ p, (pattern ++ [0])[j]? = some p :=
          ⟨_, List.getElem?_eq_getElem (by rw [List.length_append, List.length_singleton]; omega)⟩
        rw [begins, List.cons_append, List.cons_append, matchLoop, matchLoop, if_neg nul, if_neg nul, entry]
        dsimp only
        split
        · exact ih 0 false (Nat.zero_le _)
        · split
          · exact ⟨true, rfl, rfl⟩
          · rename_i more
            exact ih (j + 1) true (Nat.le_of_lt (Nat.not_le.mp more))

theorem test_line_verdict (pattern text after : Bytes) (found : Bool) :
    testLine pattern (text ++ 0 :: after) found = .ok (verdict pattern (shown text) found) := by
  obtain ⟨answer, whole, alone⟩ := match_loop_ends pattern text after 0 found (Nat.zero_le _)
  have ended : ¬(answer = true ∧ (0 : UInt8) ∉ text ++ 0 :: after) := by simp
  rw [testLine, whole, verdict, alone]
  exact if_neg ended

theorem shown_buffer (text after : Bytes) : shown (text ++ 0 :: after) = shown text := by
  induction text with
  | nil => rfl
  | cons c text ih =>
      by_cases nul : c = 0
      · subst nul
        rfl
      · rw [shown, List.cons_append, List.takeWhile_cons_of_pos (by simpa using nul), shown,
          List.takeWhile_cons_of_pos (by simpa using nul)]
        exact congrArg (c :: ·) ih

def afterSpace (rest : Bytes) : Stream := { rest := rest.dropWhile isspace, eof := decide (rest.dropWhile isspace = []) }

theorem scan_line_reads (text rest buff : Bytes) (begun : text ≠ []) (plain : 10 ∉ text)
    (stops : rest = [] ∨ ∃ tail, rest = 10 :: tail) :
    scanLine { rest := text ++ rest, eof := false } buff =
      if text.length < buff.length then .ok (afterSpace rest, text ++ 0 :: buff.drop (text.length + 1))
      else .error .outside := by
  have taken : (text ++ rest).takeWhile (fun c => c ≠ 10) = text := by
    rcases stops with rfl | ⟨tail, rfl⟩
    · rw [List.append_nil]
      exact take_while_whole text 10 plain
    · exact take_while_until text tail 10 plain
  have left : (text ++ rest).dropWhile (fun c => c ≠ 10) = rest := by
    have parts := @List.takeWhile_append_dropWhile UInt8 (fun c => c ≠ 10) (text ++ rest)
    rw [taken] at parts
    exact List.append_cancel_left parts
  simp only [scanLine, taken, left, if_neg begun, Bool.false_or]
  rfl

def Runs (pattern : Bytes) (fp : Stream) (texts : List Bytes) : Prop :=
  ∀ (n : Nat) (buff : Bytes) (found : Bool) (turns : List GrepTurn), buff.length = 512 →
    (grepLoop pattern n fp buff found = .ok turns ↔
      texts.length < n ∧ (∀ text ∈ texts, text.length < 512) ∧ turns = turnsOver pattern found texts)

theorem runs_end (pattern rest : Bytes) : Runs pattern { rest, eof := true } [] := by
  intro n buff found turns _
  cases n with
  | zero => simp [grepLoop]
  | succ n => simp [grepLoop, turnsOver, eq_comm]

theorem grep_loop_turn (pattern : Bytes) (n : Nat) (fp : Stream) (buff : Bytes) (found : Bool) (turns : List GrepTurn)
    (more : fp.eof = false) :
    grepLoop pattern (n + 1) fp buff found = .ok turns ↔
      ∃ after next answer later, scanLine fp buff = .ok (after, next) ∧ testLine pattern next found = .ok answer ∧
        grepLoop pattern n after next answer = .ok later ∧ turns = ⟨shown next, answer⟩ :: later := by
  rw [grepLoop, if_neg (by simp [more]), except_bind_ok]
  constructor
  · rintro ⟨⟨after, next⟩, read, rest⟩
    obtain ⟨answer, tested, rest⟩ := (except_bind_ok _ _ _).mp rest
    obtain ⟨later, behind, done⟩ := (except_bind_ok _ _ _).mp rest
    cases done
    exact ⟨after, next, answer, later, read, tested, behind, rfl⟩
  · rintro ⟨after, next, answer, later, read, tested, behind, rfl⟩
    exact ⟨(after, next), read, (except_bind_ok _ _ _).mpr ⟨answer, tested,
      (except_bind_ok _ _ _).mpr ⟨later, behind, rfl⟩⟩⟩

theorem runs_turn (pattern text rest : Bytes) (texts : List Bytes) (begun : text ≠ []) (plain : 10 ∉ text)
    (stops : rest = [] ∨ ∃ tail, rest = 10 :: tail) (behind : Runs pattern (afterSpace rest) texts) :
    Runs pattern { rest := text ++ rest, eof := false } (text :: texts) := by
  intro n buff found turns size
  cases n with
  | zero => simp [grepLoop]
  | succ n =>
      have read := scan_line_reads text rest buff begun plain stops
      rw [size] at read
      rw [grep_loop_turn pattern n _ buff found turns rfl, read, List.forall_mem_cons, List.length_cons]
      by_cases fits : text.length < 512
      · have kept : (text ++ 0 :: buff.drop (text.length + 1)).length = 512 := by
          rw [List.length_append, List.length_cons, List.length_drop, size]
          omega
        have later := fun turns => behind n _ (verdict pattern (shown text) found) turns kept
        rw [if_pos fits]
        constructor
        · rintro ⟨_, _, answer, rest, same, tested, loop, rfl⟩
          cases same
          rw [test_line_verdict] at tested
          cases tested
          obtain ⟨enough, short, rfl⟩ := (later _).mp loop
          exact ⟨Nat.succ_lt_succ enough, ⟨fits, short⟩, by rw [shown_buffer]; rfl⟩
        · rintro ⟨enough, ⟨-, short⟩, rfl⟩
          refine ⟨_, _, _, _, rfl, test_line_verdict pattern text _ found,
            (later _).mpr ⟨Nat.lt_of_succ_lt_succ enough, short, rfl⟩, ?_⟩
          rw [shown_buffer]
          rfl
      · rw [if_neg fits]
        constructor
        · rintro ⟨_, _, _, _, same, -⟩
          cases same
        · exact fun ⟨_, ⟨short, _⟩, _⟩ => absurd short fits

theorem later_texts_blank (line : Bytes) (later : List Bytes) (blank : strip line = []) :
    laterTexts (line :: later) = laterTexts later := by
  rw [laterTexts, List.map_cons, List.filter_cons_of_neg (by simpa using blank)]
  rfl

theorem later_texts_line (line : Bytes) (later : List Bytes) (text : strip line ≠ []) :
    laterTexts (line :: later) = strip line :: laterTexts later := by
  rw [laterTexts, List.map_cons, List.filter_cons_of_pos (by simpa using text)]
  rfl

theorem after_line (line rest : Bytes) :
    (line ++ 10 :: rest).dropWhile isspace =
      if strip line = [] then rest.dropWhile isspace else strip line ++ 10 :: rest := by
  rw [List.dropWhile_append, List.dropWhile_cons_of_pos rfl]
  change (if (strip line).isEmpty = true then _ else strip line ++ 10 :: rest) = _
  by_cases blank : strip line = []
  · rw [if_pos blank, if_pos (List.isEmpty_iff.mpr blank)]
  · rw [if_neg blank, if_neg fun empty => blank (List.isEmpty_iff.mp empty)]

theorem strip_plain (line : Bytes) (plain : 10 ∉ line) : 10 ∉ strip line :=
  fun member => plain ((List.dropWhile_sublist isspace).subset member)

theorem after_newline (rest : Bytes) : afterSpace (10 :: rest) = afterSpace rest := by
  rw [afterSpace, List.dropWhile_cons_of_pos rfl]
  rfl

theorem runs_after (pattern tail : Bytes) : Runs pattern (afterSpace tail) (laterTexts (lines tail)) := by
  induction tail using lines_induction with
  | last text plain =>
      rw [lines_last text plain]
      by_cases blank : strip text = []
      · have space : afterSpace text = { rest := [], eof := true } := by
          rw [afterSpace, show text.dropWhile isspace = [] from blank]
          rfl
        rw [later_texts_blank text [] blank, space]
        exact runs_end pattern []
      · have space : afterSpace text = { rest := strip text, eof := false } := by
          rw [afterSpace, decide_eq_false (show ¬text.dropWhile isspace = [] from blank)]
          rfl
        have turn := runs_turn pattern (strip text) [] [] blank (strip_plain text plain) (.inl rfl) (runs_end pattern [])
        rw [List.append_nil] at turn
        rw [later_texts_line text [] blank, space]
        exact turn
  | next line rest plain ih =>
      rw [lines_next line rest plain]
      by_cases blank : strip line = []
      · rw [later_texts_blank line _ blank, afterSpace, after_line, if_pos blank]
        exact ih
      · rw [later_texts_line line _ blank, afterSpace, after_line, if_neg blank, decide_eq_false (by simp)]
        exact runs_turn pattern (strip line) (10 :: rest) _ blank (strip_plain line plain) (.inr ⟨rest, rfl⟩)
          (after_newline rest ▸ ih)

theorem read_texts_cons (first : Bytes) (later : List Bytes) : readTexts (first :: later) = first :: laterTexts later := by
  have behind : (later.map fun line => (line, if strip line = [] then none else some (strip line))).filterMap Prod.snd =
      laterTexts later := by
    induction later with
    | nil => rfl
    | cons line later ih =>
        rw [List.map_cons]
        by_cases blank : strip line = []
        · rw [if_pos blank, later_texts_blank line later blank, ← ih]
          rfl
        · rw [if_neg blank, later_texts_line line later blank, ← ih]
          rfl
  rw [← behind]
  rfl

theorem runs_contents (pattern first contents : Bytes) (later : List Bytes) (whole : lines contents = first :: later)
    (begun : first ≠ []) : Runs pattern (fopen contents) (readTexts (first :: later)) := by
  rw [read_texts_cons]
  induction contents using lines_induction with
  | last text plain =>
      rw [lines_last text plain] at whole
      cases whole
      have turn := runs_turn pattern first [] [] begun plain (.inl rfl) (runs_end pattern [])
      rwa [List.append_nil] at turn
  | next line rest plain _ =>
      rw [lines_next line rest plain] at whole
      cases whole
      exact runs_turn pattern first (10 :: rest) _ begun plain (.inr ⟨rest, rfl⟩)
        (after_newline rest ▸ runs_after pattern rest)

theorem lines_start (contents : Bytes) :
    ∃ first later, lines contents = first :: later ∧
      (first = [] → contents = [] ∨ ∃ rest, contents = 10 :: rest) := by
  induction contents using lines_induction with
  | last text plain => exact ⟨text, [], lines_last text plain, .inl⟩
  | next line rest plain _ =>
      refine ⟨line, lines rest, lines_next line rest plain, ?_⟩
      rintro rfl
      exact .inr ⟨rest, rfl⟩

theorem grep_loop_stuck (pattern rest : Bytes) (n : Nat) (buff : Bytes) (found : Bool) (turns : List GrepTurn) :
    grepLoop pattern n { rest := 10 :: rest, eof := false } buff found ≠ .ok turns := by
  induction n generalizing found turns with
  | zero => exact fun done => by cases done
  | succ n ih =>
      rw [ne_eq, grep_loop_turn pattern n _ buff found turns rfl]
      rintro ⟨_, _, answer, later, same, -, loop, -⟩
      cases same
      exact ih answer later loop

theorem grep_loop_empty (pattern : Bytes) (n : Nat) (buff : Bytes) (found : Bool) (turns : List GrepTurn)
    (done : grepLoop pattern n { rest := [], eof := false } buff found = .ok turns) :
    ∃ answer, testLine pattern buff found = .ok answer ∧ turns = [⟨shown buff, answer⟩] := by
  cases n with
  | zero => cases done
  | succ n =>
      obtain ⟨_, _, answer, later, same, tested, loop, rfl⟩ := (grep_loop_turn pattern n _ buff found turns rfl).mp done
      cases same
      cases n with
      | zero => cases loop
      | succ n =>
          cases loop
          exact ⟨answer, tested, rfl⟩

theorem grep_contents (pattern : Bytes) (junk : Nat → UInt8) (found : Bool) (contents first : Bytes) (later : List Bytes)
    (n : Nat) (turns : List GrepTurn) (whole : lines contents = first :: later) (begun : first ≠ []) :
    grep pattern junk found contents n = .ok turns ↔
      (readTexts (first :: later)).length < n ∧ (∀ text ∈ readTexts (first :: later), text.length < 512) ∧
        turns = turnsOver pattern found (readTexts (first :: later)) :=
  runs_contents pattern first contents later whole begun n _ found turns (malloc_length junk 512)

theorem turns_over_texts (pattern : Bytes) (found : Bool) (texts : List Bytes) :
    (turnsOver pattern found texts).map GrepTurn.text = texts.map shown := by
  induction texts generalizing found with
  | nil => rfl
  | cons text later ih => exact congrArg (shown text :: ·) (ih _)

theorem reads_first (first : Bytes) (later : List Bytes) : (first, some first) ∈ grepReads (first :: later) :=
  List.mem_cons_self

theorem reads_cases (first line : Bytes) (later : List Bytes) (text : Option Bytes)
    (member : (line, text) ∈ grepReads (first :: later)) :
    (line = first ∧ text = some first) ∨ (line ∈ later ∧ text = if strip line = [] then none else some (strip line)) := by
  rcases List.mem_cons.mp member with same | behind
  · cases same
    exact .inl ⟨rfl, rfl⟩
  · obtain ⟨other, inside, same⟩ := List.mem_map.mp behind
    cases same
    exact .inr ⟨inside, rfl⟩

theorem reads_later (first line : Bytes) (later : List Bytes) (member : line ∈ later) :
    (line, if strip line = [] then none else some (strip line)) ∈ grepReads (first :: later) :=
  List.mem_cons_of_mem _ (List.mem_map.mpr ⟨line, member, rfl⟩)

theorem reads_suffix (lines : List Bytes) (line text : Bytes) (member : (line, some text) ∈ grepReads lines) :
    text <:+ line := by
  cases lines with
  | nil => cases member
  | cons first later =>
      rcases reads_cases first line later _ member with ⟨rfl, same⟩ | ⟨_, same⟩
      · cases same
        exact List.suffix_rfl
      · by_cases blank : strip line = []
        · rw [if_pos blank] at same
          cases same
        · rw [if_neg blank] at same
          cases same
          exact List.dropWhile_suffix isspace

theorem strip_whole (line : Bytes) : strip line = line ↔ ∀ c ∈ line.head?, isspace c = false := by
  cases line with
  | nil => simp [strip]
  | cons c line =>
      rw [List.head?_cons]
      by_cases space : isspace c = true
      · have shorter : (line.dropWhile isspace).length ≤ line.length := (List.dropWhile_sublist isspace).length_le
        rw [strip, List.dropWhile_cons_of_pos space]
        constructor
        · intro same
          rw [same, List.length_cons] at shorter
          omega
        · intro margin
          rw [margin c rfl] at space
          cases space
      · rw [strip, List.dropWhile_cons_of_neg space]
        simpa using space

theorem shown_whole (line : Bytes) :
    shown (strip line) = line ↔ 0 ∉ line ∧ ∀ c ∈ line.head?, isspace c = false := by
  rw [← strip_whole]
  constructor
  · intro same
    have shorter : (shown (strip line)).length ≤ (strip line).length := (List.takeWhile_sublist _).length_le
    rw [same] at shorter
    have behind : strip line <:+ line := List.dropWhile_suffix isspace
    have kept := behind.eq_of_length_le shorter
    refine ⟨?_, kept⟩
    rw [← same]
    exact take_while_plain (strip line) 0
  · rintro ⟨plain, kept⟩
    rw [kept]
    exact take_while_whole line 0 plain

theorem reads_lines (lines : List Bytes) : (grepReads lines).map Prod.fst = lines := by
  cases lines with
  | nil => rfl
  | cons first later =>
      rw [grepReads, List.map_cons, List.map_map]
      exact congrArg (first :: ·) (List.map_id later)

theorem read_texts_short (lines : List Bytes) (size : Nat) (short : ∀ line ∈ lines, line.length < size) (text : Bytes)
    (member : text ∈ readTexts lines) : text.length < size := by
  obtain ⟨⟨line, read⟩, inside, same⟩ := List.mem_filterMap.mp member
  cases same
  have kept : line ∈ lines := by
    rw [← reads_lines lines]
    exact List.mem_map.mpr ⟨_, inside, rfl⟩
  exact Nat.lt_of_le_of_lt (reads_suffix lines line text inside).length_le (short line kept)

def shownReads (lines : List Bytes) : List (Bytes × Option Bytes) :=
  (grepReads lines).map fun read => (read.1, read.2.map shown)

theorem shown_reads_texts (lines : List Bytes) : (shownReads lines).filterMap Prod.snd = (readTexts lines).map shown := by
  rw [shownReads, readTexts, List.filterMap_map, List.map_filterMap]
  rfl

theorem shown_reads_lines (lines : List Bytes) : (shownReads lines).map Prod.fst = lines := by
  rw [shownReads, List.map_map]
  exact reads_lines lines

theorem shown_reads_tested (lines : List Bytes) :
    (readTexts lines).map shown = lines.filter (fun line => line ≠ []) ↔
      ∀ line text, (line, text) ∈ grepReads lines → text.map shown = if line ≠ [] then some line else none := by
  have sound : ∀ line text, (line, some text) ∈ shownReads lines → text ≠ [] → line ≠ [] := by
    rintro line text member tested rfl
    obtain ⟨⟨other, read⟩, inside, same⟩ := List.mem_map.mp member
    cases read with
    | none => cases same
    | some read =>
        cases same
        rw [List.suffix_nil.mp (reads_suffix lines [] read inside)] at tested
        exact tested rfl
  have aligned := outputs_aligned (fun line => line ≠ []) (shownReads lines) sound
  rw [shown_reads_texts, shown_reads_lines] at aligned
  rw [aligned]
  constructor
  · exact fun each line text member => each line _ (List.mem_map.mpr ⟨(line, text), member, rfl⟩)
  · intro each line output member
    obtain ⟨⟨other, text⟩, inside, same⟩ := List.mem_map.mp member
    cases same
    exact each other text inside

theorem shown_later (line : Bytes) (some : line ≠ []) :
    (if strip line = [] then none else Option.some (strip line)).map shown = Option.some line ↔ shown (strip line) = line := by
  by_cases blank : strip line = []
  · rw [if_pos blank, blank]
    constructor
    · exact fun same => by cases same
    · exact fun same => absurd same.symm some
  · rw [if_neg blank, Option.map_some, Option.some_inj]

theorem shown_reads_whole (first : Bytes) (later : List Bytes) (begun : first ≠ []) :
    (readTexts (first :: later)).map shown = (first :: later).filter (fun line => line ≠ []) ↔
      0 ∉ first ∧ ∀ line ∈ later, 0 ∉ line ∧ ∀ c ∈ line.head?, isspace c = false := by
  rw [shown_reads_tested]
  constructor
  · intro tested
    have here := tested first (some first) (reads_first first later)
    rw [if_pos begun, Option.map_some, Option.some_inj] at here
    refine ⟨here ▸ take_while_plain first 0, fun line member => ?_⟩
    by_cases empty : line = []
    · subst empty
      exact ⟨List.not_mem_nil, fun c inside => by cases inside⟩
    · have read := tested line _ (reads_later first line later member)
      rw [if_pos empty] at read
      exact (shown_whole line).mp ((shown_later line empty).mp read)
  · rintro ⟨plain, clear⟩ line text member
    rcases reads_cases first line later text member with ⟨rfl, rfl⟩ | ⟨inside, rfl⟩
    · rw [if_pos begun]
      exact congrArg some (take_while_whole line 0 plain)
    · by_cases empty : line = []
      · subst empty
        rfl
      · rw [if_pos empty]
        exact (shown_later line empty).mpr ((shown_whole line).mpr (clear line inside))

theorem strip_fits (line : Bytes) (later : List Bytes) (member : line ∈ later) (margin : ∀ c ∈ line.head?, isspace c = false)
    (short : ∀ text ∈ laterTexts later, text.length < 512) : line.length < 512 := by
  by_cases empty : line = []
  · subst empty
    decide
  · have kept := (strip_whole line).mpr margin
    exact short line (List.mem_filter.mpr ⟨List.mem_map.mpr ⟨line, member, kept⟩, by simpa using empty⟩)

theorem grep_tests_iff (pattern : Bytes) (junk : Nat → UInt8) (found : Bool) (contents : Bytes) :
    GrepTests pattern junk found contents ↔ TestsGuard contents := by
  obtain ⟨first, later, whole, starts⟩ := lines_start contents
  by_cases begun : first = []
  · subst begun
    refine ⟨?_, fun guard => absurd (by rw [whole]; rfl) guard.begun⟩
    rintro ⟨n, turns, done, tested⟩
    rcases starts rfl with rfl | ⟨rest, rfl⟩
    · obtain ⟨answer, -, rfl⟩ := grep_loop_empty pattern n _ found turns done
      cases tested
    · exact absurd done (grep_loop_stuck pattern rest n _ found turns)
  · have runs := fun n turns => grep_contents pattern junk found contents first later n turns whole begun
    constructor
    · rintro ⟨n, turns, done, tested⟩
      obtain ⟨-, short, rfl⟩ := (runs n turns).mp done
      rw [turns_over_texts, whole, shown_reads_whole first later begun] at tested
      obtain ⟨plain, clear⟩ := tested
      rw [read_texts_cons, List.forall_mem_cons] at short
      refine ⟨by simpa [whole] using begun, ?_, ?_⟩
      · rw [whole]
        exact fun line member => (clear line member).2
      · rw [whole, List.forall_mem_cons]
        exact ⟨⟨short.1, plain⟩, fun line member =>
          ⟨strip_fits line later member (clear line member).2 short.2, (clear line member).1⟩⟩
    · rintro ⟨-, margin, fits⟩
      rw [whole] at margin fits
      have short := read_texts_short (first :: later) 512 fun line member => (fits line member).1
      refine ⟨_, _, (runs _ _).mpr ⟨Nat.lt_succ_self _, short, rfl⟩, ?_⟩
      rw [turns_over_texts, whole, shown_reads_whole first later begun]
      rw [List.forall_mem_cons] at fits
      exact ⟨fits.1.2, fun line member => ⟨(fits.2 line member).2, margin line member⟩⟩

-- A newline and no more: no turn is the last one.
theorem grep_newline_stuck : ¬GrepTests [97] (fun _ => 0) false [10] := by
  rintro ⟨n, turns, done, -⟩
  exact grep_loop_stuck [97] [] n _ false turns done

end Yaup.Busybox
