import Yaup.GetDelim
import Yaup.Session
import Yaup.Useradd

set_option autoImplicit false

namespace Yaup.Busybox

open Lib

structure GidScan where
  groups : Stream
  gname : Bytes
  gpass : Bytes
  gid : Bytes
  found : Bool

def gidTurn (str : Bytes) (s : GidScan) : Except Undefined GidScan := do
  let (gname, groups) ← getDelim s.gname 64 58 s.groups
  match sameString gname str with
  | none => .error .outside
  | some true =>
      let (gpass, groups) ← getDelim s.gpass 512 58 groups
      let (gid, groups) ← getDelim s.gid 5 58 groups
      return { groups, gname, gpass, gid, found := true }
  | some false =>
      let (gpass, groups) ← getDelim s.gpass 512 10 groups
      return { s with groups, gname, gpass }

theorem gid_turn_left (str : Bytes) (s t : GidScan) (turned : gidTurn str s = .ok t) (more : s.groups.eof = false) :
    t.groups.left < s.groups.left := by
  obtain ⟨⟨gname, named⟩, read, turned⟩ := (except_bind_ok _ _ _).mp turned
  have first := (get_delim_left _ _ _ _ _ _ read).2 more
  dsimp only at turned
  split at turned
  · cases turned
  · obtain ⟨⟨gpass, passed⟩, read, turned⟩ := (except_bind_ok _ _ _).mp turned
    obtain ⟨⟨gid, behind⟩, last, turned⟩ := (except_bind_ok _ _ _).mp turned
    cases turned
    have second := (get_delim_left _ _ _ _ _ _ read).1
    have third := (get_delim_left _ _ _ _ _ _ last).1
    exact Nat.lt_of_le_of_lt (Nat.le_trans third second) first
  · obtain ⟨⟨gpass, passed⟩, read, turned⟩ := (except_bind_ok _ _ _).mp turned
    cases turned
    have second := (get_delim_left _ _ _ _ _ _ read).1
    exact Nat.lt_of_le_of_lt second first

def gidLoop (str : Bytes) (s : GidScan) : Except Undefined GidScan :=
  if _ : s.groups.eof = false then
    match _ : gidTurn str s with
    | .error undefined => .error undefined
    | .ok t => gidLoop str t
  else .ok s
termination_by s.groups.left
decreasing_by exact gid_turn_left str s t (by assumption) (by assumption)

-- gid_t is an unsigned char.
def GidScan.answer (s : GidScan) : UInt8 := if s.found then UInt8.ofInt (atoi (s.gid.takeWhile fun byte => byte ≠ 0)) else -1

structure GidJunk where
  gname : Nat → UInt8
  gpass : Nat → UInt8
  gid : Nat → UInt8

def gidStart (junk : GidJunk) (groups : Bytes) : GidScan where
  groups := fopen groups
  gname := malloc junk.gname 64
  gpass := malloc junk.gpass 512
  gid := malloc junk.gid 5
  found := false

def getGid (junk : GidJunk) (groups str : Bytes) : Except Undefined UInt8 :=
  (gidLoop (str ++ [0]) (gidStart junk groups)).map GidScan.answer

-- A line name:password:gid:members.
structure Group where
  name : Field
  pass : Field
  gid : Field
  members : Field
  named : name.text ≠ []
  digits : ∀ digit ∈ gid.text, 48 ≤ digit ∧ digit ≤ 57
  short : 0 < gid.text.length ∧ gid.text.length ≤ 10

def Group.behind (g : Group) : Bytes := g.pass.text ++ 58 :: (g.gid.text ++ 58 :: g.members.text)

def groupLines (ended : Bool) : List Group → Bytes
  | [] => []
  | g :: rest =>
      g.name.text ++ 58 :: (g.behind ++ if rest = [] ∧ ended = false then [] else 10 :: groupLines ended rest)

structure GroupFile where
  groups : List Group
  ended : Bool
  distinct : (groups.map fun g => g.name.text).Nodup

def GroupFile.bytes (file : GroupFile) : Bytes := groupLines file.ended file.groups

def GidAnswers (groups : List Group) (str : Bytes) (gid : UInt8) : Prop :=
  (∀ g ∈ groups, g.name.text = str → (gid.toNat : Int) = decimal g.gid.text) ∧
    ((∀ g ∈ groups, g.name.text ≠ str) → gid = -1)

def GidRight (junk : GidJunk) (file : GroupFile) (str : Arg) : Prop :=
  ∃ gid, getGid junk file.bytes str.text = .ok gid ∧ GidAnswers file.groups str.text gid

def Group.Fits (g : Group) : Prop := g.name.text.length < 64 ∧ g.behind.length < 512

-- Behind a hit the members are read as a name, with the name of the line that comes next.
def FitsBehind (ended : Bool) (g : Group) : List Group → Prop
  | [] =>
      (g.members.text ++ if ended then [10] else []).length < 64 ∧
        (ended = false → g.members.text = g.name.text → decimal g.gid.text = 0)
  | next :: rest => (g.members.text ++ 10 :: next.name.text).length < 64 ∧ next.behind.length < 512 ∧ ∀ g ∈ rest, g.Fits

-- The line of a name, gid below 256, in the buffers with what is read behind it, or no line
-- of that name and not the empty one that is read where a last newline is the end.
def GidReads (ended : Bool) (str : Bytes) : List Group → Prop
  | [] => str ≠ []
  | g :: rest =>
      if g.name.text = str then
        str.length < 64 ∧ g.pass.text.length < 512 ∧ g.gid.text.length < 5 ∧ decimal g.gid.text < 256 ∧ FitsBehind ended g rest
      else g.Fits ∧ (rest = [] ∧ ended = false ∨ GidReads ended str rest)

structure GidScan.Sized (s : GidScan) : Prop where
  gname : s.gname.length = 64
  gpass : s.gpass.length = 512
  gid : s.gid.length = 5

def GidScan.passed (s : GidScan) (groups : Stream) (name line : Bytes) : GidScan :=
  { s with groups, gname := stored s.gname name, gpass := stored s.gpass line }

theorem passed_sized (s : GidScan) (groups : Stream) (name line : Bytes) (sized : s.Sized)
    (fits : name.length < 64 ∧ line.length < 512) : (s.passed groups name line).Sized :=
  ⟨(stored_length _ _ (sized.gname ▸ fits.1)).trans sized.gname,
    (stored_length _ _ (sized.gpass ▸ fits.2)).trans sized.gpass, sized.gid⟩

theorem gname_compared (str : Arg) (buff name : Bytes) (nul : 0 ∉ name) :
    sameString (stored buff name) (str.text ++ [0]) = some (decide (name = str.text)) :=
  same_string_texts _ _ name str.text nul str.plain (holds_text _ _) (holds_text _ _)

theorem gid_turn_misses (str : Arg) (s : GidScan) (name tail line later : Bytes) (sized : s.Sized)
    (reads : s.groups.rest = name ++ tail) (colon : 58 ∉ name) (nul : 0 ∉ name) (stops : ∀ byte ∈ tail.head?, byte = 58)
    (goes : tail.tail = line ++ later) (newline : 10 ∉ line) (ends : ∀ byte ∈ later.head?, byte = 10)
    (other : name ≠ str.text) :
    gidTurn (str.text ++ [0]) s =
      if name.length < 64 ∧ line.length < 512 then .ok (s.passed (readPast (readPast s.groups tail) later) name line)
      else .error .outside := by
  have first : getDelim s.gname 64 58 s.groups = _ := get_delim_byte 64 58 s.gname name tail _ sized.gname reads colon stops
  have second : getDelim s.gpass 512 10 (readPast s.groups tail) = _ :=
    get_delim_byte 512 10 s.gpass line later _ sized.gpass goes newline ends
  rw [gidTurn, first]
  by_cases short : name.length < 64
  · rw [if_pos short]
    simp only [bind, Except.bind, gname_compared str _ name nul, decide_eq_false other, second]
    by_cases fits : line.length < 512
    · rw [if_pos fits, if_pos ⟨short, fits⟩]
      rfl
    · rw [if_neg fits, if_neg fun both => fits both.2]
  · rw [if_neg short, if_neg fun both => short both.1]
    rfl

theorem gid_turn_finds (str : Arg) (s : GidScan) (tail pass rest gid later : Bytes) (sized : s.Sized)
    (reads : s.groups.rest = str.text ++ tail) (colon : 58 ∉ str.text) (stops : ∀ byte ∈ tail.head?, byte = 58)
    (goes : tail.tail = pass ++ rest) (passColon : 58 ∉ pass) (passStops : ∀ byte ∈ rest.head?, byte = 58)
    (reaches : rest.tail = gid ++ later) (gidColon : 58 ∉ gid) (gidStops : ∀ byte ∈ later.head?, byte = 58) :
    gidTurn (str.text ++ [0]) s =
      if str.text.length < 64 ∧ pass.length < 512 ∧ gid.length < 5 then
        .ok {
          groups := readPast (readPast (readPast s.groups tail) rest) later, gname := stored s.gname str.text,
          gpass := stored s.gpass pass, gid := stored s.gid gid, found := true }
      else .error .outside := by
  have first : getDelim s.gname 64 58 s.groups = _ :=
    get_delim_byte 64 58 s.gname str.text tail _ sized.gname reads colon stops
  have second : getDelim s.gpass 512 58 (readPast s.groups tail) = _ :=
    get_delim_byte 512 58 s.gpass pass rest _ sized.gpass goes passColon passStops
  have third : getDelim s.gid 5 58 (readPast (readPast s.groups tail) rest) = _ :=
    get_delim_byte 5 58 s.gid gid later _ sized.gid reaches gidColon gidStops
  rw [gidTurn, first]
  by_cases short : str.text.length < 64
  · rw [if_pos short]
    simp only [bind, Except.bind, gname_compared str _ _ str.plain, decide_true, second]
    by_cases fits : pass.length < 512
    · rw [if_pos fits]
      simp only [third]
      by_cases narrow : gid.length < 5
      · rw [if_pos narrow, if_pos ⟨short, fits, narrow⟩]
        rfl
      · rw [if_neg narrow, if_neg fun all => narrow all.2.2]
    · rw [if_neg fits, if_neg fun all => fits all.2.1]
  · rw [if_neg short, if_neg fun all => short all.1]
    rfl

def gidFrom (str : Arg) (s : GidScan) : Except Undefined UInt8 := (gidLoop (str.text ++ [0]) s).map GidScan.answer

theorem gid_from_ended (str : Arg) (s : GidScan) (ended : s.groups.eof = true) : gidFrom str s = .ok s.answer := by
  rw [gidFrom, gidLoop, dif_neg (by simp [ended])]
  rfl

theorem gid_from_turn (str : Arg) (s : GidScan) (t : GidScan) (fits : Prop) [Decidable fits] (more : s.groups.eof = false)
    (turned : gidTurn (str.text ++ [0]) s = if fits then .ok t else .error .outside) (gid : UInt8) :
    gidFrom str s = .ok gid ↔ fits ∧ gidFrom str t = .ok gid := by
  rw [gidFrom, gidLoop, dif_pos more]
  split
  · rename_i undefined failed
    rw [turned] at failed
    by_cases inside : fits
    · rw [if_pos inside] at failed
      cases failed
    · refine ⟨fun done => ?_, fun both => absurd both.1 inside⟩
      cases done
  · rename_i next went
    rw [turned] at went
    by_cases inside : fits
    · rw [if_pos inside] at went
      cases went
      exact (and_iff_right inside).symm
    · rw [if_neg inside] at went
      cases went

def lineEnd (ended : Bool) (rest : List Group) : Bytes :=
  if rest = [] ∧ ended = false then [] else 10 :: groupLines ended rest

theorem line_end_stops (ended : Bool) (rest : List Group) : ∀ byte ∈ (lineEnd ended rest).head?, byte = 10 := by
  unfold lineEnd
  split <;> simp

theorem line_end_past (ended : Bool) (rest : List Group) (groups : Stream) (more : groups.eof = false) :
    readPast groups (lineEnd ended rest) = ⟨groupLines ended rest, decide (rest = [] ∧ ended = false)⟩ := by
  unfold lineEnd readPast
  by_cases last : rest = [] ∧ ended = false
  · obtain ⟨rfl, rfl⟩ := last
    simp [groupLines]
  · rw [if_neg last, more, decide_eq_false last]
    rfl

theorem field_no_newline (field : Field) : 10 ∉ field.text := fun member => (field.plain 10 member).2.1 rfl

theorem behind_no_newline (g : Group) : 10 ∉ g.behind := by
  intro member
  simp only [Group.behind, List.mem_append, List.mem_cons] at member
  rcases member with pass | colon | gid | colon | members
  · exact field_no_newline g.pass pass
  · exact absurd colon (by decide)
  · exact field_no_newline g.gid gid
  · exact absurd colon (by decide)
  · exact field_no_newline g.members members

theorem gid_from_line (str : Arg) (s : GidScan) (ended : Bool) (g : Group) (rest : List Group) (sized : s.Sized)
    (start : s.groups = ⟨groupLines ended (g :: rest), false⟩) (other : g.name.text ≠ str.text) (gid : UInt8) :
    gidFrom str s = .ok gid ↔ g.Fits ∧
      gidFrom str (s.passed ⟨groupLines ended rest, decide (rest = [] ∧ ended = false)⟩ g.name.text g.behind) = .ok gid := by
  have more : s.groups.eof = false := by rw [start]
  have turned := gid_turn_misses str s g.name.text (58 :: (g.behind ++ lineEnd ended rest)) g.behind (lineEnd ended rest) sized
    (by rw [start]; rfl) (field_no_colon g.name) (field_no_nul g.name) (by simp) rfl (behind_no_newline g)
    (line_end_stops ended rest) other
  rw [line_end_past ended rest _ (by simp [readPast, more])] at turned
  exact gid_from_turn str s _ _ more turned gid

def Settles (str : Arg) (ended eof : Bool) (groups : List Group) : Prop :=
  str.text ≠ [] ∨ eof = true ∨ groups ≠ [] ∧ ended = false

theorem settles_next (str : Arg) (ended : Bool) (g : Group) (rest : List Group) :
    Settles str ended false (g :: rest) ↔ Settles str ended (decide (rest = [] ∧ ended = false)) rest := by
  unfold Settles
  cases rest with
  | nil => simp
  | cons next rest => simp

-- By induction on the lines: each is read whole, and the answer stays what it was.
theorem gid_from_misses (str : Arg) (s : GidScan) (ended eof : Bool) (groups : List Group) (sized : s.Sized)
    (start : s.groups = ⟨groupLines ended groups, eof⟩) (last : eof = true → groups = [])
    (others : ∀ g ∈ groups, g.name.text ≠ str.text) (settles : Settles str ended eof groups) (gid : UInt8) :
    gidFrom str s = .ok gid ↔ (∀ g ∈ groups, g.Fits) ∧ gid = s.answer := by
  induction groups generalizing s eof with
  | nil =>
      have none : ∀ g ∈ ([] : List Group), g.Fits := by simp
      rw [and_iff_right none]
      cases eof with
      | true =>
          rw [gid_from_ended str s (by rw [start]), Except.ok.injEq]
          exact eq_comm
      | false =>
          have some : [] ≠ str.text := by
            rcases settles with some | absent | absent
            · exact some.symm
            · cases absent
            · exact absurd rfl absent.1
          have more : s.groups.eof = false := by rw [start]
          have turned := gid_turn_misses str s [] [] [] [] sized (by rw [start]; rfl) (by simp) (by simp) (by simp) rfl
            (by simp) (by simp) some
          rw [gid_from_turn str s _ _ more turned gid, and_iff_right (by simp),
            gid_from_ended str _ (by simp [GidScan.passed, readPast]), Except.ok.injEq]
          exact eq_comm
  | cons g rest ih =>
      have opened : eof = false := by
        cases eof with
        | false => rfl
        | true => cases last rfl
      subst opened
      have other := others g List.mem_cons_self
      rw [gid_from_line str s ended g rest sized start other gid, List.forall_mem_cons, and_assoc]
      refine and_congr_right fun fits => ?_
      exact ih _ _ (passed_sized s _ _ _ sized fits) rfl (fun closed => (decide_eq_true_iff.mp closed).1)
        (fun g member => others g (List.mem_cons_of_mem _ member)) ((settles_next str ended g rest).mp settles)

theorem gid_from_empty (str : Arg) (s : GidScan) (ended eof : Bool) (groups : List Group) (sized : s.Sized)
    (start : s.groups = ⟨groupLines ended groups, eof⟩) (last : eof = true → groups = [])
    (unsettled : ¬Settles str ended eof groups) (gid : UInt8) (done : gidFrom str s = .ok gid) : gid = 0 := by
  obtain ⟨empty, opened, more⟩ : str.text = [] ∧ eof = false ∧ (groups = [] ∨ ended = true) := by
    simp only [Settles, not_or, not_and, ne_eq, Decidable.not_not, Bool.not_eq_true, Bool.not_eq_false] at unsettled
    exact ⟨unsettled.1, unsettled.2.1, (Classical.em (groups = [])).imp_right unsettled.2.2⟩
  subst opened
  induction groups generalizing s with
  | nil =>
      have more : s.groups.eof = false := by rw [start]
      have turned := gid_turn_finds str s [] [] [] [] [] sized (by rw [start, empty]; rfl) (by simp [empty]) (by simp) rfl
        (by simp) (by simp) rfl (by simp) (by simp)
      have rest := ((gid_from_turn str s _ _ more turned gid).mp done).2
      rw [gid_from_ended str _ (by simp [readPast])] at rest
      cases rest
      have zero : atoi ((stored s.gid []).takeWhile fun byte => byte ≠ 0) = 0 := by simp [stored, atoi, decimal]
      rw [GidScan.answer, if_pos rfl, zero]
      rfl
  | cons g rest ih =>
      have other : g.name.text ≠ str.text := fun same => g.named (same.trans empty)
      have opened : ¬(rest = [] ∧ ended = false) := by
        rintro ⟨-, closed⟩
        rcases more with absent | ends
        · cases absent
        · rw [closed] at ends
          cases ends
      obtain ⟨fits, next⟩ := (gid_from_line str s ended g rest sized start other gid).mp done
      rw [settles_next, decide_eq_false opened] at unsettled
      rw [decide_eq_false opened] at next
      exact ih _ (passed_sized s _ _ _ sized fits) next (.inr (more.resolve_left (List.cons_ne_nil g rest))) rfl (by simp)
        unsettled

theorem decimal_digits (digits : Bytes) (all : ∀ digit ∈ digits, 48 ≤ digit ∧ digit ≤ 57) : atoi digits = decimal digits := by
  cases digits with
  | nil => rfl
  | cons digit rest =>
      obtain ⟨low, high⟩ := all digit List.mem_cons_self
      have shown : (digit :: rest).dropWhile (fun byte => byte = 32 || 9 ≤ byte && byte ≤ 13) = digit :: rest := by
        refine List.dropWhile_cons_of_neg ?_
        simp only [Bool.or_eq_true, Bool.and_eq_true, decide_eq_true_eq, not_or, not_and]
        constructor
        · rintro rfl
          exact absurd low (by decide)
        · intro _ control
          exact absurd (UInt8.le_trans low control) (by decide)
      have minus : digit ≠ 45 := by
        rintro rfl
        exact absurd low (by decide)
      have plus : digit ≠ 43 := by
        rintro rfl
        exact absurd low (by decide)
      rw [atoi, shown]
      split
      · rename_i same
        exact absurd (List.cons.inj same).1 minus
      · rename_i same
        exact absurd (List.cons.inj same).1 plus
      · rfl

theorem decimal_nonneg (digits : Bytes) : 0 ≤ decimal digits := by
  unfold decimal
  have each : ∀ byte ∈ digits.takeWhile (fun byte => 48 ≤ byte && byte ≤ 57), 48 ≤ byte.toNat := by
    intro byte member
    have digit := List.mem_takeWhile_imp member
    simp only [Bool.and_eq_true, decide_eq_true_eq] at digit
    exact UInt8.le_iff_toNat_le.mp digit.1
  suffices ∀ (bytes : Bytes) (n : Int), 0 ≤ n → (∀ byte ∈ bytes, 48 ≤ byte.toNat) →
      0 ≤ bytes.foldl (fun n byte => 10 * n + ((byte.toNat : Int) - 48)) n from this _ 0 (le_refl 0) each
  intro bytes
  induction bytes with
  | nil => exact fun n low _ => low
  | cons byte rest ih =>
      intro n low above
      have first := above byte List.mem_cons_self
      exact ih _ (by dsimp only; omega) fun byte member => above byte (List.mem_cons_of_mem _ member)

theorem gid_value (number : Int) (low : 0 ≤ number) : ((UInt8.ofInt number).toNat : Int) = number ↔ number < 256 := by
  have whole : (UInt8.ofInt number).toNat = number.toNat % 256 := by
    obtain ⟨n, rfl⟩ := Int.eq_ofNat_of_zero_le low
    rw [UInt8.ofInt]
    simp
    omega
  rw [whole]
  omega

def GidScan.hit (s : GidScan) (g : Group) (groups : Stream) : GidScan :=
  { groups, gname := stored s.gname g.name.text, gpass := stored s.gpass g.pass.text,
    gid := stored s.gid g.gid.text, found := true }

theorem hit_answer (s : GidScan) (g : Group) (groups : Stream) : (s.hit g groups).answer = UInt8.ofInt (decimal g.gid.text) := by
  have text : (stored s.gid g.gid.text).takeWhile (fun byte => byte ≠ 0) = g.gid.text :=
    take_while_until _ _ 0 (field_no_nul g.gid)
  unfold GidScan.answer GidScan.hit
  rw [if_pos rfl, text, decimal_digits _ g.digits]

theorem gid_from_hit (str : Arg) (s : GidScan) (ended : Bool) (g : Group) (rest : List Group) (sized : s.Sized)
    (start : s.groups = ⟨groupLines ended (g :: rest), false⟩) (same : g.name.text = str.text) (gid : UInt8) :
    gidFrom str s = .ok gid ↔ (str.text.length < 64 ∧ g.pass.text.length < 512 ∧ g.gid.text.length < 5) ∧
      gidFrom str (s.hit g ⟨g.members.text ++ lineEnd ended rest, false⟩) = .ok gid := by
  have more : s.groups.eof = false := by rw [start]
  have line : groupLines ended (g :: rest) =
      str.text ++ 58 :: (g.pass.text ++ 58 :: (g.gid.text ++ 58 :: (g.members.text ++ lineEnd ended rest))) := by
    simp [groupLines, Group.behind, lineEnd, same]
  have turned := gid_turn_finds str s _ g.pass.text (58 :: (g.gid.text ++ 58 :: (g.members.text ++ lineEnd ended rest)))
    g.gid.text (58 :: (g.members.text ++ lineEnd ended rest)) sized (by rw [start, line]) (same ▸ field_no_colon g.name)
    (by simp) rfl (field_no_colon g.pass) (by simp) rfl (field_no_colon g.gid) (by simp)
  have behind : ∀ first second, readPast (readPast (readPast s.groups (58 :: first)) (58 :: second)) (58 :: (g.members.text ++ lineEnd ended rest)) =
      ⟨g.members.text ++ lineEnd ended rest, false⟩ := fun _ _ => by simp [readPast, more]
  rw [← same, behind] at turned
  rw [← same]
  exact gid_from_turn str s _ _ more (same ▸ turned) gid

theorem gid_from_hit_last (str : Arg) (s : GidScan) (ended : Bool) (g : Group) (sized : s.Sized)
    (start : s.groups = ⟨g.members.text ++ lineEnd ended [], false⟩) (gid : UInt8) :
    gidFrom str s = .ok gid ↔ (g.members.text ++ lineEnd ended []).length < 64 ∧
      gid = if g.members.text ++ lineEnd ended [] = str.text then 0 else s.answer := by
  have more : s.groups.eof = false := by rw [start]
  have colon : 58 ∉ g.members.text ++ lineEnd ended [] := by
    have line : 58 ∉ lineEnd ended [] := by cases ended <;> simp [lineEnd, groupLines]
    simpa [line] using field_no_colon g.members
  have nul : 0 ∉ g.members.text ++ lineEnd ended [] := by
    have line : 0 ∉ lineEnd ended [] := by cases ended <;> simp [lineEnd, groupLines]
    simpa [line] using field_no_nul g.members
  by_cases hit : g.members.text ++ lineEnd ended [] = str.text
  · have turned := gid_turn_finds str s [] [] [] [] [] sized (by rw [start, hit]; simp) (hit ▸ colon) (by simp) rfl (by simp)
      (by simp) rfl (by simp) (by simp)
    have zero : atoi ((stored s.gid []).takeWhile fun byte => byte ≠ 0) = 0 := by simp [stored, atoi, decimal]
    rw [gid_from_turn str s _ _ more turned gid, gid_from_ended str _ (by simp [readPast]), if_pos hit, hit,
      Except.ok.injEq, GidScan.answer, if_pos rfl, zero]
    exact and_congr (and_iff_left (by simp)) eq_comm
  · have turned := gid_turn_misses str s _ [] [] [] sized (by rw [start, List.append_nil]) colon nul (by simp) rfl (by simp)
      (by simp) hit
    rw [gid_from_turn str s _ _ more turned gid, gid_from_ended str _ (by simp [GidScan.passed, readPast]), if_neg hit,
      Except.ok.injEq]
    exact and_congr (and_iff_left (by simp)) eq_comm

theorem gid_from_hit_more (str : Arg) (s : GidScan) (ended : Bool) (g next : Group) (rest : List Group) (sized : s.Sized)
    (start : s.groups = ⟨g.members.text ++ lineEnd ended (next :: rest), false⟩) (same : g.name.text = str.text)
    (others : ∀ other ∈ rest, other.name.text ≠ str.text) (gid : UInt8) :
    gidFrom str s = .ok gid ↔ ((g.members.text ++ 10 :: next.name.text).length < 64 ∧ next.behind.length < 512 ∧
      ∀ other ∈ rest, other.Fits) ∧ gid = s.answer := by
  have more : s.groups.eof = false := by rw [start]
  have line : g.members.text ++ lineEnd ended (next :: rest) =
      (g.members.text ++ 10 :: next.name.text) ++ 58 :: (next.behind ++ lineEnd ended rest) := by
    simp [lineEnd, groupLines]
  have other : g.members.text ++ 10 :: next.name.text ≠ str.text := by
    intro hit
    have newline : 10 ∈ g.name.text := by
      rw [same, ← hit]
      simp
    exact field_no_newline g.name newline
  have turned := gid_turn_misses str s _ (58 :: (next.behind ++ lineEnd ended rest)) next.behind (lineEnd ended rest) sized
    (by rw [start, line]) (by simpa using ⟨field_no_colon g.members, field_no_colon next.name⟩)
    (by simpa using ⟨field_no_nul g.members, field_no_nul next.name⟩) (by simp) rfl (behind_no_newline next)
    (line_end_stops ended rest) other
  rw [line_end_past ended rest _ (by simp [readPast, more])] at turned
  have settles : Settles str ended (decide (rest = [] ∧ ended = false)) rest := .inl (same ▸ g.named)
  rw [gid_from_turn str s _ _ more turned gid]
  refine (and_congr_right fun fits => ?_).trans (and_assoc.symm.trans (and_congr_left' and_assoc))
  exact gid_from_misses str _ ended _ rest (passed_sized s _ _ _ sized fits) rfl
    (fun closed => (decide_eq_true_iff.mp closed).1) others settles gid

theorem answers_behind (g : Group) (rest : List Group) (str : Bytes) (gid : UInt8) (other : g.name.text ≠ str) :
    GidAnswers (g :: rest) str gid ↔ GidAnswers rest str gid := by
  unfold GidAnswers
  rw [List.forall_mem_cons, List.forall_mem_cons, and_iff_right (fun same => absurd same other), and_iff_right other]

theorem answers_hit (g : Group) (rest : List Group) (str : Bytes) (gid : UInt8) (same : g.name.text = str)
    (others : ∀ other ∈ rest, other.name.text ≠ str) :
    GidAnswers (g :: rest) str gid ↔ (gid.toNat : Int) = decimal g.gid.text := by
  constructor
  · exact fun answers => answers.1 g List.mem_cons_self same
  · intro value
    refine ⟨List.forall_mem_cons.mpr ⟨fun _ => value, fun other member hit => absurd hit (others other member)⟩, ?_⟩
    exact fun none => absurd same (none g List.mem_cons_self)

theorem last_name (str : Arg) (ended : Bool) (g : Group) (same : g.name.text = str.text) :
    g.members.text ++ lineEnd ended [] = str.text ↔ ended = false ∧ g.members.text = g.name.text := by
  cases ended with
  | false => simp [lineEnd, same]
  | true =>
      constructor
      · intro hit
        have newline : 10 ∈ g.name.text := by
          rw [same, ← hit]
          simp [lineEnd]
        exact absurd newline (field_no_newline g.name)
      · rintro ⟨absent, -⟩
        cases absent

theorem gid_behind_hit (str : Arg) (s : GidScan) (ended : Bool) (g : Group) (rest : List Group) (sized : s.Sized)
    (start : s.groups = ⟨g.members.text ++ lineEnd ended rest, false⟩) (answer : s.answer = UInt8.ofInt (decimal g.gid.text))
    (same : g.name.text = str.text) (others : ∀ other ∈ rest, other.name.text ≠ str.text) :
    (∃ gid, gidFrom str s = .ok gid ∧ (gid.toNat : Int) = decimal g.gid.text) ↔
      decimal g.gid.text < 256 ∧ FitsBehind ended g rest := by
  have value := gid_value (decimal g.gid.text) (decimal_nonneg g.gid.text)
  cases rest with
  | nil =>
      have tail : lineEnd ended [] = if ended then [10] else [] := by cases ended <;> rfl
      simp only [gid_from_hit_last str s ended g sized start, FitsBehind, ← tail]
      by_cases hit : g.members.text ++ lineEnd ended [] = str.text
      · obtain ⟨open', named⟩ := (last_name str ended g same).mp hit
        simp only [if_pos hit]
        simp only [open', named, forall_const]
        constructor
        · rintro ⟨gid, ⟨room, rfl⟩, zero⟩
          exact ⟨by rw [← zero]; decide, room, zero.symm⟩
        · rintro ⟨-, room, zero⟩
          exact ⟨0, ⟨room, rfl⟩, zero.symm⟩
      · have unnamed : ended = false → g.members.text = g.name.text → decimal g.gid.text = 0 := fun open' named =>
          absurd ((last_name str ended g same).mpr ⟨open', named⟩) hit
        simp only [if_neg hit, answer]
        constructor
        · rintro ⟨gid, ⟨room, rfl⟩, kept⟩
          exact ⟨value.mp kept, room, unnamed⟩
        · rintro ⟨small, room, -⟩
          exact ⟨_, ⟨room, rfl⟩, value.mpr small⟩
  | cons next rest =>
      simp only [gid_from_hit_more str s ended g next rest sized start same
        (fun other member => others other (List.mem_cons_of_mem _ member)), FitsBehind, answer]
      constructor
      · rintro ⟨gid, ⟨fits, rfl⟩, kept⟩
        exact ⟨value.mp kept, fits⟩
      · rintro ⟨small, fits⟩
        exact ⟨_, ⟨fits, rfl⟩, value.mpr small⟩

theorem hit_sized (s : GidScan) (g : Group) (groups : Stream) (sized : s.Sized)
    (fits : g.name.text.length < 64 ∧ g.pass.text.length < 512 ∧ g.gid.text.length < 5) : (s.hit g groups).Sized :=
  ⟨(stored_length _ _ (sized.gname ▸ fits.1)).trans sized.gname,
    (stored_length _ _ (sized.gpass ▸ fits.2.1)).trans sized.gpass,
    (stored_length _ _ (sized.gid ▸ fits.2.2)).trans sized.gid⟩

-- By induction on the lines in front of the hit, or on all of them.
theorem gid_from_start (str : Arg) (s : GidScan) (ended : Bool) (groups : List Group) (sized : s.Sized)
    (start : s.groups = ⟨groupLines ended groups, false⟩) (fresh : s.found = false)
    (distinct : (groups.map fun g => g.name.text).Nodup) :
    (∃ gid, gidFrom str s = .ok gid ∧ GidAnswers groups str.text gid) ↔ GidReads ended str.text groups := by
  have none : s.answer = -1 := by rw [GidScan.answer, fresh]; rfl
  induction groups generalizing s with
  | nil =>
      constructor
      · rintro ⟨gid, done, -, missing⟩ empty
        have zero := gid_from_empty str s ended false [] sized start (by simp) (by simp [Settles, empty]) gid done
        rw [missing (by simp)] at zero
        cases zero
      · intro some
        have done := gid_from_misses str s ended false [] sized start (by simp) (by simp) (.inl some) s.answer
        exact ⟨s.answer, done.mpr ⟨by simp, rfl⟩, by simp, fun _ => none⟩
  | cons g rest ih =>
      rw [List.map_cons, List.nodup_cons] at distinct
      by_cases same : g.name.text = str.text
      · have others : ∀ other ∈ rest, other.name.text ≠ str.text := fun other member hit =>
          distinct.1 (List.mem_map.mpr ⟨other, member, hit.trans same.symm⟩)
        simp only [gid_from_hit str s ended g rest sized start same, answers_hit g rest str.text _ same others, GidReads,
          if_pos same, and_assoc, exists_and_left]
        refine and_congr_right fun named => and_congr_right fun pass => and_congr_right fun narrow => ?_
        exact gid_behind_hit str _ ended g rest (hit_sized s g _ sized ⟨same ▸ named, pass, narrow⟩) rfl (hit_answer s g _)
          same others
      · simp only [gid_from_line str s ended g rest sized start same, answers_behind g rest str.text _ same, GidReads,
          if_neg same, and_assoc, exists_and_left]
        refine and_congr_right fun fits => ?_
        by_cases last : rest = [] ∧ ended = false
        · have done := gid_from_ended str (s.passed ⟨groupLines ended rest, decide (rest = [] ∧ ended = false)⟩ g.name.text
            g.behind) (by simp [GidScan.passed, last])
          refine ⟨fun _ => .inl last, fun _ => ⟨_, done, ?_⟩⟩
          rw [last.1]
          exact ⟨by simp, fun _ => none⟩
        · rw [decide_eq_false last, or_iff_right last]
          exact ih _ (passed_sized s _ _ _ sized fits) rfl fresh distinct.2 none

theorem gid_start_sized (junk : GidJunk) (groups : Bytes) : (gidStart junk groups).Sized := by
  constructor <;> simp [gidStart]

theorem get_gid_right_iff (junk : GidJunk) (file : GroupFile) (str : Arg) :
    GidRight junk file str ↔ GidReads file.ended str.text file.groups :=
  gid_from_start str (gidStart junk file.bytes) file.ended file.groups (gid_start_sized junk file.bytes) rfl rfl file.distinct

def fieldOf (text : Bytes) (all : (text.all fun byte => byte != 58 && byte != 10 && byte != 0) = true) : Field :=
  ⟨text, plain_text text all⟩

-- u:x:5:u
def ownMember : Group where
  name := fieldOf [117] rfl
  pass := fieldOf [120] rfl
  gid := fieldOf [53] rfl
  members := fieldOf [117] rfl
  named := by decide
  digits := by simp [fieldOf]
  short := by decide

theorem get_gid_own_member : ¬GidRight ⟨fun _ => 0, fun _ => 0, fun _ => 0⟩ ⟨[ownMember], false, by simp⟩ ⟨[117], by decide⟩ := by
  rw [get_gid_right_iff]
  simp [GidReads, FitsBehind, ownMember, fieldOf, decimal]

end Yaup.Busybox
