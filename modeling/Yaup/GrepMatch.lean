import Yaup.Grep
import Yaup.Lib.Matching

set_option autoImplicit false

namespace Yaup.Busybox

open Lib

def printed (turns : List GrepTurn) : List Bytes := (turns.filter GrepTurn.printed).map GrepTurn.text

def GrepPrints (pattern contents : Bytes) : Prop :=
  ∀ (junk : Nat → UInt8) (found : Bool), ∃ n turns, grep pattern junk found contents n = .ok turns ∧
    printed turns = (lines contents).filter fun line => pattern <:+: line

-- `last` is whether the line read before has the pattern, and true in front of the first.
structure LineRight (pattern : Bytes) (last : Bool) (line text : Bytes) : Prop where
  found : pattern <:+: line → text = line ∧ Found pattern line
  other : ¬pattern <:+: line → (text = [] → last = false) ∧
    ∀ rest ∈ attempts pattern text, rest ≠ [] → ¬rest <+: pattern

def ReadsRight (pattern : Bytes) : Bool → List (Bytes × Option Bytes) → Prop
  | _, [] => True
  | last, (line, none) :: later => ¬pattern <:+: line ∧ ReadsRight pattern last later
  | last, (line, some text) :: later =>
      LineRight pattern last line (shown text) ∧ ReadsRight pattern (decide (pattern <:+: line)) later

def PrintsGuard (pattern contents : Bytes) : Prop := ReadsRight pattern true (grepReads (lines contents))

-- By induction on what is left of the text: the letters of pattern in front of place j are
-- what the attempt has matched so far.
theorem match_loop_attempts (pattern text : Bytes) (j : Nat) (found : Bool) (inside : j < pattern.length)
    (plain : 0 ∉ text) (held : j ≠ 0 → found = true) :
    matchLoop pattern (text ++ [0]) j found =
      some (if j = 0 ∧ text = [] then found else decide (Found pattern (pattern.take j ++ text))) := by
  induction text generalizing j found with
  | nil =>
      by_cases begun : j = 0
      · subst begun
        rfl
      · have matched : pattern.take j ≠ [] := List.ne_nil_of_length_pos (by rw [List.length_take]; omega)
        have meets := found_first pattern (pattern.take j) (.inr ⟨matched, List.take_prefix j pattern⟩)
        rw [if_neg fun both => begun both.1, List.append_nil, decide_eq_true meets, held begun]
        rfl
  | cons c text ih =>
      have nul : c ≠ 0 := fun same => plain (same ▸ List.mem_cons_self)
      have clear := List.not_mem_of_not_mem_cons plain
      have more : ¬(j = 0 ∧ c :: text = []) := fun both => List.cons_ne_nil c text both.2
      have entry : (pattern ++ [0])[j]? = some pattern[j] := by
        rw [List.getElem?_append_left inside, List.getElem?_eq_getElem inside]
      rw [List.cons_append, matchLoop, if_neg nul, entry, if_neg more]
      dsimp only
      by_cases apart : c ≠ pattern[j]
      · have again : decide (Found pattern (pattern.take j ++ c :: text)) = decide (Found pattern text) :=
          decide_eq_decide.mpr (found_stopped pattern text j c inside apart)
        rw [if_pos apart, again, ih 0 false (Nat.zero_lt_of_lt inside) clear fun zero => absurd rfl zero]
        by_cases last : text = []
        · subst last
          rw [if_pos ⟨rfl, rfl⟩, decide_eq_false (found_none pattern (List.ne_nil_of_length_pos (Nat.zero_lt_of_lt inside)))]
        · rw [if_neg fun both => last both.2, List.take_zero, List.nil_append]
      · have grown : pattern.take j ++ c :: text = pattern.take (j + 1) ++ text := by
          rw [not_not.mp apart, List.take_succ_eq_append_getElem inside, List.append_assoc]
          rfl
        rw [if_neg apart, grown]
        by_cases full : j + 1 ≥ pattern.length
        · have meets : Found pattern (pattern.take (j + 1) ++ text) := by
            rw [List.take_of_length_le full]
            exact found_first pattern _ (.inl (List.prefix_append pattern text))
          rw [if_pos full, decide_eq_true meets]
        · have begun : ¬(j + 1 = 0 ∧ text = []) := fun both => Nat.succ_ne_zero j both.1
          rw [if_neg full, ih (j + 1) true (Nat.not_le.mp full) clear fun _ => rfl, if_neg begun]

theorem verdict_found (pattern text : Bytes) (found : Bool) (some : pattern ≠ []) (begun : text ≠ []) (plain : 0 ∉ text) :
    verdict pattern text found = decide (Found pattern text) := by
  have loop := match_loop_attempts pattern text 0 found (List.length_pos_iff.mpr some) plain fun zero => absurd rfl zero
  rw [if_neg fun both => begun both.2, List.take_zero, List.nil_append] at loop
  rw [verdict, loop, Option.getD_some]

theorem verdict_none (pattern : Bytes) (found : Bool) : verdict pattern [] found = found := rfl

theorem verdict_lacks (pattern text : Bytes) (last : Bool) (some : pattern ≠ []) (plain : 0 ∉ text)
    (lacks : ¬pattern <:+: text) :
    verdict pattern text last = false ↔
      (text = [] → last = false) ∧ ∀ rest ∈ attempts pattern text, rest ≠ [] → ¬rest <+: pattern := by
  by_cases empty : text = []
  · subst empty
    rw [verdict_none, attempts_none]
    constructor
    · exact fun before => ⟨fun _ => before, fun rest member begun => absurd (List.mem_singleton.mp member) begun⟩
    · exact fun right => right.1 rfl
  · rw [verdict_found pattern text last some empty plain, decide_eq_false_iff_not, found_open pattern text lacks]
    constructor
    · exact fun never => ⟨fun none => absurd none empty, fun rest member begun ends => never ⟨rest, member, begun, ends⟩⟩
    · rintro ⟨-, never⟩ ⟨rest, member, begun, ends⟩
      exact never rest member begun ends

theorem line_right_iff (pattern line text : Bytes) (last : Bool) (some : pattern ≠ []) (within : text <:+: line)
    (plain : 0 ∉ text) :
    (if verdict pattern text last then Option.some text else none) =
        (if pattern <:+: line then Option.some line else none) ↔ LineRight pattern last line text := by
  by_cases has : pattern <:+: line
  · have begun : line ≠ [] := has.ne_nil some
    rw [if_pos has]
    constructor
    · intro same
      split at same
      · rename_i yes
        cases same
        rw [verdict_found pattern line last some begun plain, decide_eq_true_iff] at yes
        exact ⟨fun _ => ⟨rfl, yes⟩, fun lacks => absurd has lacks⟩
      · cases same
    · intro right
      obtain ⟨rfl, found⟩ := right.found has
      rw [verdict_found pattern text last some begun plain, decide_eq_true found]
      rfl
  · have unfound := verdict_lacks pattern text last some plain fun inside => has (inside.trans within)
    rw [if_neg has]
    constructor
    · intro same
      split at same
      · cases same
      · rename_i no
        exact ⟨fun inside => absurd inside has, fun _ => unfound.mp (Bool.eq_false_of_not_eq_true no)⟩
    · intro right
      rw [unfound.mpr (right.other has)]
      rfl

theorem line_right_verdict (pattern line text : Bytes) (last : Bool) (some : pattern ≠ []) (within : text <:+: line)
    (plain : 0 ∉ text) (right : LineRight pattern last line text) :
    verdict pattern text last = decide (pattern <:+: line) := by
  have same := (line_right_iff pattern line text last some within plain).mpr right
  by_cases has : pattern <:+: line
  · rw [if_pos has] at same
    rw [decide_eq_true has]
    by_contra no
    rw [if_neg no] at same
    cases same
  · rw [if_neg has] at same
    rw [decide_eq_false has]
    by_contra yes
    rw [if_pos (Bool.eq_true_of_not_eq_false yes)] at same
    cases same

theorem line_right_known (pattern line text : Bytes) (last : Bool) (right : LineRight pattern true line text) :
    LineRight pattern last line text where
  found := right.found
  other := fun lacks => ⟨fun empty => Bool.noConfusion ((right.other lacks).1 empty), (right.other lacks).2⟩

def outputs (pattern : Bytes) : Bool → List (Bytes × Option Bytes) → List (Bytes × Option Bytes)
  | _, [] => []
  | found, (line, none) :: later => (line, none) :: outputs pattern found later
  | found, (line, some text) :: later =>
      let found := verdict pattern (shown text) found
      (line, if found then some (shown text) else none) :: outputs pattern found later

theorem outputs_printed (pattern : Bytes) (found : Bool) (reads : List (Bytes × Option Bytes)) :
    (outputs pattern found reads).filterMap Prod.snd = printed (turnsOver pattern found (reads.filterMap Prod.snd)) := by
  induction reads generalizing found with
  | nil => rfl
  | cons read reads ih =>
      obtain ⟨line, text⟩ := read
      cases text with
      | none => exact ih found
      | some text =>
          have behind := ih (verdict pattern (shown text) found)
          have texts : ((line, some text) :: reads).filterMap Prod.snd = text :: reads.filterMap Prod.snd := rfl
          rw [outputs, texts, turnsOver]
          cases answer : verdict pattern (shown text) found with
          | false =>
              rw [answer] at behind
              exact behind
          | true =>
              rw [answer] at behind
              exact congrArg (shown text :: ·) behind

theorem outputs_lines (pattern : Bytes) (found : Bool) (reads : List (Bytes × Option Bytes)) :
    (outputs pattern found reads).map Prod.fst = reads.map Prod.fst := by
  induction reads generalizing found with
  | nil => rfl
  | cons read reads ih =>
      obtain ⟨line, text⟩ := read
      cases text with
      | none => exact congrArg (line :: ·) (ih found)
      | some text => exact congrArg (line :: ·) (ih _)

theorem shown_within (line text : Bytes) (within : text <:+ line) : shown text <:+: line :=
  (List.takeWhile_prefix _).isInfix.trans within.isInfix

theorem outputs_within (pattern : Bytes) (found : Bool) (reads : List (Bytes × Option Bytes)) (line text : Bytes)
    (within : ∀ line text, (line, some text) ∈ reads → text <:+ line)
    (member : (line, some text) ∈ outputs pattern found reads) : text <:+: line := by
  induction reads generalizing found with
  | nil => cases member
  | cons read reads ih =>
      obtain ⟨other, read⟩ := read
      have behind := fun found => ih found fun line text inside => within line text (List.mem_cons_of_mem _ inside)
      cases read with
      | none =>
          rcases List.mem_cons.mp member with same | later
          · cases same
          · exact behind found later
      | some read =>
          rcases List.mem_cons.mp member with same | later
          · split at same
            · cases same
              exact shown_within line read (within line read List.mem_cons_self)
            · cases same
          · exact behind _ later

-- By induction on what is read: where the lines so far came out as they should, match says
-- whether the line before has the pattern.
theorem outputs_right (pattern : Bytes) (last : Bool) (reads : List (Bytes × Option Bytes)) (some : pattern ≠ [])
    (within : ∀ line text, (line, Option.some text) ∈ reads → text <:+ line) :
    (∀ line output, (line, output) ∈ outputs pattern last reads →
        output = if pattern <:+: line then Option.some line else none) ↔ ReadsRight pattern last reads := by
  induction reads generalizing last with
  | nil => exact ⟨fun _ => trivial, fun _ line output member => by cases member⟩
  | cons read reads ih =>
      obtain ⟨line, text⟩ := read
      have behind := fun last => ih last fun line text inside => within line text (List.mem_cons_of_mem _ inside)
      cases text with
      | none =>
          constructor
          · intro each
            have here := each line none List.mem_cons_self
            refine ⟨fun has => ?_, (behind last).mp fun line output member => each line output (List.mem_cons_of_mem _ member)⟩
            rw [if_pos has] at here
            cases here
          · rintro ⟨lacks, later⟩ other output member
            rcases List.mem_cons.mp member with same | inside
            · cases same
              exact (if_neg lacks).symm
            · exact (behind last).mpr later other output inside
      | some text =>
          have infixed := shown_within line text (within line text List.mem_cons_self)
          have plain := take_while_plain text 0
          have right := line_right_iff pattern line (shown text) last some infixed plain
          constructor
          · intro each
            have here := right.mp (each line _ List.mem_cons_self)
            have known := line_right_verdict pattern line (shown text) last some infixed plain here
            refine ⟨here, known ▸ (behind _).mp fun other output member => each other output (List.mem_cons_of_mem _ member)⟩
          · rintro ⟨here, later⟩ other output member
            have known := line_right_verdict pattern line (shown text) last some infixed plain here
            rcases List.mem_cons.mp member with same | inside
            · cases same
              exact right.mpr here
            · rw [known] at inside
              exact (behind _).mpr later other output inside

theorem printed_right (pattern : Bytes) (found : Bool) (lines : List Bytes) (some : pattern ≠ []) :
    printed (turnsOver pattern found (readTexts lines)) = lines.filter (fun line => pattern <:+: line) ↔
      ReadsRight pattern found (grepReads lines) := by
  have within := reads_suffix lines
  have aligned := outputs_aligned (fun line => pattern <:+: line) (outputs pattern found (grepReads lines))
    fun line text member has => has.trans (outputs_within pattern found _ line text within member)
  rw [outputs_printed, outputs_lines, reads_lines] at aligned
  exact aligned.trans (outputs_right pattern found _ some within)

theorem empty_prints_junk (pattern : Bytes) (n : Nat) (turns : List GrepTurn)
    (done : grep pattern (fun _ => 0) true [] n = .ok turns) : printed turns = [[]] := by
  obtain ⟨answer, tested, rfl⟩ := grep_loop_empty pattern n _ true turns done
  have block : malloc (fun _ => 0) 512 = [] ++ 0 :: malloc (fun _ => 0) 511 := malloc_cons _ 511
  rw [block, test_line_verdict] at tested
  cases tested
  rw [block]
  rfl

theorem grep_prints_iff (pattern contents : Bytes) (some : pattern ≠ [])
    (short : ∀ line ∈ lines contents, line.length < 512) : GrepPrints pattern contents ↔ PrintsGuard pattern contents := by
  obtain ⟨first, later, whole, starts⟩ := lines_start contents
  rw [PrintsGuard, whole]
  by_cases begun : first = []
  · subst begun
    have lacks : ¬pattern <:+: [] := fun inside => some (List.infix_nil.mp inside)
    constructor
    · intro prints
      obtain ⟨n, turns, done, out⟩ := prints (fun _ => 0) true
      rcases starts rfl with rfl | ⟨rest, rfl⟩
      · rw [empty_prints_junk pattern n turns done, lines_last [] List.not_mem_nil,
          List.filter_cons_of_neg (by simpa using lacks)] at out
        cases out
      · exact absurd done (grep_loop_stuck pattern rest n _ true turns)
    · exact fun guard => by cases (guard.1.other lacks).1 rfl
  · have runs := fun junk found n turns => grep_contents pattern junk found contents first later n turns whole begun
    constructor
    · intro prints
      obtain ⟨n, turns, done, out⟩ := prints (fun _ => 0) true
      obtain ⟨-, -, rfl⟩ := (runs _ _ n turns).mp done
      rw [whole] at out
      exact (printed_right pattern true (first :: later) some).mp out
    · intro guard junk found
      rw [whole] at short
      refine ⟨_, _, (runs junk found _ _).mpr ⟨Nat.lt_succ_self _, read_texts_short _ 512 short, rfl⟩, ?_⟩
      rw [whole, printed_right pattern found (first :: later) some]
      exact ⟨line_right_known pattern first _ found guard.1, guard.2⟩

-- "ab" in the lines "xab" and "cd".
theorem grep_prints_one_of_two : GrepPrints [97, 98] [120, 97, 98, 10, 99, 100] := by
  have found : Found [97, 98] ([120, 97, 98] : Bytes) :=
    (found_stopped [97, 98] [97, 98] 0 120 (by decide) (by decide)).mpr (found_first _ _ (.inl List.prefix_rfl))
  have tried : attempts [97, 98] ([99, 100] : Bytes) = [[99, 100], [100], []] :=
    (attempts_stopped [] [98] [100] 97 99 (by decide)).trans (congrArg (_ :: ·)
      ((attempts_stopped [] [98] [] 97 100 (by decide)).trans (congrArg (_ :: ·) (attempts_none _))))
  refine (grep_prints_iff [97, 98] _ (by decide) (by decide)).mpr ⟨⟨fun _ => ⟨by decide, found⟩, fun lacks => ?_⟩, ?_, trivial⟩
  · exact absurd (by decide) lacks
  · refine ⟨fun has => absurd has (by decide), fun _ => ⟨by decide, fun rest member => ?_⟩⟩
    have none : ∀ rest ∈ ([[99, 100], [100], []] : List Bytes), rest ≠ [] → ¬rest <+: [97, 98] := by decide
    exact none rest (tried ▸ member)

-- The line "a", for the pattern "ab".
theorem grep_prints_half : ¬∀ pattern contents : Bytes, pattern ≠ [] → 10 ∉ pattern →
    (∀ line ∈ lines contents, line.length < 512) → GrepPrints pattern contents := by
  intro claim
  have short : ∀ line ∈ lines [97], line.length < 512 := by decide
  have guard := (grep_prints_iff [97, 98] [97] (by decide) short).mp (claim [97, 98] [97] (by decide) (by decide) short)
  exact (guard.1.other (by decide)).2 [97] (attempts_first _ _) (by decide) (by decide)

end Yaup.Busybox
