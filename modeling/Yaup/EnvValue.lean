import Yaup.ShellEnv
import Yaup.Useradd
import Yaup.Lib.Cells

set_option autoImplicit false

namespace Yaup.Shell

open Lib

-- strcat on a block: the bytes go over the block's NUL and behind it.
def strcat (block text : Bytes) : Except Undefined Bytes :=
  let length := (block.takeWhile fun byte => byte ≠ 0).length
  if length + text.length < block.length then
    .ok (block.take length ++ text ++ 0 :: block.drop (length + text.length + 1))
  else .error .outside

def valueLoop (value : Bytes) : List Bytes → Except Undefined Bytes
  | [] => .ok value
  | word :: argv => do
      let value ← strcat value word
      let value ← strcat value [32]
      valueLoop value argv

-- strncpy to a block of n bytes: it fills up with NULs.
def strncpy (n : Nat) (text : Bytes) : Bytes := text.take n ++ List.replicate (n - text.length) 0

structure Stored where
  slot : Fin maxEnv
  value : Bytes
  name : Option Bytes

-- env_set with its blocks; junk is what malloc finds in the one of the value.
def envSetBlocks (junk : Nat → UInt8) (s : State) : List Bytes → Except Undefined (Int × Option Stored)
  | name :: first :: more => do
      let value ← valueLoop (malloc junk valueSz) (first :: more)
      match envSlot s name with
      | none => return (e2big, none)
      | some i =>
          return (0, some ⟨i, value, if s.envpName i = none then some (strncpy nameSz name) else none⟩)
  | _ => return (einval, none)

def joined (words : List Bytes) : Bytes := List.intercalate [32] words

def EnvValueRight (junk : Nat → UInt8) (s : State) (name : Arg) (words : List Arg) : Prop :=
  ∃ stored, envSetBlocks junk s (name.text :: words.map Arg.text) = .ok (0, some stored) ∧
    Holds stored.value (joined (words.map Arg.text)) ∧ ∀ block ∈ stored.name, 0 ∈ block

theorem holds_split (block text : Bytes) (plain : 0 ∉ text) (holds : Holds block text) :
    (block.takeWhile fun byte => byte ≠ 0) = text := by
  obtain ⟨after, rfl⟩ := holds
  exact take_while_until text after 0 plain

theorem holds_unique (block text other : Bytes) (plain : 0 ∉ text) (otherPlain : 0 ∉ other) (holds : Holds block text)
    (otherHolds : Holds block other) : text = other :=
  (holds_split block text plain holds).symm.trans (holds_split block other otherPlain otherHolds)

theorem strcat_fits (block text word : Bytes) (plain : 0 ∉ text) (holds : Holds block text)
    (room : (text ++ word).length < block.length) :
    ∃ after, strcat block word = .ok after ∧ Holds after (text ++ word) ∧ after.length = block.length := by
  have front := holds_split block text plain holds
  obtain ⟨behind, rfl⟩ := holds
  rw [List.length_append] at room
  rw [strcat, front, if_pos room, List.take_left]
  refine ⟨_, rfl, holds_text _ _, ?_⟩
  simp only [List.length_append, List.length_cons, List.length_drop] at room ⊢
  omega

theorem strcat_outside (block text word : Bytes) (front : (block.takeWhile fun byte => byte ≠ 0) = text)
    (long : block.length ≤ (text ++ word).length) : strcat block word = .error .outside := by
  rw [List.length_append] at long
  rw [strcat, front, if_neg (Nat.not_lt.mpr long)]

theorem value_text_plain (words : List Bytes) (plain : ∀ word ∈ words, 0 ∉ word) : 0 ∉ valueText words := by
  intro member
  obtain ⟨word, inside, nul⟩ := List.mem_flatMap.mp member
  rcases List.mem_append.mp nul with text | blank
  · exact plain word inside text
  · simp at blank

-- By induction on the words, with `text` in the block so far.
theorem value_loop_fits (block text : Bytes) (words : List Bytes) (plain : 0 ∉ text) (words_plain : ∀ word ∈ words, 0 ∉ word)
    (holds : Holds block text) (room : (text ++ valueText words).length < block.length) :
    ∃ after, valueLoop block words = .ok after ∧ Holds after (text ++ valueText words) := by
  induction words generalizing block text with
  | nil => exact ⟨block, rfl, by simpa [valueText] using holds⟩
  | cons word more ih =>
      have parts : text ++ valueText (word :: more) = (text ++ word ++ [32]) ++ valueText more := by simp [valueText]
      rw [parts] at room ⊢
      have long := List.length_append ▸ room
      have first_plain : 0 ∉ word := words_plain word List.mem_cons_self
      have text_plain : 0 ∉ text ++ word := by simpa [plain] using first_plain
      obtain ⟨once, first, holds, length⟩ := strcat_fits block text word plain holds (by simp at long ⊢; omega)
      obtain ⟨twice, second, holds, same⟩ := strcat_fits once (text ++ word) [32] text_plain holds
        (by simp at long ⊢; omega)
      obtain ⟨after, rest, held⟩ := ih twice _ (by simpa [plain] using first_plain)
        (fun other member => words_plain other (List.mem_cons_of_mem _ member)) holds (by omega)
      refine ⟨after, ?_, held⟩
      rw [valueLoop, first]
      simp only [bind, Except.bind, second]
      exact rest

theorem holds_or_full (block : Bytes) :
    Holds block (block.takeWhile fun byte => byte ≠ 0) ∨ (block.takeWhile fun byte => byte ≠ 0) = block := by
  by_cases ended : 0 ∈ block
  · obtain ⟨text, after, whole, plain⟩ := List.eq_append_cons_of_mem ended
    have holds : Holds block text := ⟨after, whole⟩
    rw [holds_split block text plain holds]
    exact .inl holds
  · exact .inr (take_while_whole block 0 ended)

theorem bind_outside {α β : Type} (x : Except Undefined α) (f : α → Except Undefined β) (halted : x = .error .outside) :
    (x >>= f) = .error .outside := by
  rw [halted]
  rfl

theorem value_loop_outside (block text : Bytes) (words : List Bytes) (some : words ≠ []) (words_plain : ∀ word ∈ words, 0 ∉ word)
    (front : (block.takeWhile fun byte => byte ≠ 0) = text) (long : block.length ≤ (text ++ valueText words).length) :
    valueLoop block words = .error .outside := by
  induction words generalizing block text with
  | nil => exact absurd rfl some
  | cons word more ih =>
      have parts : text ++ valueText (word :: more) = (text ++ word ++ [32]) ++ valueText more := by simp [valueText]
      rw [parts] at long
      rw [valueLoop]
      by_cases first_long : block.length ≤ (text ++ word).length
      · exact bind_outside _ _ (strcat_outside block text word front first_long)
      · have holds : Holds block text := by
          rcases holds_or_full block with holds | full
          · exact front ▸ holds
          · rw [full] at front
            subst front
            exact absurd (by simp) first_long
        have plain : 0 ∉ text := front ▸ take_while_plain block 0
        have first_plain : 0 ∉ word := words_plain word List.mem_cons_self
        have text_plain : 0 ∉ text ++ word := by simpa [plain] using first_plain
        obtain ⟨once, first, holds, length⟩ := strcat_fits block text word plain holds (Nat.not_le.mp first_long)
        rw [first]
        show (strcat once [32] >>= fun value => valueLoop value more) = .error .outside
        by_cases second_long : block.length ≤ (text ++ word ++ [32]).length
        · exact bind_outside _ _ (strcat_outside once _ [32] (holds_split once _ text_plain holds) (length.symm ▸ second_long))
        · obtain ⟨twice, second, holds, same⟩ := strcat_fits once _ [32] text_plain holds
            (length.symm ▸ Nat.not_le.mp second_long)
          rw [second]
          have next_plain : 0 ∉ text ++ word ++ [32] := by simpa [plain] using first_plain
          have again : more ≠ [] := by
            rintro rfl
            rw [valueText, List.flatMap_nil, List.append_nil] at long
            exact second_long long
          exact ih twice _ again (fun other member => words_plain other (List.mem_cons_of_mem _ member))
            (holds_split twice _ next_plain holds) (same.trans length ▸ long)

def Stored.apply (host : Host) (s : State) (name : Bytes) (stored : Stored) : State :=
  let text := stored.value.takeWhile fun byte => byte ≠ 0
  match stored.name with
  | none => s.setValue stored.slot (some text)
  | some _ => (s.setName stored.slot (some (nameText host name))).setValue stored.slot (some text)

theorem env_set_blocks (host : Host) (junk : Nat → UInt8) (s : State) (name first : Bytes) (more : List Bytes)
    (plain : ∀ word ∈ first :: more, 0 ∉ word)
    (found : ((malloc junk valueSz).takeWhile fun byte => byte ≠ 0) = host.junk) :
    (envSet host (name :: first :: more)).run s =
      match envSetBlocks junk s (name :: first :: more) with
      | .error _ => .error .fault s
      | .ok (status, none) => .ok status s
      | .ok (status, some stored) => .ok status (stored.apply host s name) := by
  have size : (malloc junk valueSz).length = valueSz := malloc_length junk valueSz
  have junk_plain : 0 ∉ host.junk := found ▸ take_while_plain _ 0
  by_cases long : valueSz ≤ (host.junk ++ valueText (first :: more)).length
  · have outside := value_loop_outside (malloc junk valueSz) host.junk (first :: more) (by simp) plain found (size.symm ▸ long)
    rw [env_set_long host name first more s long, envSetBlocks, outside]
    rfl
  · have room := Nat.not_le.mp long
    have holds : Holds (malloc junk valueSz) host.junk := by
      rcases holds_or_full (malloc junk valueSz) with holds | full
      · exact found ▸ holds
      · rw [full] at found
        rw [← found, List.length_append, size] at room
        omega
    obtain ⟨value, built, held⟩ := value_loop_fits _ _ (first :: more) junk_plain plain holds (size.symm ▸ room)
    have text_plain : 0 ∉ host.junk ++ valueText (first :: more) := by
      simpa [junk_plain] using value_text_plain (first :: more) plain
    have text := holds_split value _ text_plain held
    simp only [ne_eq, decide_not] at text
    rw [envSetBlocks, built]
    cases stop : envSlot s name with
    | none => exact env_set_full host name first more s room stop
    | some i =>
        rcases ((env_slot_some s name i).mp stop).1 with hole | here
        · rw [env_set_hole host name first more s i room stop hole]
          simp [bind, Except.bind, pure, Except.pure, hole, Stored.apply, text]
        · rw [env_set_found host name first more s i room stop here]
          simp [bind, Except.bind, pure, Except.pure, here, Stored.apply, text]

theorem joined_next (first next : Bytes) (more : List Bytes) :
    joined (first :: next :: more) = first ++ 32 :: joined (next :: more) := by
  simp [joined, List.intercalate]

theorem joined_plain (words : List Bytes) (plain : ∀ word ∈ words, 0 ∉ word) : 0 ∉ joined words := by
  cases words with
  | nil => simp [joined]
  | cons first more =>
      induction more generalizing first with
      | nil => simpa [joined] using plain
      | cons next more ih =>
          have deeper := ih next fun word member => plain word (List.mem_cons_of_mem _ member)
          rw [joined_next]
          simpa [deeper] using plain first List.mem_cons_self

theorem joined_shorter (first : Bytes) (more : List Bytes) :
    (joined (first :: more)).length < (valueText (first :: more)).length := by
  induction more generalizing first with
  | nil => simp [joined, valueText]
  | cons next more ih =>
      have deeper := ih next
      rw [joined_next]
      simp only [valueText, List.flatMap_cons, List.length_append, List.length_cons] at deeper ⊢
      omega

theorem env_set_value (junk : Nat → UInt8) (s : State) (name first : Bytes) (more : List Bytes) (status : Int) (stored : Stored)
    (plain : ∀ word ∈ first :: more, 0 ∉ word)
    (done : envSetBlocks junk s (name :: first :: more) = .ok (status, some stored)) :
    Holds stored.value (((malloc junk valueSz).takeWhile fun byte => byte ≠ 0) ++ valueText (first :: more)) := by
  obtain ⟨value, built, done⟩ := (except_bind_ok _ _ _).mp done
  have kept : stored.value = value := by
    cases stop : envSlot s name with
    | none =>
        rw [stop] at done
        cases done
    | some i =>
        rw [stop] at done
        cases done
        rfl
  rw [kept]
  by_cases room : (((malloc junk valueSz).takeWhile fun byte => byte ≠ 0) ++ valueText (first :: more)).length <
      (malloc junk valueSz).length
  · rcases holds_or_full (malloc junk valueSz) with holds | full
    · obtain ⟨after, again, held⟩ := value_loop_fits _ _ (first :: more) (take_while_plain _ 0) plain holds room
      rw [built] at again
      cases again
      exact held
    · rw [full, List.length_append] at room
      omega
  · rw [value_loop_outside _ _ (first :: more) (by simp) plain rfl (Nat.not_lt.mp room)] at built
    cases built

theorem strncpy_length (n : Nat) (text : Bytes) : (strncpy n text).length = n := by
  simp only [strncpy, List.length_append, List.length_take, List.length_replicate]
  omega

theorem strncpy_ends (n : Nat) (text : Bytes) (plain : 0 ∉ text) : 0 ∈ strncpy n text ↔ text.length < n := by
  have front : 0 ∉ text.take n := fun member => plain (List.mem_of_mem_take member)
  rw [strncpy, List.mem_append, or_iff_right front, List.mem_replicate, and_iff_left rfl]
  omega

theorem env_set_never (junk : Nat → UInt8) (s : State) (name : Arg) (words : List Arg) : ¬EnvValueRight junk s name words := by
  rintro ⟨stored, done, holds, -⟩
  cases words with
  | nil => cases done
  | cons first more =>
      have plain : ∀ word ∈ (first :: more).map Arg.text, 0 ∉ word := by
        intro word member
        obtain ⟨arg, -, rfl⟩ := List.mem_map.mp member
        exact arg.plain
      have value := env_set_value junk s name.text first.text (more.map Arg.text) 0 stored plain done
      have shorter := joined_shorter first.text (more.map Arg.text)
      have text_plain : 0 ∉ ((malloc junk valueSz).takeWhile fun byte => byte ≠ 0) ++
          valueText (first.text :: more.map Arg.text) := by
        rw [List.mem_append, not_or]
        exact ⟨take_while_plain _ 0, value_text_plain _ plain⟩
      have same := congrArg List.length (holds_unique _ _ _ (joined_plain _ plain) text_plain holds value)
      rw [List.length_append] at same
      simp only [List.map_cons] at same
      omega

-- env -s X x, with a block that is all NUL: the value is "x ".
theorem env_set_blank_behind : ¬EnvValueRight (fun _ => 0) bareEnv ⟨[88], by decide⟩ [⟨[120], by decide⟩] :=
  env_set_never _ _ _ _

end Yaup.Shell
