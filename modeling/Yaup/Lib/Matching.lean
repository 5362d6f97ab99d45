import Yaup.Lib.Lists

set_option autoImplicit false

namespace Yaup.Lib

variable {α : Type} [DecidableEq α]

-- The places of a text at which a search begins that starts over behind the letter it stops at.
def attempts (pattern text : List α) : List (List α) :=
  let common := commonPrefix pattern text
  if common.length < pattern.length ∧ common.length < text.length then
    text :: attempts pattern (text.drop (common.length + 1))
  else [text]
termination_by text.length
decreasing_by
  rename_i stopped
  rw [List.length_drop]
  omega

-- An attempt comes to the end of the pattern, or with some of it to the end of the text.
def Meets (pattern rest : List α) : Prop := pattern <+: rest ∨ (rest ≠ [] ∧ rest <+: pattern)

instance (pattern rest : List α) : Decidable (Meets pattern rest) :=
  inferInstanceAs (Decidable (pattern <+: rest ∨ (rest ≠ [] ∧ rest <+: pattern)))

theorem attempts_first (pattern text : List α) : text ∈ attempts pattern text := by
  rw [attempts]
  split
  · exact List.mem_cons_self
  · exact List.mem_singleton_self text

theorem attempts_suffix (pattern text rest : List α) (member : rest ∈ attempts pattern text) : rest <:+ text := by
  rw [attempts] at member
  split at member
  · rcases List.mem_cons.mp member with rfl | later
    · exact List.suffix_rfl
    · exact (attempts_suffix pattern _ rest later).trans (List.drop_suffix _ text)
  · rw [List.mem_singleton.mp member]
termination_by text.length
decreasing_by
  rename_i _stopped _
  rw [List.length_drop]
  omega

theorem attempts_none (pattern : List α) : attempts pattern [] = [[]] := by
  rw [attempts]
  exact if_neg fun stopped => Nat.not_lt_zero _ stopped.2

theorem attempts_stopped (start pattern text : List α) (a b : α) (apart : a ≠ b) :
    attempts (start ++ a :: pattern) (start ++ b :: text) =
      (start ++ b :: text) :: attempts (start ++ a :: pattern) text := by
  rw [attempts, common_prefix_stops start pattern text a b apart]
  rw [if_pos (by simp), List.drop_append, List.drop_eq_nil_of_le (Nat.le_succ _), Nat.add_sub_cancel_left]
  rfl

omit [DecidableEq α] in
theorem stopped_short (start pattern text : List α) (a b : α) (apart : a ≠ b) :
    ¬Meets (start ++ a :: pattern) (start ++ b :: text) := by
  rintro (found | ⟨-, open_end⟩)
  · exact apart (List.cons_prefix_cons.mp ((List.prefix_append_right_inj start).mp found)).1
  · exact apart (List.cons_prefix_cons.mp ((List.prefix_append_right_inj start).mp open_end)).1.symm

def Found (pattern text : List α) : Prop := ∃ rest ∈ attempts pattern text, Meets pattern rest

instance (pattern text : List α) : Decidable (Found pattern text) :=
  inferInstanceAs (Decidable (∃ rest ∈ attempts pattern text, Meets pattern rest))

theorem found_first (pattern text : List α) (meets : Meets pattern text) : Found pattern text :=
  ⟨text, attempts_first pattern text, meets⟩

theorem found_none (pattern : List α) (some : pattern ≠ []) : ¬Found pattern [] := by
  rintro ⟨rest, member, meets⟩
  rw [attempts_none] at member
  cases List.mem_singleton.mp member
  rcases meets with whole | ⟨begun, -⟩
  · exact some (List.prefix_nil.mp whole)
  · exact begun rfl

theorem found_stopped (pattern text : List α) (j : Nat) (c : α) (inside : j < pattern.length) (apart : c ≠ pattern[j]) :
    Found pattern (pattern.take j ++ c :: text) ↔ Found pattern text := by
  have parts : pattern.take j ++ pattern[j] :: pattern.drop (j + 1) = pattern := by
    rw [← List.drop_eq_getElem_cons inside, List.take_append_drop]
  have stops := attempts_stopped (pattern.take j) (pattern.drop (j + 1)) text pattern[j] c apart.symm
  have short := stopped_short (pattern.take j) (pattern.drop (j + 1)) text pattern[j] c apart.symm
  rw [parts] at stops short
  rw [Found, stops, List.exists_mem_cons_iff]
  exact or_iff_right short

theorem found_open (pattern text : List α) (lacks : ¬pattern <:+: text) :
    Found pattern text ↔ ∃ rest ∈ attempts pattern text, rest ≠ [] ∧ rest <+: pattern := by
  constructor
  · rintro ⟨rest, member, meets⟩
    rcases meets with whole | begun
    · exact absurd (whole.isInfix.trans (attempts_suffix pattern text rest member).isInfix) lacks
    · exact ⟨rest, member, begun⟩
  · rintro ⟨rest, member, begun⟩
    exact ⟨rest, member, .inr begun⟩

end Yaup.Lib
