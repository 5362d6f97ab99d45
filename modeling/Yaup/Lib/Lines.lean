import Yaup.Lib.Text

set_option autoImplicit false

namespace Yaup.Lib

-- The lines of a text without their newlines; what is behind the last newline is one more.
def lines (text : Bytes) : List Bytes := text.splitOn 10

theorem lines_last (text : Bytes) (plain : 10 ∉ text) : lines text = [text] := List.splitOn_eq_singleton plain

theorem lines_next (line rest : Bytes) (plain : 10 ∉ line) : lines (line ++ 10 :: rest) = line :: lines rest :=
  List.splitOn_append_cons_self_of_not_mem plain rest

-- Induction over a text line by line.
@[elab_as_elim]
theorem lines_induction {motive : Bytes → Prop} (last : ∀ text, 10 ∉ text → motive text)
    (next : ∀ line rest, 10 ∉ line → motive rest → motive (line ++ 10 :: rest)) (text : Bytes) : motive text := by
  by_cases member : 10 ∈ text
  · obtain ⟨line, rest, whole, plain⟩ := List.eq_append_cons_of_mem member
    have shorter : rest.length < text.length := by
      rw [whole, List.length_append, List.length_cons]
      omega
    rw [whole]
    exact next line rest plain (lines_induction last next rest)
  · exact last text member
termination_by text.length

-- The lines with their newlines, which the last one may lack.
def fullLines : Bytes → List Bytes
  | [] => []
  | c :: rest =>
      if c = 10 then [10] :: fullLines rest
      else
        match fullLines rest with
        | [] => [[c]]
        | line :: later => (c :: line) :: later

theorem full_lines_last (line : Bytes) (some : line ≠ []) (plain : 10 ∉ line) : fullLines line = [line] := by
  induction line with
  | nil => exact absurd rfl some
  | cons c line ih =>
      have other : c ≠ 10 := fun same => plain (same ▸ List.mem_cons_self)
      rw [fullLines, if_neg other]
      cases line with
      | nil => rfl
      | cons next line => rw [ih (List.cons_ne_nil next line) (List.not_mem_of_not_mem_cons plain)]

theorem full_lines_next (line rest : Bytes) (plain : 10 ∉ line) :
    fullLines (line ++ 10 :: rest) = (line ++ [10]) :: fullLines rest := by
  induction line with
  | nil => rfl
  | cons c line ih =>
      have other : c ≠ 10 := fun same => plain (same ▸ List.mem_cons_self)
      rw [List.cons_append, fullLines, if_neg other, ih (List.not_mem_of_not_mem_cons plain)]
      rfl

end Yaup.Lib
