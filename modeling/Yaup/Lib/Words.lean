import Yaup.Lib.Text

set_option autoImplicit false

namespace Yaup.Lib

-- strtok over a whole text: the pieces between separators, none of them empty. `token` is
-- the piece read so far.
def tokensFrom (separates : UInt8 → Bool) (token : Bytes) : Bytes → List Bytes
  | [] => if token = [] then [] else [token]
  | byte :: rest =>
      if separates byte then
        if token = [] then tokensFrom separates [] rest else token :: tokensFrom separates [] rest
      else tokensFrom separates (token ++ [byte]) rest

def tokens (separates : UInt8 → Bool) (text : Bytes) : List Bytes := tokensFrom separates [] text

theorem tokens_from_nil (separates : UInt8 → Bool) (token text : Bytes) :
    tokensFrom separates token text = [] ↔ token = [] ∧ ∀ byte ∈ text, separates byte = true := by
  induction text generalizing token with
  | nil => simp [tokensFrom]
  | cons byte rest ih =>
      rw [tokensFrom, List.forall_mem_cons]
      by_cases blank : separates byte = true
      · rw [if_pos blank]
        by_cases fresh : token = []
        · rw [if_pos fresh, ih]
          exact ⟨fun ⟨_, later⟩ => ⟨fresh, blank, later⟩, fun ⟨_, _, later⟩ => ⟨rfl, later⟩⟩
        · rw [if_neg fresh]
          exact iff_of_false (List.cons_ne_nil _ _) fun ⟨empty, _⟩ => fresh empty
      · rw [if_neg blank, ih]
        refine iff_of_false ?_ fun ⟨_, all, _⟩ => blank all
        rintro ⟨empty, -⟩
        exact List.append_ne_nil_of_right_ne_nil token (List.cons_ne_nil byte []) empty

theorem tokens_nil (separates : UInt8 → Bool) (text : Bytes) :
    tokens separates text = [] ↔ ∀ byte ∈ text, separates byte = true := by
  rw [tokens, tokens_from_nil]
  exact and_iff_right rfl

-- One call of strtok, on the text that the last one left: the token and the text behind the
-- separator that ends it.
def strtok (separates : UInt8 → Bool) (text : Bytes) : Option (Bytes × Bytes) :=
  match text.dropWhile separates with
  | [] => none
  | byte :: more =>
      some (byte :: more.takeWhile fun byte => !separates byte, (more.dropWhile fun byte => !separates byte).drop 1)

theorem strtok_shorter (separates : UInt8 → Bool) (text token rest : Bytes)
    (called : strtok separates text = some (token, rest)) : rest.length < text.length := by
  have whole := (List.dropWhile_sublist separates (l := text)).length_le
  rw [strtok] at called
  split at called
  · cases called
  · rename_i byte more start
    cases called
    have tail := (List.dropWhile_sublist (fun byte => !separates byte) (l := more)).length_le
    rw [start, List.length_cons] at whole
    rw [List.length_drop]
    omega

theorem tokens_from_word (separates : UInt8 → Bool) (token text : Bytes) (begun : token ≠ []) :
    tokensFrom separates token text = (token ++ text.takeWhile fun byte => !separates byte) ::
      tokens separates ((text.dropWhile fun byte => !separates byte).drop 1) := by
  induction text generalizing token with
  | nil => simp [tokensFrom, tokens, begun]
  | cons byte rest ih =>
      rw [tokensFrom]
      by_cases blank : separates byte = true
      · simp [blank, begun, tokens]
      · rw [if_neg blank, ih (token ++ [byte]) (List.append_ne_nil_of_right_ne_nil token (List.cons_ne_nil byte []))]
        simp [blank]

theorem tokens_blank (separates : UInt8 → Bool) (text : Bytes) :
    tokens separates text = tokens separates (text.dropWhile separates) := by
  induction text with
  | nil => rfl
  | cons byte rest ih =>
      by_cases blank : separates byte = true
      · rw [List.dropWhile_cons_of_pos blank, ← ih, tokens, tokensFrom, if_pos blank, if_pos rfl]
        rfl
      · rw [List.dropWhile_cons_of_neg blank]

theorem tokens_strtok (separates : UInt8 → Bool) (text : Bytes) :
    tokens separates text =
      match strtok separates text with
      | none => []
      | some (token, rest) => token :: tokens separates rest := by
  rw [tokens_blank, strtok]
  cases start : text.dropWhile separates with
  | nil => rfl
  | cons byte more =>
      have open_byte : separates byte = false := by
        have first := List.head?_dropWhile_not separates text
        rw [start] at first
        exact first
      rw [tokens, tokensFrom, if_neg (by simp [open_byte]), List.nil_append,
        tokens_from_word separates [byte] more (List.cons_ne_nil byte [])]
      rfl

theorem tokens_from_runs (separates : UInt8 → Bool) (token text run : Bytes) (runs : List Bytes)
    (pieces : text.splitOnP separates = run :: runs) :
    tokensFrom separates token text = ((token ++ run) :: runs).filter fun run => run ≠ [] := by
  induction text generalizing token run runs with
  | nil =>
      cases pieces
      by_cases fresh : token = []
      · simp [tokensFrom, fresh]
      · simp [tokensFrom, fresh]
  | cons byte rest ih =>
      obtain ⟨next, later, split⟩ := List.exists_cons_of_ne_nil (List.splitOnP_ne_nil separates rest)
      rw [List.splitOnP_cons_eq_if_modifyHead, split] at pieces
      rw [tokensFrom]
      by_cases blank : separates byte = true
      · rw [if_pos blank] at pieces
        cases pieces
        rw [if_pos blank, ih [] next later split, List.append_nil, List.nil_append]
        by_cases fresh : token = []
        · simp [fresh]
        · simp [fresh]
      · rw [if_neg blank] at pieces
        cases pieces
        rw [if_neg blank, ih (token ++ [byte]) next runs split, List.append_assoc]
        rfl

theorem tokens_runs (separates : UInt8 → Bool) (text : Bytes) :
    tokens separates text = (text.splitOnP separates).filter fun run => run ≠ [] := by
  obtain ⟨run, runs, pieces⟩ := List.exists_cons_of_ne_nil (List.splitOnP_ne_nil separates text)
  rw [pieces]
  exact tokens_from_runs separates [] text run runs pieces

end Yaup.Lib
