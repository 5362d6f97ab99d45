import Yaup.ShellEnv

set_option autoImplicit false

namespace Yaup.Shell

open Lib

def isQuote (byte : UInt8) : Bool := byte = 34 || byte = 39

def skipQuote : Bytes → Bytes
  | [] => []
  | byte :: rest => if isQuote byte then rest else byte :: rest

-- One turn of echo's loop at a cursor that is not at the terminator: the character that it
-- prints and the cursor it comes to, or none where that is behind the terminator.
def echoTurn (text : Bytes) : Option (UInt8 × Bytes) :=
  match skipQuote text with
  | [] => none
  | byte :: rest =>
      if byte = 92 then
        match rest with
        | [] => none
        | special :: rest => some (special, rest)
      else some (byte, rest)

theorem skip_quote_length (text : Bytes) : (skipQuote text).length ≤ text.length := by
  cases text with
  | nil => exact le_rfl
  | cons byte rest =>
      rw [skipQuote]
      split
      · exact Nat.le_succ _
      · exact le_rfl

theorem echo_turn_shorter (text rest : Bytes) (byte : UInt8) (turned : echoTurn text = some (byte, rest)) :
    rest.length < text.length := by
  have cursor := skip_quote_length text
  rw [echoTurn] at turned
  split at turned
  · cases turned
  · rename_i first more start
    rw [start, List.length_cons] at cursor
    split at turned
    · cases more with
      | nil => cases turned
      | cons special more =>
          cases turned
          rw [List.length_cons] at cursor
          omega
    · cases turned
      omega

def echoArg (text : Bytes) : Option Bytes :=
  if text = [] then some []
  else
    match _ : echoTurn text with
    | none => none
    | some (byte, rest) => (echoArg rest).map (byte :: ·)
termination_by text.length
decreasing_by exact echo_turn_shorter text rest byte (by assumption)

def echoWords : List Bytes → Option Bytes
  | [] => some [10]
  | arg :: argv => do
      let text ← echoArg arg
      let more ← echoWords argv
      return text ++ 32 :: more

def echoPrints : List Bytes → Sh (Int × Bytes)
  | _ :: (36 :: name) :: _ => do
      let s ← get
      match envSlot s name with
      | none => return (0, [])
      | some i =>
          if s.envpName i = none then fault
          let text ← value i
          return (0, text ++ [10])
  | _ :: arg :: argv =>
      match echoWords (arg :: argv) with
      | none => fault
      | some text => return (0, text)
  | _ => fault

-- An argument as it is written: quotes, a backslash with the character that it takes
-- literally, other characters, and a backslash that has no character behind it.
inductive Piece where
  | quote (byte : UInt8)
  | special (byte : UInt8)
  | plain (byte : UInt8)
  | bare
deriving DecidableEq

def pieces : Bytes → List Piece
  | [] => []
  | byte :: rest =>
      if byte = 92 then
        match rest with
        | [] => [.bare]
        | next :: rest => .special next :: pieces rest
      else (if isQuote byte then .quote byte else .plain byte) :: pieces rest

def Piece.said : Piece → Bytes
  | .quote _ => []
  | .special byte => [byte]
  | .plain byte => [byte]
  | .bare => []

def said (text : Bytes) : Bytes := (pieces text).flatMap Piece.said

def Piece.isQuote : Piece → Bool
  | .quote _ => true
  | _ => false

structure Tidy (ps : List Piece) : Prop where
  apart : ps.IsChain fun first second => ¬(first.isQuote = true ∧ second.isQuote = true)
  closed : ∀ last ∈ ps.getLast?, last.isQuote = false
  filled : .bare ∉ ps

instance (ps : List Piece) : Decidable (Tidy ps) :=
  decidable_of_iff (ps.IsChain (fun first second => ¬(first.isQuote = true ∧ second.isQuote = true)) ∧
      (∀ last ∈ ps.getLast?, last.isQuote = false) ∧ .bare ∉ ps)
    ⟨fun ⟨apart, closed, filled⟩ => ⟨apart, closed, filled⟩, fun tidy => ⟨tidy.apart, tidy.closed, tidy.filled⟩⟩

def echoPieces : List Piece → Option Bytes
  | [] => some []
  | .quote _ :: .quote byte :: rest => (echoPieces rest).map (byte :: ·)
  | .quote _ :: .special byte :: rest => (echoPieces rest).map (byte :: ·)
  | .quote _ :: .plain byte :: rest => (echoPieces rest).map (byte :: ·)
  | .special byte :: rest => (echoPieces rest).map (byte :: ·)
  | .plain byte :: rest => (echoPieces rest).map (byte :: ·)
  | _ => none

theorem echo_arg_turns (text rest : Bytes) (byte : UInt8) (turned : echoTurn text = some (byte, rest)) :
    echoArg text = (echoArg rest).map (byte :: ·) := by
  have some_text : text ≠ [] := by
    rintro rfl
    cases turned
  rw [echoArg, if_neg some_text]
  split
  · rename_i stuck
    cases stuck.symm.trans turned
  · rename_i found
    cases found.symm.trans turned
    rfl

theorem echo_arg_stuck (text : Bytes) (some_text : text ≠ []) (stuck : echoTurn text = none) : echoArg text = none := by
  rw [echoArg, if_neg some_text]
  split
  · rfl
  · rename_i found
    cases stuck.symm.trans found

theorem echo_turn_plain (byte : UInt8) (rest : Bytes) (plain : isQuote byte = false) (other : byte ≠ 92) :
    echoTurn (byte :: rest) = some (byte, rest) := by
  simp [echoTurn, skipQuote, plain, other]

theorem echo_turn_quote (quote : UInt8) (rest : Bytes) (quoted : isQuote quote = true) :
    echoTurn (quote :: rest) =
      match rest with
      | [] => none
      | byte :: rest => if byte = 92 then echoTurn (byte :: rest) else some (byte, rest) := by
  cases rest with
  | nil => simp [echoTurn, skipQuote, quoted]
  | cons byte rest =>
      by_cases slash : byte = 92
      · subst slash
        simp [echoTurn, skipQuote, quoted, show isQuote 92 = false by decide]
      · simp [echoTurn, skipQuote, quoted, slash]

theorem slash_no_quote (byte : UInt8) (quoted : isQuote byte = true) : byte ≠ 92 := by
  rintro rfl
  exact absurd quoted (by decide)

theorem pieces_special (next : UInt8) (rest : Bytes) : pieces (92 :: next :: rest) = .special next :: pieces rest := by
  simp [pieces]

theorem pieces_other (byte : UInt8) (rest : Bytes) (other : byte ≠ 92) :
    pieces (byte :: rest) = (if isQuote byte then .quote byte else .plain byte) :: pieces rest := by
  cases rest with
  | nil => simp [pieces, other]
  | cons next rest => simp [pieces, other]

theorem pieces_quote (byte : UInt8) (rest : Bytes) (quoted : isQuote byte = true) :
    pieces (byte :: rest) = .quote byte :: pieces rest := by
  rw [pieces_other byte rest (slash_no_quote byte quoted), if_pos quoted]

theorem pieces_plain (byte : UInt8) (rest : Bytes) (plain : isQuote byte = false) (other : byte ≠ 92) :
    pieces (byte :: rest) = .plain byte :: pieces rest := by
  rw [pieces_other byte rest other, plain]
  rfl

-- Behind a quote a turn goes on at the next character, and takes another quote for plain.
theorem echo_quote_pieces (quote : UInt8) (rest : Bytes) (quoted : isQuote quote = true)
    (deeper : ∀ later : Bytes, later.length < rest.length → echoArg later = echoPieces (pieces later)) :
    echoArg (quote :: rest) = echoPieces (.quote quote :: pieces rest) := by
  have turn := echo_turn_quote quote rest quoted
  cases rest with
  | nil => exact echo_arg_stuck _ (List.cons_ne_nil _ _) turn
  | cons byte rest =>
      by_cases slash : byte = 92
      · subst slash
        cases rest with
        | nil => exact echo_arg_stuck _ (List.cons_ne_nil _ _) turn
        | cons special rest =>
            rw [echo_arg_turns _ rest special turn, pieces_special, echoPieces, deeper rest (by simp only [List.length_cons]; omega)]
      · rw [echo_arg_turns _ rest byte (turn.trans (if_neg slash)), pieces_other byte rest slash, deeper rest (by simp)]
        cases isQuote byte with
        | true => rfl
        | false => rfl

theorem echo_arg_pieces (text : Bytes) : echoArg text = echoPieces (pieces text) := by
  match text with
  | [] => rw [echoArg, if_pos rfl, pieces, echoPieces]
  | byte :: rest =>
      by_cases slash : byte = 92
      · subst slash
        cases rest with
        | nil => exact echo_arg_stuck [92] (List.cons_ne_nil _ _) rfl
        | cons special rest => rw [echo_arg_turns _ rest special rfl, pieces_special, echoPieces, echo_arg_pieces rest]
      · cases quoted : isQuote byte with
        | true =>
            rw [pieces_quote byte rest quoted]
            exact echo_quote_pieces byte rest quoted fun later shorter => echo_arg_pieces later
        | false =>
            rw [pieces_plain byte rest quoted slash, echo_arg_turns _ rest byte (echo_turn_plain byte rest quoted slash),
              echoPieces, echo_arg_pieces rest]
termination_by text.length
decreasing_by all_goals (simp only [List.length_cons] at *; omega)

theorem tidy_nil : Tidy [] := ⟨.nil, by simp, List.not_mem_nil⟩

theorem tidy_cons (p : Piece) (ps : List Piece) (plain : p.isQuote = false) (whole : p ≠ .bare) :
    Tidy (p :: ps) ↔ Tidy ps := by
  cases ps with
  | nil => exact iff_of_true ⟨.singleton p, by simpa using plain, by simpa using Ne.symm whole⟩ tidy_nil
  | cons next rest =>
      constructor
      · rintro ⟨apart, closed, filled⟩
        exact ⟨(List.isChain_cons_cons.mp apart).2, by simpa using closed, List.not_mem_of_not_mem_cons filled⟩
      · rintro ⟨apart, closed, filled⟩
        refine ⟨List.isChain_cons_cons.mpr ⟨by simp [plain], apart⟩, by simpa using closed, ?_⟩
        rw [List.mem_cons]
        exact not_or.mpr ⟨Ne.symm whole, filled⟩

theorem tidy_quote (byte : UInt8) (p : Piece) (ps : List Piece) (plain : p.isQuote = false) :
    Tidy (.quote byte :: p :: ps) ↔ Tidy (p :: ps) := by
  constructor
  · rintro ⟨apart, closed, filled⟩
    exact ⟨(List.isChain_cons_cons.mp apart).2, by simpa using closed, List.not_mem_of_not_mem_cons filled⟩
  · rintro ⟨apart, closed, filled⟩
    refine ⟨List.isChain_cons_cons.mpr ⟨by simp [plain], apart⟩, by simpa using closed, ?_⟩
    rw [List.mem_cons]
    exact not_or.mpr ⟨by simp, filled⟩

def saidPieces (ps : List Piece) : Bytes := ps.flatMap Piece.said

structure EchoExact (ps : List Piece) : Prop where
  prints : Tidy ps → echoPieces ps = some (saidPieces ps)
  longer : ∀ text, echoPieces ps = some text → (saidPieces ps).length ≤ text.length
  tidy : ∀ text, echoPieces ps = some text → text.length = (saidPieces ps).length → Tidy ps

theorem exact_taken (ps rest : List Piece) (byte : UInt8) (same : Tidy ps ↔ Tidy rest)
    (turned : echoPieces ps = (echoPieces rest).map (byte :: ·)) (text : saidPieces ps = byte :: saidPieces rest)
    (later : EchoExact rest) : EchoExact ps where
  prints tidy := by rw [turned, later.prints (same.mp tidy), text]; rfl
  longer := by
    intro out printed
    obtain ⟨more, done, rfl⟩ := Option.map_eq_some_iff.mp (turned.symm.trans printed)
    rw [text]
    exact Nat.succ_le_succ (later.longer more done)
  tidy := by
    intro out printed equal
    obtain ⟨more, done, rfl⟩ := Option.map_eq_some_iff.mp (turned.symm.trans printed)
    rw [text] at equal
    exact same.mpr (later.tidy more done (Nat.succ_inj.mp equal))

theorem exact_quotes (ps rest : List Piece) (byte : UInt8) (untidy : ¬Tidy ps)
    (turned : echoPieces ps = (echoPieces rest).map (byte :: ·)) (text : saidPieces ps = saidPieces rest)
    (later : EchoExact rest) : EchoExact ps := by
  have longer : ∀ out, echoPieces ps = some out → (saidPieces ps).length < out.length := by
    intro out printed
    obtain ⟨more, done, rfl⟩ := Option.map_eq_some_iff.mp (turned.symm.trans printed)
    rw [text]
    exact Nat.lt_succ_of_le (later.longer more done)
  exact ⟨fun tidy => absurd tidy untidy, fun out printed => (longer out printed).le,
    fun out printed equal => absurd equal.symm (Nat.ne_of_lt (longer out printed))⟩

theorem exact_stuck (ps : List Piece) (untidy : ¬Tidy ps) (stuck : echoPieces ps = none) : EchoExact ps where
  prints tidy := absurd tidy untidy
  longer := by simp [stuck]
  tidy := by simp [stuck]

theorem echo_exact (ps : List Piece) : EchoExact ps := by
  induction ps using echoPieces.induct with
  | case1 => exact ⟨fun _ => rfl, by simp [echoPieces, saidPieces], fun _ _ _ => tidy_nil⟩
  | case2 quote byte rest ih =>
      refine exact_quotes _ rest byte (fun tidy => ?_) rfl rfl ih
      exact (List.isChain_cons_cons.mp tidy.apart).1 ⟨rfl, rfl⟩
  | case3 quote byte rest ih =>
      refine exact_taken _ rest byte ?_ rfl rfl ih
      rw [tidy_quote quote _ rest rfl, tidy_cons _ rest rfl (by simp)]
  | case4 quote byte rest ih =>
      refine exact_taken _ rest byte ?_ rfl rfl ih
      rw [tidy_quote quote _ rest rfl, tidy_cons _ rest rfl (by simp)]
  | case5 byte rest ih => exact exact_taken _ rest byte (tidy_cons _ rest rfl (by simp)) rfl rfl ih
  | case6 byte rest ih => exact exact_taken _ rest byte (tidy_cons _ rest rfl (by simp)) rfl rfl ih
  | case7 ps empty quotes specials plains special plain =>
      have untidy : ¬Tidy ps := by
        rintro ⟨apart, closed, filled⟩
        cases ps with
        | nil => exact empty rfl
        | cons p rest =>
            cases p with
            | special byte => exact special byte rest rfl
            | plain byte => exact plain byte rest rfl
            | bare => exact filled List.mem_cons_self
            | quote byte =>
                cases rest with
                | nil => cases closed (.quote byte) rfl
                | cons next rest =>
                    cases next with
                    | quote other => exact quotes byte other rest rfl
                    | special other => exact specials byte other rest rfl
                    | plain other => exact plains byte other rest rfl
                    | bare => exact filled (List.mem_cons_of_mem _ List.mem_cons_self)
      refine exact_stuck ps untidy ?_
      unfold echoPieces
      split
      · exact absurd rfl empty
      · exact absurd rfl (quotes _ _ _)
      · exact absurd rfl (specials _ _ _)
      · exact absurd rfl (plains _ _ _)
      · exact absurd rfl (special _ _)
      · exact absurd rfl (plain _ _)
      · rfl

def echoText (argv : List Bytes) : Bytes := (argv.flatMap fun arg => said arg ++ [32]) ++ [10]

theorem echo_words_exact (argv : List Bytes) :
    ((∀ arg ∈ argv, Tidy (pieces arg)) → echoWords argv = some (echoText argv)) ∧
      ∀ text, echoWords argv = some text → (echoText argv).length ≤ text.length ∧
        (text.length = (echoText argv).length → ∀ arg ∈ argv, Tidy (pieces arg)) := by
  induction argv with
  | nil => simp [echoWords, echoText]
  | cons arg argv ih =>
      obtain ⟨prints, longer⟩ := ih
      have one := echo_exact (pieces arg)
      have text : echoText (arg :: argv) = said arg ++ 32 :: echoText argv := by simp [echoText]
      constructor
      · intro tidy
        rw [List.forall_mem_cons] at tidy
        rw [echoWords, echo_arg_pieces, one.prints tidy.1, prints tidy.2, text]
        rfl
      · intro out printed
        rw [echoWords, echo_arg_pieces] at printed
        obtain ⟨first, said_first, rest⟩ := Option.bind_eq_some_iff.mp printed
        obtain ⟨more, said_more, whole⟩ := Option.bind_eq_some_iff.mp rest
        cases whole
        have own := one.longer first said_first
        obtain ⟨later, all⟩ := longer more said_more
        change (said arg).length ≤ first.length at own
        rw [text, List.forall_mem_cons]
        simp only [List.length_append, List.length_cons]
        refine ⟨by omega, fun equal => ⟨one.tidy first said_first ?_, all ?_⟩⟩
        · change first.length = (said arg).length
          omega
        · omega

def EchoRight (cmd : Bytes) (argv : List Bytes) (s : State) : Prop :=
  (echoPrints (cmd :: argv)).run s = .ok (0, echoText argv) s

theorem echo_prints_words (cmd arg : Bytes) (argv : List Bytes) (s : State) (text : arg.head? ≠ some 36) :
    (echoPrints (cmd :: arg :: argv)).run s =
      match echoWords (arg :: argv) with
      | none => .error .fault s
      | some text => .ok (0, text) s := by
  unfold echoPrints
  split
  · rename_i same
    cases same
    exact absurd rfl text
  · rename_i same
    cases same
    cases echoWords (arg :: argv) with
    | none => rfl
    | some text => rfl
  · rename_i other
    exact absurd rfl (other _ _ _)

theorem echo_right_iff (cmd : Bytes) (argv : List Bytes) (s : State) (plain : ∀ arg ∈ argv.head?, arg.head? ≠ some 36) :
    EchoRight cmd argv s ↔ argv ≠ [] ∧ ∀ arg ∈ argv, Tidy (pieces arg) := by
  rw [EchoRight]
  cases argv with
  | nil => exact iff_of_false (by unfold echoPrints; simp [fault]) fun some_args => some_args.1 rfl
  | cons arg argv =>
      obtain ⟨prints, longer⟩ := echo_words_exact (arg :: argv)
      rw [echo_prints_words cmd arg argv s (plain arg rfl), and_iff_right (List.cons_ne_nil _ _)]
      constructor
      · intro right
        split at right
        · cases right
        · rename_i text printed
          cases right
          exact (longer _ printed).2 rfl
      · intro tidy
        rw [prints tidy]

-- The words a, 'it and \$x.
theorem echo_right_words : EchoRight [101] [[97], [39, 105, 116], [92, 36, 120]] bareEnv :=
  (echo_right_iff [101] [[97], [39, 105, 116], [92, 36, 120]] bareEnv (by decide)).mpr ⟨by decide, by decide⟩

theorem echo_prints_quote : ¬EchoRight [101] [[34, 34]] bareEnv := by
  intro right
  have printed : echoWords [[34, 34]] = some [34, 32, 10] := by
    simp [echoWords, echo_arg_pieces, pieces, isQuote, echoPieces]
  rw [EchoRight, echo_prints_words [101] [34, 34] [] bareEnv (by decide), printed] at right
  cases right

theorem echo_prints_absent (cmd name : Bytes) (more : List Bytes) (s : State) (absent : envSlot s name = none) :
    (echoPrints (cmd :: (36 :: name) :: more)).run s = .ok (0, []) s := by
  rw [echoPrints, run_get_bind, absent]
  rfl

theorem echo_prints_hole (cmd name : Bytes) (more : List Bytes) (s : State) (i : Fin maxEnv)
    (stop : envSlot s name = some i) (hole : s.envpName i = none) :
    (echoPrints (cmd :: (36 :: name) :: more)).run s = .error .fault s := by
  rw [echoPrints, run_get_bind, stop]
  simp only [if_pos hole]
  rfl

theorem echo_variable_answer (cmd name : Bytes) (more : List Bytes) :
    yashEcho (cmd :: (36 :: name) :: more) = Prod.fst <$> echoPrints (cmd :: (36 :: name) :: more) := by
  funext s
  change (yashEcho _).run s = (Prod.fst <$> echoPrints _).run s
  rw [run_map, yashEcho, echoPrints, run_get_bind, run_get_bind]
  cases envSlot s name with
  | none => rfl
  | some i =>
      dsimp only
      by_cases hole : s.envpName i = none
      · rw [if_pos hole, if_pos hole]
        rfl
      · rw [if_neg hole, if_neg hole, EStateM.run_bind, EStateM.run_bind]
        cases (value i).run s with
        | ok text t => rfl
        | error e t => rfl

theorem echo_words_answer (cmd arg : Bytes) (argv : List Bytes) (s : State) (text : arg.head? ≠ some 36) :
    (yashEcho (cmd :: arg :: argv)).run s = .ok 0 s := by
  unfold yashEcho
  split
  · rename_i same
    cases same
    exact absurd rfl text
  · rfl
  · rename_i other
    exact absurd rfl (other _ _ _)

theorem echo_prints_answer (argv : List Bytes) (s t : State) (answer : Int × Bytes)
    (printed : (echoPrints argv).run s = .ok answer t) : (yashEcho argv).run s = .ok answer.1 t := by
  match argv with
  | [] => cases printed
  | [cmd] => cases printed
  | cmd :: arg :: argv =>
      by_cases variable_name : arg.head? = some 36
      · obtain ⟨name, rfl⟩ := List.head?_eq_some_iff.mp variable_name
        rw [echo_variable_answer, run_map, printed]
      · rw [echo_prints_words cmd arg argv s variable_name] at printed
        split at printed
        · cases printed
        · cases printed
          exact echo_words_answer cmd arg argv s variable_name

end Yaup.Shell
