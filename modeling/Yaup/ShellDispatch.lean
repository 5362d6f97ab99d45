import Yaup.Lib.Triple
import Yaup.PathSearch

set_option autoImplicit false

namespace Yaup.Shell

open Lib

def Traps (holds : State → Prop) (trap : Trap → State → Prop) : Prop :=
  ∀ e s, holds s → (∀ i, e = .missing i → s.envpValue i = none) → trap e s

theorem keeps_traps (holds : State → Prop) : Traps holds fun _ => holds := fun _ _ same _ => same

def Ends {α : Type} (holds : State → Prop) (trap : Trap → State → Prop) (x : Sh α) : Prop :=
  Triple holds x (fun _ => holds) trap

section
variable (holds : State → Prop) (trap : Trap → State → Prop) (traps : Traps holds trap)

theorem ends_pure {α : Type} (a : α) : Ends holds trap (pure a : Sh α) := triple_pure holds a _ _ fun _ same => same

theorem ends_bind {α β : Type} (x : Sh α) (f : α → Sh β) (first : Ends holds trap x)
    (rest : ∀ a, Ends holds trap (f a)) : Ends holds trap (x >>= f) :=
  triple_bind holds x f _ _ _ first rest

theorem ends_get {α : Type} (f : State → Sh α) (rest : ∀ s, holds s → Ends holds trap (f s)) :
    Ends holds trap (get >>= f) :=
  triple_get holds f _ _ rest

include traps

theorem ends_throw {α : Type} (e : Trap) (other : ∀ i, e ≠ .missing i) : Ends holds trap (throw e : Sh α) :=
  triple_throw holds e _ _ fun s same => traps e s same fun i missing => absurd missing (other i)

theorem ends_halt {α β : Type} (e : Trap) (f : α → Sh β) (other : ∀ i, e ≠ .missing i) :
    Ends holds trap (throw e >>= f : Sh β) :=
  triple_halt holds e f _ _ fun s same => traps e s same fun i missing => absurd missing (other i)

theorem value_ends (i : Fin maxEnv) : Ends holds trap (value i) := by
  intro s start
  rcases Option.eq_none_or_eq_some (s.envpValue i) with unseen | ⟨text, seen⟩
  · rw [value_missing i s unseen]
    refine ⟨?_, ?_⟩
    · intro a t done
      cases done
    · intro e t halted
      cases halted
      refine traps _ s start fun j same => ?_
      cases same
      exact unseen
  · rw [value_run i s text seen]
    refine ⟨?_, ?_⟩
    · intro a t done
      cases done
      exact start
    · intro e t halted
      cases halted

theorem env_list_ends (slots : List (Fin maxEnv)) : Ends holds trap (envList slots) := by
  induction slots with
  | nil => exact ends_throw holds trap traps _ (by simp)
  | cons i rest ih =>
      refine ends_get holds trap _ fun s _ => ?_
      split
      · exact ends_pure holds trap _
      · exact ends_bind holds trap _ _ (value_ends holds trap traps i) fun _ => ih

theorem shown_ends (i : Fin maxEnv) : Ends holds trap (do
    let _ ← value i
    return 0 : Sh Int) :=
  ends_bind holds trap _ _ (value_ends holds trap traps i) fun _ => ends_pure holds trap _

theorem echo_ends (argv : List Bytes) : Ends holds trap (yashEcho argv) := by
  unfold yashEcho
  split
  · refine ends_get holds trap _ fun s _ => ?_
    split
    · exact ends_pure holds trap _
    · split
      · exact ends_halt holds trap traps _ _ (by simp)
      · exact shown_ends holds trap traps _
  · exact ends_pure holds trap _
  · exact ends_throw holds trap traps _ (by simp)

theorem env_ends (host : Host) (argv : List Bytes) (sets : ∀ words, Ends holds trap (envSet host words))
    (unsets : ∀ cmd opt rest, argv = cmd :: (45 :: 117 :: opt) :: rest → Ends holds trap (envUnset rest)) :
    Ends holds trap (yashEnv host argv) := by
  unfold yashEnv
  split
  · exact env_list_ends holds trap traps _
  · exact sets _
  · exact unsets _ _ _ rfl
  · exact ends_pure holds trap _
  · exact ends_pure holds trap _
  · exact ends_pure holds trap _
  · exact env_list_ends holds trap traps _

theorem tee_ends (host : Host) (argv : List Bytes) : Ends holds trap (yashTee host argv) := by
  unfold yashTee
  split
  · exact ends_throw holds trap traps _ (by simp)
  · exact ends_pure holds trap _

omit traps in
theorem sleep_ends (host : Host) (argv : List Bytes) : Ends holds trap (yashSleep host argv) := by
  unfold yashSleep
  split
  · exact ends_pure holds trap _
  · exact ends_pure holds trap _

end

theorem function_body (host : Host) (argv : List Bytes) (i : Nat) (other : functions[i]? ≠ some .time) :
    ∃ body : Sh Int, callFunction host argv i = (do
        modify fun s => s.log (.builtin i argv)
        body) ∧
      ∀ holds trap, Traps holds trap → (∀ words, Ends holds trap (envSet host words)) →
        (∀ cmd opt rest, functions[i]? = some .env → argv = cmd :: (45 :: 117 :: opt) :: rest →
          Ends holds trap (envUnset rest)) →
        Ends holds trap body := by
  refine ⟨_, callFunction.eq_def host argv i, fun holds trap traps sets unsets => ?_⟩
  split
  · refine ends_throw holds trap traps _ fun i => ?_
    split
    · simp
    · simp
  · exact ends_pure holds trap _
  · exact ends_pure holds trap _
  · exact echo_ends holds trap traps argv
  · rename_i env
    exact env_ends holds trap traps host argv sets fun cmd opt rest same => unsets cmd opt rest env same
  · exact ends_throw holds trap traps _ (by simp)
  · exact shown_ends holds trap traps pwd
  · exact sleep_ends holds trap host argv
  · exact tee_ends holds trap traps host argv
  · rename_i time
    exact absurd time other
  · exact shown_ends holds trap traps who

def words (line : Bytes) : List Bytes := tokens isBlank line

def timeName : Bytes := [116, 105, 109, 101]

-- The calls that a line is to make: the function of the builtin with the name of the first
-- word, or the program of that name; and for time also those of the rest.
def expected (program : Bytes → Bytes) : List Bytes → List Call
  | [] => []
  | cmd :: rest =>
      match builtins.idxOf? cmd with
      | none => [.exec (some (program cmd)) rest]
      | some i => .builtin i (cmd :: rest) :: if cmd = timeName then expected program rest else []

def dispatch (host : Host) (cmd : Bytes) (rest : List Bytes) : Sh Int :=
  match builtins.idxOf? cmd with
  | some i => callFunction host (cmd :: rest) i
  | none => do
      let s ← get
      set (s.log (.exec (some (program host cmd s)) rest))
      return host.exec (some (program host cmd s)) rest

def after {α : Type} : EStateM.Result Trap State α → State
  | .ok _ s => s
  | .error _ s => s

structure Dispatched (host : Host) (s : State) (line : Bytes) : Prop where
  calls : (after ((runLine host line).run s)).calls = s.calls ++ expected (fun cmd => program host cmd s) (words line)
  idle : (∀ byte ∈ line, isBlank byte = true) → (runLine host line).run s = .ok () s
  timed : ∀ n cmd rest t, words line = List.replicate (n + 1) timeName ++ cmd :: rest →
    (callFunction host (timeName :: cmd :: rest) 8).run t =
      (dispatch host cmd rest).run (t.log (.builtin 8 (timeName :: cmd :: rest)))

def Timeable : List Bytes → Prop
  | [] => True
  | cmd :: rest => cmd ∈ builtins ∧ (cmd = timeName → Timeable rest)

structure Dispatchable (host : Host) (s : State) (line : Bytes) : Prop where
  some : ¬∀ byte ∈ line, isBlank byte = true
  few : (words line).length < tokensSz
  external : ∀ cmd rest, words line = cmd :: rest → cmd ∉ builtins → Finds host cmd s
  timed : ∀ rest, words line = timeName :: rest → Timeable rest

theorem known_index (cmd : Bytes) (i : Nat) (known : builtins.idxOf? cmd = some i) :
    builtins[i]? = some cmd ∧ i < functions.length := by
  obtain ⟨inside, same, -⟩ := List.idxOf?_eq_some_iff.mp known
  refine ⟨?_, inside⟩
  rw [List.getElem?_eq_getElem inside]
  exact congrArg some same

theorem time_index (cmd : Bytes) (i : Nat) (known : builtins.idxOf? cmd = some i) :
    functions[i]? = some .time ↔ cmd = timeName := by
  obtain ⟨named, inside⟩ := known_index cmd i known
  have all : ∀ j < 10, ∀ w ∈ builtins[j]?, functions[j]? = some .time ↔ w = timeName := by decide
  exact all i inside cmd named

theorem time_known : builtins.idxOf? timeName = some 8 := by decide

theorem unknown_iff (cmd : Bytes) : builtins.idxOf? cmd = none ↔ cmd ∉ builtins := List.idxOf?_eq_none_iff

theorem call_time (host : Host) (cmd : Bytes) (rest : List Bytes) (s : State) :
    (callFunction host (timeName :: cmd :: rest) 8).run s =
      (yashTime (callFunction host (cmd :: rest)) (some cmd)).run (s.log (.builtin 8 (timeName :: cmd :: rest))) := by
  rw [callFunction]
  rfl

theorem time_known_call (call : Nat → Sh Int) (cmd : Bytes) (i : Nat) (known : builtins.idxOf? cmd = some i) :
    yashTime call (some cmd) = call i := by
  rw [yashTime, selectCmd, known]
  simp

theorem time_unknown_call (call : Nat → Sh Int) (cmd : Bytes) (unknown : builtins.idxOf? cmd = none) :
    yashTime call (some cmd) = call 11 := by
  rw [yashTime, selectCmd, unknown]
  rfl

-- The eleventh index is past the functions and the NULL after them.
theorem call_past (host : Host) (argv : List Bytes) (i : Nat) (past : functions.length < i) (s : State) :
    (callFunction host argv i).run s = .error (.wild i) (s.log (.builtin i argv)) := by
  have none : functions[i]? = Option.none := List.getElem?_eq_none_iff.mpr (Nat.le_of_lt past)
  have wild : (if i = functions.length then Trap.fault else .wild i) = .wild i := if_neg (by omega)
  unfold callFunction
  rw [none]
  dsimp only
  rw [wild]
  rfl

def Logged (calls : List Call) (s : State) : Prop := s.calls = calls

theorem after_keeps {α : Type} (holds : State → Prop) (x : Sh α) (s : State) (keeps : Keeps holds x) (start : holds s) :
    holds (after (x.run s)) := by
  obtain ⟨returned, trapped⟩ := keeps s start
  cases ended : x.run s with
  | ok a t => exact returned a t ended
  | error e t => exact trapped e t ended

theorem env_set_logged (calls : List Call) (host : Host) (argv : List Bytes) :
    Keeps (Logged calls) (envSet host argv) := by
  unfold envSet
  split
  · dsimp only
    split
    · exact keeps_halt _ _ _
    · refine keeps_get _ _ fun s same => ?_
      split
      · exact keeps_pure _ _
      · split
        · exact keeps_bind _ _ _ (keeps_set _ _ same) fun _ => keeps_pure _ _
        · exact keeps_bind _ _ _ (keeps_set _ _ same) fun _ => keeps_pure _ _
  · exact keeps_pure _ _

theorem env_unset_logged (calls : List Call) (argv : List Bytes) : Keeps (Logged calls) (envUnset argv) := by
  unfold envUnset
  split
  · exact keeps_pure _ _
  · refine keeps_get _ _ fun s same => ?_
    split
    · exact keeps_pure _ _
    · rename_i i found
      by_cases empty : s.envpName i = none
      · simp only [if_pos empty]
        exact keeps_halt _ _ _
      · simp only [if_neg empty]
        split
        · exact keeps_pure _ _
        · exact keeps_bind _ _ _ (keeps_set _ _ same) fun _ => keeps_pure _ _

theorem call_other_calls (host : Host) (argv : List Bytes) (i : Nat) (s : State) (other : functions[i]? ≠ some .time) :
    (after ((callFunction host argv i).run s)).calls = s.calls ++ [.builtin i argv] := by
  obtain ⟨body, same, keeps⟩ := function_body host argv i other
  have kept := keeps (Logged (s.calls ++ [.builtin i argv])) _ (keeps_traps _) (env_set_logged _ host)
    fun _ _ rest _ _ => env_unset_logged _ rest
  rw [same]
  exact after_keeps _ body (s.log (.builtin i argv)) kept rfl

theorem call_calls (host : Host) (program : Bytes → Bytes) (cmd : Bytes) (rest : List Bytes) (i : Nat) (s : State)
    (known : builtins.idxOf? cmd = some i) :
    (after ((callFunction host (cmd :: rest) i).run s)).calls = s.calls ++ expected program (cmd :: rest) ↔
      (cmd = timeName → Timeable rest) := by
  induction rest generalizing cmd i s with
  | nil =>
      rw [expected, known]
      by_cases time : cmd = timeName
      · subst time
        cases time_known.symm.trans known
        have alone : (callFunction host [timeName] 8).run s = .ok einval (s.log (.builtin 8 [timeName])) := rfl
        rw [alone]
        exact iff_of_true rfl fun _ => trivial
      · rw [call_other_calls host _ i s fun same => time ((time_index cmd i known).mp same)]
        simp [time]
  | cons next rest ih =>
      rw [expected, known]
      by_cases time : cmd = timeName
      · subst time
        cases time_known.symm.trans known
        rw [call_time]
        simp only [true_imp_iff, if_true]
        cases deeper : builtins.idxOf? next with
        | none =>
            rw [time_unknown_call _ next deeper, call_past host _ 11 (by decide)]
            refine iff_of_false ?_ fun timed => (unknown_iff next).mp deeper timed.1
            rw [expected, deeper]
            simp [after, State.log]
        | some j =>
            rw [time_known_call _ next j deeper]
            have step := ih next j (s.log (.builtin 8 (timeName :: next :: rest))) deeper
            have member : next ∈ builtins := by
              by_contra absent
              rw [(unknown_iff next).mpr absent] at deeper
              cases deeper
            rw [Timeable, and_iff_right member, ← step]
            simp [State.log]
      · rw [call_other_calls host _ i s fun same => time ((time_index cmd i known).mp same)]
        simp [time]

theorem time_dispatch_iff (host : Host) (cmd : Bytes) (rest : List Bytes) (s : State) :
    (callFunction host (timeName :: cmd :: rest) 8).run s =
        (dispatch host cmd rest).run (s.log (.builtin 8 (timeName :: cmd :: rest))) ↔ cmd ∈ builtins := by
  rw [call_time, dispatch]
  generalize s.log (.builtin 8 (timeName :: cmd :: rest)) = t
  cases known : builtins.idxOf? cmd with
  | some i =>
      rw [time_known_call _ cmd i known]
      refine iff_of_true rfl ?_
      by_contra absent
      rw [(unknown_iff cmd).mpr absent] at known
      cases known
  | none =>
      rw [time_unknown_call _ cmd known, call_past host _ 11 (by decide)]
      exact iff_of_false (fun same => by cases same) ((unknown_iff cmd).mp known)

theorem replicate_time (n : Nat) (cmd : Bytes) (rest : List Bytes) :
    Timeable (List.replicate n timeName ++ cmd :: rest) → cmd ∈ builtins := by
  induction n with
  | zero => exact fun timed => timed.1
  | succ n ih =>
      rw [List.replicate_succ, List.cons_append, Timeable]
      exact fun timed => ih (timed.2 rfl)

theorem split_line_run (line : Bytes) (s : State) :
    (splitLine line).run s = if (words line).length ≥ tokensSz then .error .fault s else .ok (words line) s := by
  rw [splitLine]
  change (if (words line).length ≥ tokensSz then fault >>= fun _ => pure (words line) else pure (words line) : Sh _).run s = _
  split
  · rfl
  · rfl

theorem run_line_few (host : Host) (line : Bytes) (s : State) (few : (words line).length < tokensSz) :
    (runLine host line).run s =
      (if UInt32.ofInt (selectCmd builtins (words line).head?) = UInt32.ofInt (-1) then do
        let file ← findCmd host ((words line).headD [])
        modify fun s => s.log (.exec file (words line).tail)
        storeRet (host.exec file (words line).tail)
      else do
        let status ← callFunction host (words line) (UInt32.ofInt (selectCmd builtins (words line).head?)).toNat
        storeRet status : Sh Unit).run s := by
  rw [runLine, EStateM.run_bind, split_line_run, if_neg (by omega)]
  dsimp only
  split
  · rfl
  · rfl

theorem known_word (i : Nat) (inside : i < functions.length) :
    UInt32.ofInt (Int.ofNat i) ≠ UInt32.ofInt (-1) ∧ (UInt32.ofInt (Int.ofNat i)).toNat = i := by
  have all : ∀ j < 10, UInt32.ofInt (Int.ofNat j) ≠ UInt32.ofInt (-1) ∧ (UInt32.ofInt (Int.ofNat j)).toNat = j := by
    decide
  exact all i inside

theorem line_builtin (host : Host) (line : Bytes) (cmd : Bytes) (rest : List Bytes) (i : Nat) (s : State)
    (few : (words line).length < tokensSz) (read : words line = cmd :: rest) (known : builtins.idxOf? cmd = some i) :
    (runLine host line).run s = (do
      let status ← callFunction host (cmd :: rest) i
      storeRet status : Sh Unit).run s := by
  obtain ⟨other, index⟩ := known_word i (known_index cmd i known).2
  have selected : selectCmd builtins (some cmd) = Int.ofNat i := by
    rw [selectCmd, known]
    rfl
  rw [run_line_few host line s few, read, List.head?_cons, selected, if_neg other, index]

theorem line_external (host : Host) (line : Bytes) (cmd : Bytes) (rest : List Bytes) (s : State)
    (few : (words line).length < tokensSz) (read : words line = cmd :: rest) (unknown : builtins.idxOf? cmd = none) :
    (runLine host line).run s = (do
      let file ← findCmd host cmd
      modify fun s => s.log (.exec file rest)
      storeRet (host.exec file rest) : Sh Unit).run s := by
  have selected : selectCmd builtins (some cmd) = -1 := by
    rw [selectCmd, unknown]
    rfl
  rw [run_line_few host line s few, read, List.head?_cons, selected, if_pos rfl]
  rfl

-- -2 is no longer negative in an unsigned variable.
theorem line_empty (host : Host) (line : Bytes) (s : State) (empty : words line = []) :
    (runLine host line).run s = .error (.wild 4294967294) (s.log (.builtin 4294967294 [])) := by
  have few : (words line).length < tokensSz := by
    rw [empty]
    decide
  have index : (UInt32.ofInt (selectCmd builtins Option.none)).toNat = 4294967294 := by decide
  rw [run_line_few host line s few, empty, List.head?_nil, if_neg (by decide), index, EStateM.run_bind,
    call_past host [] _ (by decide)]

theorem line_long (host : Host) (line : Bytes) (s : State) (long : tokensSz ≤ (words line).length) :
    (runLine host line).run s = .error .fault s := by
  rw [runLine, EStateM.run_bind, split_line_run, if_pos long]

theorem store_ret_logged (calls : List Call) (status : Int) : Keeps (Logged calls) (storeRet status) := by
  intro s same
  by_cases room : RetRoom s
  · rw [store_ret_run status s room]
    refine ⟨?_, ?_⟩
    · intro a t done
      cases done
      exact (stored_calls s status).trans same
    · intro e t halted
      cases halted
  · obtain ⟨e, stopped, -⟩ := store_ret_stops status s room
    rw [stopped]
    refine ⟨?_, ?_⟩
    · intro a t done
      cases done
    · intro e t halted
      cases halted
      exact same

theorem after_bind_calls {α β : Type} (x : Sh α) (f : α → Sh β) (s : State)
    (kept : ∀ a calls, Keeps (Logged calls) (f a)) : (after ((x >>= f).run s)).calls = (after (x.run s)).calls := by
  rw [EStateM.run_bind]
  cases x.run s with
  | ok a t => exact after_keeps _ (f a) t (kept a t.calls) rfl
  | error e t => rfl

theorem exec_logged (file : Option Bytes) (rest : List Bytes) (status : Int) (s : State) :
    (after ((do
      modify fun s => s.log (.exec file rest)
      storeRet status : Sh Unit).run s)).calls = s.calls ++ [.exec file rest] := by
  rw [after_bind_calls _ _ _ fun _ calls => store_ret_logged calls _]
  rfl

theorem expected_some (program : Bytes → Bytes) (cmd : Bytes) (rest : List Bytes) :
    expected program (cmd :: rest) ≠ [] := by
  rw [expected]
  split
  · exact List.cons_ne_nil _ _
  · exact List.cons_ne_nil _ _

theorem dispatchable_iff (host : Host) (s : State) (line : Bytes) (cmd : Bytes) (rest : List Bytes)
    (few : (words line).length < tokensSz) (read : words line = cmd :: rest) :
    Dispatchable host s line ↔ (cmd ∉ builtins → Finds host cmd s) ∧ (cmd = timeName → Timeable rest) := by
  constructor
  · intro good
    refine ⟨good.external cmd rest read, ?_⟩
    rintro rfl
    exact good.timed rest read
  · rintro ⟨finds, timed⟩
    refine ⟨fun blank => ?_, few, fun c r same absent => ?_, fun r same => ?_⟩
    · cases read.symm.trans ((tokens_nil isBlank line).mpr blank)
    · obtain ⟨rfl, rfl⟩ := List.cons.inj (read.symm.trans same)
      exact finds absent
    · obtain ⟨rfl, rfl⟩ := List.cons.inj (read.symm.trans same)
      exact timed rfl

theorem line_calls_iff (host : Host) (line : Bytes) (s : State) :
    (after ((runLine host line).run s)).calls = s.calls ++ expected (fun cmd => program host cmd s) (words line) ↔
      Dispatchable host s line := by
  by_cases few : (words line).length < tokensSz
  · cases read : words line with
    | nil =>
        rw [line_empty host line s read]
        refine iff_of_false ?_ fun good => good.some ((tokens_nil isBlank line).mp read)
        simp [after, State.log, expected]
    | cons cmd rest =>
        rw [dispatchable_iff host s line cmd rest few read]
        cases known : builtins.idxOf? cmd with
        | some i =>
            have member : cmd ∈ builtins := List.mem_of_getElem? (known_index cmd i known).1
            rw [line_builtin host line cmd rest i s few read known, after_bind_calls _ _ _ fun a calls => store_ret_logged calls a,
              call_calls host _ cmd rest i s known]
            exact (and_iff_right fun absent => absurd member absent).symm
        | none =>
            rw [line_external host line cmd rest s few read known, expected, known]
            have absent := (unknown_iff cmd).mp known
            have other : cmd ≠ timeName := by
              rintro rfl
              cases time_known.symm.trans known
            by_cases finds : Finds host cmd s
            · refine iff_of_true ?_ ⟨fun _ => finds, fun same => absurd same other⟩
              rw [EStateM.run_bind, find_cmd_finds host cmd s finds]
              exact exec_logged _ rest _ s
            · refine iff_of_false ?_ fun good => finds (good.1 absent)
              rcases find_cmd_misses host cmd s finds with null | ⟨e, stopped⟩
              · rw [EStateM.run_bind, null]
                intro same
                have calls := (exec_logged none rest _ s).symm.trans same
                simp at calls
              · rw [EStateM.run_bind, stopped]
                simp [after]
  · rw [line_long host line s (by omega)]
    refine iff_of_false ?_ fun good => few good.few
    cases read : words line with
    | nil =>
        rw [read] at few
        exact absurd (by decide) few
    | cons cmd rest =>
        intro same
        exact expected_some _ cmd rest (List.self_eq_append_right.mp same)

theorem line_dispatch_iff (host : Host) (s : State) (line : Bytes) :
    Dispatched host s line ↔ Dispatchable host s line := by
  constructor
  · exact fun good => (line_calls_iff host line s).mp good.calls
  · intro good
    refine ⟨(line_calls_iff host line s).mpr good, fun empty => absurd empty good.some, fun n cmd rest t read => ?_⟩
    have timed := good.timed _ read
    exact (time_dispatch_iff host cmd rest t).mpr (replicate_time n cmd rest timed)

theorem empty_line_jumps : ¬∀ (host : Host) (s : State) (line : Bytes), Dispatched host s line := by
  intro claim
  exact ((line_dispatch_iff quietHost _ []).mp (claim quietHost fullEnv [])).some
    fun byte member => by cases member

end Yaup.Shell
