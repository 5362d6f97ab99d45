import Yaup.Lib.CallStack
import Yaup.ShellKept

set_option autoImplicit false

namespace Yaup.Shell

open Lib

-- What becomes of the fork in exec_cmd: it is refused, the child runs a program to its end, or
-- execvpe fails there and the child returns from exec_cmd too, with a `status` never set.
inductive Forked where
  | refused
  | ran (status : Int)
  | cameBack (status : Int)

def Forked.status : Forked → Int
  | .refused => einval
  | .ran status => status
  | .cameBack status => status

structure Typed where
  world : Host
  stdin : Bytes
  fork : Option Bytes → List Bytes → Forked

def Typed.host (typed : Typed) : Host :=
  { typed.world with exec := fun file argv => (typed.fork file argv).status }

-- The status of exec_cmd goes to RET, in the parent; a status given back is that of the child,
-- while the parent is still in waitpid.
def storeForked : Forked → Sh (Option Int)
  | .refused => do
      storeRet einval
      return none
  | .ran status => do
      storeRet status
      return none
  | .cameBack status => return some status

def forkLine (typed : Typed) (line : Bytes) : Sh (Option Int) := do
  let cmd ← splitLine line
  let i : UInt32 := UInt32.ofInt (selectCmd builtins cmd.head?)
  if i = UInt32.ofInt (-1) then
    let file ← findCmd typed.host (cmd.headD [])
    modify fun s => s.log (.exec file cmd.tail)
    storeForked (typed.fork file cmd.tail)
  else if i ≥ 0 then
    let status ← callFunction typed.host cmd i.toNat
    storeRet status
    return none
  else
    return none

def forkTurn (typed : Typed) : Sh (Option Int) := do
  prompt
  forkLine typed (readLine typed.stdin)

def waitStatus (signal : Int) : Trap → Int
  | .exit => 0
  | _ => signal

def goOn (signal status : Int) (s : State) : Except Int State :=
  match (storeRet status).run s with
  | .ok _ t => .ok t
  | .error e _ => .error (waitStatus signal e)

-- A turn of the shell that reads. Where the child comes back it is a shell on top of the one
-- that forked it, unless it crashes at once.
def shellTurn (signal : Int) (s : State) (typed : Typed) : Turned State Int :=
  match (forkTurn typed).run s with
  | .error e _ => .ends (waitStatus signal e)
  | .ok none t => .goes t
  | .ok (some junk) t =>
      match goOn signal junk t with
      | .ok child => .calls child t
      | .error crash =>
          match goOn signal crash t with
          | .ok u => .goes u
          | .error status => .ends status

def shells (signal : Int) : StackMachine State Typed Int := ⟨shellTurn signal, goOn signal⟩

structure CameBack (s : State) (typed : Typed) (cmd : Bytes) (rest : List Bytes) (junk : Int) : Prop where
  read : words (readLine typed.stdin) = cmd :: rest
  few : (words (readLine typed.stdin)).length < tokensSz
  external : cmd ∉ builtins
  locates : Locates typed.host cmd s
  back : typed.fork (answered typed.host cmd s) rest = .cameBack junk
  user : s.envpValue who ≠ none
  answer : RetRoom s

structure SaysExit (s : State) (typed : Typed) : Prop where
  read : ∃ rest, handedOn (words (readLine typed.stdin)) = [101, 120, 105, 116] :: rest
  few : (words (readLine typed.stdin)).length < tokensSz
  user : s.envpValue who ≠ none

theorem go_on_ok (signal status : Int) (s : State) (room : RetRoom s) : goOn signal status s = .ok (s.stored status) := by
  rw [goOn, store_ret_run status s room]

theorem go_on_stops (signal status : Int) (s : State) (full : ¬RetRoom s) : goOn signal status s = .error signal := by
  obtain ⟨e, stopped, which⟩ := store_ret_stops status s full
  rw [goOn, stopped]
  rcases which with rfl | ⟨rfl, -⟩
  · rfl
  · rfl

-- Where only one process is left to read, the turn is that of the shell on its own; and a child
-- that comes back reads on as a shell does that has the junk for a status.
theorem fork_line_goes_on (typed : Typed) (line : Bytes) :
    (do
      match ← forkLine typed line with
      | none => pure ()
      | some status => storeRet status) = runLine typed.host line := by
  rw [forkLine, runLine]
  simp only [bind_assoc]
  refine congrArg _ (funext fun cmd => ?_)
  split
  · simp only [bind_assoc]
    refine congrArg _ (funext fun file => congrArg _ (funext fun _ => ?_))
    change _ = storeRet (typed.fork file cmd.tail).status
    cases typed.fork file cmd.tail with
    | refused => simp [storeForked, Forked.status]
    | ran status => simp [storeForked, Forked.status]
    | cameBack status => simp [storeForked, Forked.status]
  · split
    · simp
    · simp

theorem fork_turn_goes_on (typed : Typed) :
    (do
      match ← forkTurn typed with
      | none => pure ()
      | some status => storeRet status) = turn typed.host typed.stdin := by
  rw [forkTurn, turn, bind_assoc, ← fork_line_goes_on]

theorem fork_turn_run (typed : Typed) (s : State) (user : s.envpValue who ≠ none) :
    (forkTurn typed).run s = (forkLine typed (readLine typed.stdin)).run s := by
  obtain ⟨text, seen⟩ := Option.ne_none_iff_exists'.mp user
  rw [forkTurn, EStateM.run_bind, prompt, EStateM.run_bind, value_run who s text seen]
  rfl

theorem fork_turn_nameless (typed : Typed) (s : State) (nameless : s.envpValue who = none) :
    (forkTurn typed).run s = .error (.missing who) s := by
  rw [forkTurn, EStateM.run_bind, prompt, EStateM.run_bind, value_missing who s nameless]

theorem fork_line_few (typed : Typed) (line : Bytes) (s : State) (few : (words line).length < tokensSz) :
    (forkLine typed line).run s =
      (if UInt32.ofInt (selectCmd builtins (words line).head?) = UInt32.ofInt (-1) then do
        let file ← findCmd typed.host ((words line).headD [])
        modify fun s => s.log (.exec file (words line).tail)
        storeForked (typed.fork file (words line).tail)
      else do
        let status ← callFunction typed.host (words line)
          (UInt32.ofInt (selectCmd builtins (words line).head?)).toNat
        storeRet status
        return none : Sh (Option Int)).run s := by
  rw [forkLine, EStateM.run_bind, split_line_run, if_neg (by omega)]
  dsimp only
  split
  · rfl
  · rfl

theorem fork_line_external (typed : Typed) (line : Bytes) (cmd : Bytes) (rest : List Bytes) (s : State)
    (few : (words line).length < tokensSz) (read : words line = cmd :: rest) (unknown : builtins.idxOf? cmd = none) :
    (forkLine typed line).run s = (do
      let file ← findCmd typed.host cmd
      modify fun s => s.log (.exec file rest)
      storeForked (typed.fork file rest) : Sh (Option Int)).run s := by
  have selected : selectCmd builtins (some cmd) = -1 := by
    rw [selectCmd, unknown]
    rfl
  rw [fork_line_few typed line s few, read, List.head?_cons, selected, if_pos rfl]
  rfl

theorem fork_line_builtin (typed : Typed) (line : Bytes) (cmd : Bytes) (rest : List Bytes) (i : Nat) (s : State)
    (few : (words line).length < tokensSz) (read : words line = cmd :: rest) (known : builtins.idxOf? cmd = some i) :
    (forkLine typed line).run s = (do
      let status ← callFunction typed.host (cmd :: rest) i
      storeRet status
      return none : Sh (Option Int)).run s := by
  obtain ⟨other, index⟩ := known_word i (known_index cmd i known).2
  have selected : selectCmd builtins (some cmd) = Int.ofNat i := by
    rw [selectCmd, known]
    rfl
  rw [fork_line_few typed line s few, read, List.head?_cons, selected, if_neg other, index]

theorem answered_once (x : Sh Int) (s t : State) (junk : Int) :
    (do
      let status ← x
      storeRet status
      return none : Sh (Option Int)).run s ≠ .ok (some junk) t := by
  intro done
  obtain ⟨status, u, -, rest⟩ := (run_bind_ok _ _ _ _ _).mp done
  obtain ⟨-, v, -, last⟩ := (run_bind_ok _ _ _ _ _).mp rest
  cases last

theorem came_back_run (s : State) (typed : Typed) (cmd : Bytes) (rest : List Bytes) (junk : Int)
    (came : CameBack s typed cmd rest junk) :
    (forkTurn typed).run s = .ok (some junk) (s.log (.exec (answered typed.host cmd s) rest)) := by
  have unknown := (unknown_iff cmd).mpr came.external
  rw [fork_turn_run typed s came.user, fork_line_external typed _ cmd rest s came.few came.read unknown,
    EStateM.run_bind, find_cmd_answers typed.host cmd s came.locates]
  change (storeForked (typed.fork (answered typed.host cmd s) rest)).run _ = _
  rw [came.back]
  rfl

theorem two_go_on (s t : State) (typed : Typed) (junk : Int) (here : RetRoom t)
    (done : (forkTurn typed).run s = .ok (some junk) t) : ∃ cmd rest, CameBack s typed cmd rest junk := by
  by_cases nameless : s.envpValue who = none
  · rw [fork_turn_nameless typed s nameless] at done
    cases done
  rw [fork_turn_run typed s nameless] at done
  by_cases few : (words (readLine typed.stdin)).length < tokensSz
  · cases read : words (readLine typed.stdin) with
    | nil =>
        rw [fork_line_few typed _ s few, read, List.head?_nil, if_neg (by decide)] at done
        exact absurd done (answered_once _ s t junk)
    | cons cmd rest =>
        cases known : builtins.idxOf? cmd with
        | some i =>
            rw [fork_line_builtin typed _ cmd rest i s few read known] at done
            exact absurd done (answered_once _ s t junk)
        | none =>
            rw [fork_line_external typed _ cmd rest s few read known, EStateM.run_bind] at done
            by_cases locates : Locates typed.host cmd s
            · rw [find_cmd_answers typed.host cmd s locates] at done
              change (storeForked (typed.fork (answered typed.host cmd s) rest)).run _ = _ at done
              cases back : typed.fork (answered typed.host cmd s) rest with
              | refused =>
                  rw [back] at done
                  exact absurd done (answered_once (pure einval) _ t junk)
              | ran status =>
                  rw [back] at done
                  exact absurd done (answered_once (pure status) _ t junk)
              | cameBack status =>
                  rw [back] at done
                  cases done
                  exact ⟨cmd, rest, read, few, (unknown_iff cmd).mp known, locates, back, nameless, here⟩
            · obtain ⟨e, stopped⟩ := find_cmd_stops typed.host cmd s locates
              rw [stopped] at done
              cases done
  · rw [forkLine, EStateM.run_bind, split_line_run, if_pos (by omega)] at done
    cases done

def forked (s : State) (typed : Typed) (cmd : Bytes) (rest : List Bytes) : State :=
  s.log (.exec (answered typed.host cmd s) rest)

theorem came_back_calls (signal : Int) (s : State) (typed : Typed) (cmd : Bytes) (rest : List Bytes) (junk : Int)
    (came : CameBack s typed cmd rest junk) :
    shellTurn signal s typed =
      .calls ((forked s typed cmd rest).stored junk) (forked s typed cmd rest) := by
  have same : goOn signal junk (forked s typed cmd rest) = _ := go_on_ok signal junk _ came.answer
  rw [shellTurn, came_back_run s typed cmd rest junk came]
  dsimp only
  rw [← forked, same]

theorem calls_came_back (signal : Int) (s child t : State) (typed : Typed)
    (called : shellTurn signal s typed = .calls child t) :
    ∃ cmd rest junk, CameBack s typed cmd rest junk ∧ t = forked s typed cmd rest ∧
      child = t.stored junk := by
  rw [shellTurn] at called
  match done : (forkTurn typed).run s with
  | .error e u =>
      rw [done] at called
      cases called
  | .ok none u =>
      rw [done] at called
      cases called
  | .ok (some junk) u =>
      rw [done] at called
      dsimp only at called
      by_cases here : ¬RetRoom u
      · rw [go_on_stops signal junk u here] at called
        dsimp only at called
        rw [go_on_stops signal signal u here] at called
        cases called
      · rw [not_not] at here
        rw [go_on_ok signal junk u here] at called
        cases called
        obtain ⟨cmd, rest, came⟩ := two_go_on s t typed junk here done
        have same := (came_back_run s typed cmd rest junk came).symm.trans done
        cases same
        exact ⟨cmd, rest, junk, came, rfl, rfl⟩

-- Whoever waits has room in RET: its child could not have come back without it.
theorem shells_resumable (signal : Int) : (shells signal).Resumable RetRoom where
  called := by
    intro s typed child t called
    obtain ⟨cmd, rest, junk, came, rfl, -⟩ := calls_came_back signal s child t typed called
    exact came.answer
  resumed := fun status s here => ⟨_, go_on_ok signal status s here⟩

theorem exit_called (host : Host) (cmd : Bytes) (rest argv : List Bytes) (i : Nat) (s : State)
    (known : builtins.idxOf? cmd = some i) (exits : handedOn (cmd :: rest) = [101, 120, 105, 116] :: argv) :
    ∃ t, (callFunction host (cmd :: rest) i).run s = .error .exit t := by
  induction rest generalizing cmd i s with
  | nil =>
      by_cases time : cmd = timeName
      · rw [handedOn, if_pos time] at exits
        cases exits
      · rw [handedOn, if_neg time] at exits
        cases exits
        cases known
        exact ⟨_, rfl⟩
  | cons next rest ih =>
      by_cases time : cmd = timeName
      · subst time
        cases time_known.symm.trans known
        rw [handedOn, if_pos rfl] at exits
        rw [call_time]
        cases deeper : builtins.idxOf? next with
        | none =>
            have other : next ≠ timeName := by
              rintro rfl
              cases time_known.symm.trans deeper
            rw [handedOn, if_neg other] at exits
            cases exits
            cases deeper
        | some j =>
            rw [time_known_call _ next j deeper]
            exact ih next j _ deeper exits
      · rw [handedOn, if_neg time] at exits
        cases exits
        cases known
        exact ⟨_, rfl⟩

theorem says_exit_ends (signal : Int) (s : State) (typed : Typed) (exits : SaysExit s typed) :
    shellTurn signal s typed = .ends 0 := by
  obtain ⟨argv, said⟩ := exits.read
  cases read : words (readLine typed.stdin) with
  | nil =>
      rw [read] at said
      cases said
  | cons cmd rest =>
      rw [read] at said
      cases known : builtins.idxOf? cmd with
      | none =>
          have other : cmd ≠ timeName := by
            rintro rfl
            cases time_known.symm.trans known
          rw [handedOn, if_neg other] at said
          cases said
          cases known
      | some i =>
          obtain ⟨t, stopped⟩ := exit_called typed.host cmd rest argv i s known said
          rw [shellTurn, fork_turn_run typed s exits.user, fork_line_builtin typed _ cmd rest i s exits.few read known,
            EStateM.run_bind, stopped]
          rfl

structure ShellsCounted (signal : Int) (s : State) (typed : List Typed) : Prop where
  count : ((shells signal).exec ⟨s, []⟩ typed).depth +
      ((shells signal).turns ⟨s, []⟩ typed).countP (shells signal).isEnd =
    1 + ((shells signal).turns ⟨s, []⟩ typed).countP (shells signal).isCall
  calls : ∀ taken ∈ (shells signal).turns ⟨s, []⟩ typed,
    (shells signal).isCall taken ↔ ∃ cmd rest junk, CameBack taken.1 taken.2 cmd rest junk
  exits : ∀ taken ∈ (shells signal).turns ⟨s, []⟩ typed, SaysExit taken.1 taken.2 → (shells signal).isEnd taken

theorem is_call_iff (signal : Int) (s : State) (typed : Typed) :
    (shells signal).isCall (s, typed) ↔ ∃ cmd rest junk, CameBack s typed cmd rest junk := by
  have turned : (shells signal).turn s typed = shellTurn signal s typed := rfl
  rw [StackMachine.isCall, turned]
  constructor
  · intro call
    cases called : shellTurn signal s typed with
    | goes t =>
        rw [called] at call
        cases call
    | ends status =>
        rw [called] at call
        cases call
    | calls child t =>
        obtain ⟨cmd, rest, junk, came, -, -⟩ := calls_came_back signal s child t typed called
        exact ⟨cmd, rest, junk, came⟩
  · rintro ⟨cmd, rest, junk, came⟩
    rw [came_back_calls signal s typed cmd rest junk came]

theorem exits_match_comebacks (signal : Int) (s : State) (typed : List Typed) : ShellsCounted signal s typed where
  count := (shells signal).exec_depth _ (shells_resumable signal) ⟨s, []⟩ typed (by simp)
  calls := fun taken _ => is_call_iff signal taken.1 taken.2
  exits := by
    intro taken _ exits
    have ended : (shells signal).turn taken.1 taken.2 = _ := says_exit_ends signal taken.1 taken.2 exits
    rw [StackMachine.isEnd, ended]

-- The shell that forks `child` and the lines from then on: `child` runs them as a shell of its
-- own, and where it ends all that is left of it is the status at the place of RET.
structure NestedShell (signal : Int) (s : State) (waiting : List State) (typed : Typed) (later : List Typed)
    (cmd : Bytes) (rest : List Bytes) (junk : Int) : Prop where
  nests : (shells signal).exec ⟨s, waiting⟩ (typed :: later) =
    match (shells signal).exec ⟨(forked s typed cmd rest).stored junk, []⟩ later with
    | .live nested => .live (nested.over (forked s typed cmd rest :: waiting))
    | .done status left =>
        (shells signal).exec ⟨(forked s typed cmd rest).stored status, waiting⟩ left
  names : ∀ status, ((forked s typed cmd rest).stored status).envpName = s.envpName
  pointers : ∀ status, ∀ i ≠ ret, ((forked s typed cmd rest).stored status).envpPointer i = s.envpPointer i
  bytes : ∀ status j, (∀ place, s.envpPointer ret = some (.inherited place) → j < place ∨ place + 12 ≤ j) →
    ((forked s typed cmd rest).stored status).strings[j]? = s.strings[j]?
  reads : (turn typed.host typed.stdin).run s = .ok () ((forked s typed cmd rest).stored junk)

theorem nested_shell_undone (signal : Int) (s : State) (waiting : List State) (typed : Typed) (later : List Typed)
    (cmd : Bytes) (rest : List Bytes) (junk : Int) (came : CameBack s typed cmd rest junk) :
    NestedShell signal s waiting typed later cmd rest junk where
  nests := by
    have called : (shells signal).turn s typed = _ := came_back_calls signal s typed cmd rest junk came
    rw [StackMachine.exec, StackMachine.step, called]
    dsimp only
    have nested := (shells signal).exec_over ⟨(forked s typed cmd rest).stored junk, []⟩
      (forked s typed cmd rest :: waiting) later
    rw [CallStack.over, List.nil_append] at nested
    rw [nested]
    cases (shells signal).exec ⟨(forked s typed cmd rest).stored junk, []⟩ later with
    | live nested => rfl
    | done status left =>
        have resumed : (shells signal).resume status (forked s typed cmd rest) = _ := go_on_ok signal status _ came.answer
        dsimp only
        rw [StackMachine.unwind, resumed]
  names := fun status => stored_names (forked s typed cmd rest) status
  pointers := fun status i other => stored_pointer (forked s typed cmd rest) status i other
  bytes := fun status j outside => stored_outside (forked s typed cmd rest) status came.answer j outside
  reads := by
    rw [← fork_turn_goes_on, EStateM.run_bind, came_back_run s typed cmd rest junk came]
    exact store_ret_run junk _ came.answer

-- The line "nope", for which there is no file to execute, at a shell that has all its variables.
def typedNope : Typed := ⟨quietHost, [110, 111, 112, 101, 10], fun _ _ => .cameBack 7⟩

theorem nope_comes_back : CameBack fullEnv typedNope [110, 111, 112, 101] [] 7 where
  read := by decide
  few := by decide
  external := by decide
  locates := ⟨[], rfl, by decide, fun token found => by cases found⟩
  back := rfl
  user := by decide
  answer := by
    change 6 + 12 ≤ 32
    decide

theorem nested_shell_undone_nope :
    NestedShell 11 fullEnv [] typedNope [⟨quietHost, [101, 120, 105, 116, 10], fun _ _ => .refused⟩]
      [110, 111, 112, 101] [] 7 :=
  nested_shell_undone 11 fullEnv [] typedNope _ [110, 111, 112, 101] [] 7 nope_comes_back

end Yaup.Shell
