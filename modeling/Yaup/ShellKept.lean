import Yaup.ShellDispatch
import Yaup.ShellEnv

set_option autoImplicit false

namespace Yaup.Shell

open Lib

structure Kept (s : State) : Prop where
  names : ∀ i : Fin maxEnv, i ≤ shll → s.envpName i = initNames[i.val]?
  values : ∀ i ≤ shll, s.envpValue i ≠ none

def envName : Bytes := [101, 110, 118]

def handedOn : List Bytes → List Bytes
  | [] => []
  | cmd :: rest => if cmd = timeName then handedOn rest else cmd :: rest

def unsetBy : List Bytes → Option Bytes
  | cmd :: (45 :: 117 :: _) :: name :: _ => if cmd = envName then some name else none
  | _ => none

def unsetName (line : Bytes) : Option Bytes :=
  if (words line).length < tokensSz then unsetBy (handedOn (words line)) else none

structure Input where
  host : Host
  stdin : Bytes

def Input.run (input : Input) : Sh Unit := turn input.host input.stdin

def TurnStep (s : State) (input : Input) (t : State) : Prop := after (input.run.run s) = t

-- A turn meets no missing value of the shell's own, and an env -u of one of its names is
-- refused: main stores EINVAL over the state as it was.
structure Untouched (move : Move State Input) : Prop where
  found : ∀ i ≤ shll, ∀ t, move.act.run.run move.before ≠ .error (.missing i) t
  refused : ∀ name ∈ initNames, unsetName (readLine move.act.stdin) = some name → ∃ calls,
    move.act.run.run move.before = (storeRet einval).run { move.before with calls := calls }

def openNames : List Bytes := initNames.drop 6

def LeavesOpen (input : Input) : Prop := ∀ name ∈ openNames, unsetName (readLine input.stdin) ≠ some name

def KeptTrap (e : Trap) (s : State) : Prop := Kept s ∧ ∀ i ≤ shll, e ≠ .missing i

theorem kept_traps : Traps Kept KeptTrap := by
  intro e s kept missing
  refine ⟨kept, fun i own same => ?_⟩
  exact kept.values i own (missing i same)

theorem set_ends (s : State) (kept : Kept s) : Ends Kept KeptTrap (set s : Sh PUnit) :=
  triple_modify Kept (fun _ => s) _ _ fun _ _ => kept

theorem log_ends (call : Call) : Ends Kept KeptTrap (modify fun s => s.log call : Sh PUnit) :=
  triple_modify Kept _ _ _ fun _ kept => ⟨kept.names, kept.values⟩

theorem run_ends {α : Type} (x y : Sh α) (same : ∀ s, x.run s = y.run s) (ends : Ends Kept KeptTrap y) :
    Ends Kept KeptTrap x := by
  intro s kept
  rw [same s]
  exact ends s kept

theorem own_name (i : Fin maxEnv) (own : i ≤ shll) : ∃ name ∈ initNames, initNames[i.val]? = some name := by
  have all : ∀ i : Fin maxEnv, i ≤ shll → ∃ name ∈ initNames, initNames[i.val]? = some name := by decide
  exact all i own

theorem kept_value (s : State) (i : Fin maxEnv) (text : Bytes) (kept : Kept s) : Kept (s.setValue i (some text)) where
  names := kept.names
  values := by
    intro j own
    rw [State.setValue_value]
    by_cases same : j = i
    · rw [same, Function.update_self]
      exact Option.some_ne_none text
    · rw [Function.update_of_ne same]
      exact kept.values j own

theorem kept_other (s : State) (i : Fin maxEnv) (name : Option Bytes) (value : Option Bytes) (other : ¬i ≤ shll)
    (kept : Kept s) : Kept ((s.setName i name).setValue i value) where
  names := by
    intro j own
    have apart : j ≠ i := by
      rintro rfl
      exact other own
    change Function.update s.envpName i name j = _
    rw [Function.update_of_ne apart]
    exact kept.names j own
  values := by
    intro j own
    have apart : j ≠ i := by
      rintro rfl
      exact other own
    rw [State.setValue_value, State.setName_value, Function.update_of_ne apart]
    exact kept.values j own

theorem hole_other (s : State) (i : Fin maxEnv) (kept : Kept s) (hole : s.envpName i = none) : ¬i ≤ shll := by
  intro own
  obtain ⟨name, -, named⟩ := own_name i own
  rw [kept.names i own, named] at hole
  cases hole

theorem env_set_ends (host : Host) (argv : List Bytes) : Ends Kept KeptTrap (envSet host argv) := by
  unfold envSet
  split
  · dsimp only
    split
    · exact ends_halt _ _ kept_traps _ _ (by simp)
    · refine ends_get _ _ _ fun s kept => ?_
      split
      · exact ends_pure _ _ _
      · rename_i i stop
        split
        · rename_i hole
          have other := hole_other s i kept hole
          exact ends_bind _ _ _ _ (set_ends _ (kept_other s i _ _ other kept)) fun _ => ends_pure _ _ _
        · exact ends_bind _ _ _ _ (set_ends _ (kept_value s i _ kept)) fun _ => ends_pure _ _ _
  · exact ends_pure _ _ _

theorem env_unset_ends (argv : List Bytes) (open_names : ∀ name ∈ openNames, argv.head? ≠ some name) :
    Ends Kept KeptTrap (envUnset argv) := by
  unfold envUnset
  split
  · exact ends_pure _ _ _
  · rename_i name more
    refine ends_get _ _ _ fun s kept => ?_
    split
    · exact ends_pure _ _ _
    · rename_i i stop
      by_cases hole : s.envpName i = none
      · simp only [if_pos hole]
        exact ends_halt _ _ kept_traps _ _ (by simp)
      · simp only [if_neg hole]
        split
        · exact ends_pure _ _ _
        · rename_i high
          have other : ¬i ≤ shll := by
            intro own
            have here := (((env_slot_some s name i).mp stop).1).resolve_left hole
            have named : name ∈ initNames[i.val]? := (kept.names i own).symm.trans here
            have all : ∀ i : Fin maxEnv, i ≤ shll → ¬i.val ≤ 5 → ∀ name ∈ initNames[i.val]?, name ∈ openNames := by
              decide
            exact open_names name (all i own high name named) rfl
          exact ends_bind _ _ _ _ (set_ends _ (kept_other s i none none other kept)) fun _ => ends_pure _ _ _

theorem store_ret_ends (status : Int) : Ends Kept KeptTrap (storeRet status) := by
  intro s kept
  by_cases room : RetRoom s
  · rw [store_ret_run status s room]
    refine ⟨?_, ?_⟩
    · intro a t done
      cases done
      refine ⟨?_, fun i own => stored_value s status i (kept.values i own)⟩
      rw [stored_names]
      exact kept.names
    · intro e t halted
      cases halted
  · obtain ⟨e, stopped, which⟩ := store_ret_stops status s room
    rw [stopped]
    refine ⟨?_, ?_⟩
    · intro a t done
      cases done
    · intro e' t halted
      cases halted
      rcases which with rfl | ⟨-, missing⟩
      · exact ⟨kept, fun i _ => by simp⟩
      · exact absurd missing (kept.values ret (by decide))

theorem find_cmd_ends (host : Host) (cmd : Bytes) : Ends Kept KeptTrap (findCmd host cmd) := by
  unfold findCmd
  refine ends_bind _ _ _ _ (value_ends _ _ kept_traps path) fun text => ?_
  by_cases long : text.length ≥ buffSz
  · simp only [if_pos long]
    exact ends_halt _ _ kept_traps _ _ (by simp)
  · simp only [if_neg long]
    cases findIn host cmd (tokens (fun byte => byte = 58) text) with
    | none => exact ends_pure _ _ _
    | some token =>
        by_cases full : token.length + 1 + cmd.length ≥ buffSz
        · simp only [if_pos full]
          exact ends_halt _ _ kept_traps _ _ (by simp)
        · simp only [if_neg full]
          exact ends_pure _ _ _

theorem env_index (cmd : Bytes) (i : Nat) (known : builtins.idxOf? cmd = some i) (env : functions[i]? = some .env) :
    cmd = envName := by
  obtain ⟨named, inside⟩ := known_index cmd i known
  have all : ∀ j < 10, ∀ w ∈ builtins[j]?, functions[j]? = some .env → w = envName := by decide
  exact all i inside cmd named env

theorem call_ends (host : Host) (cmd : Bytes) (rest : List Bytes) (i : Nat) (known : builtins.idxOf? cmd = some i)
    (unsets : ∀ opt more, handedOn (cmd :: rest) = envName :: (45 :: 117 :: opt) :: more →
      Ends Kept KeptTrap (envUnset more)) :
    Ends Kept KeptTrap (callFunction host (cmd :: rest) i) := by
  induction rest generalizing cmd i with
  | nil =>
      by_cases time : cmd = timeName
      · subst time
        cases time_known.symm.trans known
        refine run_ends _ (do
          modify fun s => s.log (.builtin 8 [timeName])
          return einval) (fun s => rfl) ?_
        exact ends_bind _ _ _ _ (log_ends _) fun _ => ends_pure _ _ _
      · obtain ⟨body, same, ends⟩ := function_body host [cmd] i fun is => time ((time_index cmd i known).mp is)
        rw [same]
        refine ends_bind _ _ _ _ (log_ends _) fun _ => ends _ _ kept_traps (env_set_ends host) fun c opt more _ argv => ?_
        cases argv
  | cons next rest ih =>
      by_cases time : cmd = timeName
      · subst time
        cases time_known.symm.trans known
        refine run_ends _ (do
          modify fun s => s.log (.builtin 8 (timeName :: next :: rest))
          yashTime (callFunction host (next :: rest)) (some next)) (fun s => by rw [call_time]; rfl) ?_
        refine ends_bind _ _ _ _ (log_ends _) fun _ => ?_
        cases deeper : builtins.idxOf? next with
        | none =>
            rw [time_unknown_call _ next deeper]
            refine run_ends _ (do
              modify fun s => s.log (.builtin 11 (next :: rest))
              throw (.wild 11)) (fun s => call_past host _ 11 (by decide) s) ?_
            exact ends_bind _ _ _ _ (log_ends _) fun _ => ends_throw _ _ kept_traps _ (by simp)
        | some j =>
            rw [time_known_call _ next j deeper]
            refine ih next j deeper fun opt more handed => unsets opt more ?_
            rw [handedOn, if_pos rfl]
            exact handed
      · obtain ⟨body, same, ends⟩ := function_body host (cmd :: next :: rest) i fun is =>
          time ((time_index cmd i known).mp is)
        rw [same]
        refine ends_bind _ _ _ _ (log_ends _) fun _ =>
          ends _ _ kept_traps (env_set_ends host) fun c opt more env argv => unsets opt more ?_
        rw [handedOn, if_neg time, env_index cmd i known env, (List.cons.inj argv).2]

theorem handed_unset (line : Bytes) (few : (words line).length < tokensSz) (opt : Bytes) (more : List Bytes)
    (handed : handedOn (words line) = envName :: (45 :: 117 :: opt) :: more) : unsetName line = more.head? := by
  rw [unsetName, if_pos few, handed]
  cases more with
  | nil => rfl
  | cons name more => rfl

theorem run_line_ends (host : Host) (line : Bytes) (leaves : ∀ name ∈ openNames, unsetName line ≠ some name) :
    Ends Kept KeptTrap (runLine host line) := by
  by_cases few : (words line).length < tokensSz
  · cases read : words line with
    | nil =>
        refine run_ends _ (do
          modify fun s => s.log (.builtin 4294967294 [])
          throw (.wild 4294967294)) (fun s => by rw [line_empty host line s read]; rfl) ?_
        exact ends_bind _ _ _ _ (log_ends _) fun _ => ends_throw _ _ kept_traps _ (by simp)
    | cons cmd rest =>
        cases known : builtins.idxOf? cmd with
        | some i =>
            refine run_ends _ _ (fun s => line_builtin host line cmd rest i s few read known) ?_
            refine ends_bind _ _ _ _ (call_ends host cmd rest i known fun opt more handed => ?_) store_ret_ends
            rw [← read] at handed
            refine env_unset_ends more fun name member => ?_
            rw [← handed_unset line few opt more handed]
            exact leaves name member
        | none =>
            refine run_ends _ _ (fun s => line_external host line cmd rest s few read known) ?_
            refine ends_bind _ _ _ _ (find_cmd_ends host cmd) fun file => ?_
            exact ends_bind _ _ _ _ (log_ends _) fun _ => store_ret_ends _
  · refine run_ends _ (throw .fault) (fun s => by rw [line_long host line s (Nat.not_lt.mp few)]; rfl) ?_
    exact ends_throw _ _ kept_traps _ (by simp)

theorem turn_ends (input : Input) (leaves : LeavesOpen input) : Ends Kept KeptTrap input.run := by
  have prompts : Ends Kept KeptTrap prompt :=
    ends_bind _ _ _ _ (value_ends _ _ kept_traps who) fun _ => ends_pure _ _ _
  exact ends_bind _ _ _ _ prompts fun _ => run_line_ends input.host (readLine input.stdin) leaves

theorem call_unset (host : Host) (cmd : Bytes) (rest : List Bytes) (name : Bytes) (s : State)
    (unset : unsetBy (handedOn (cmd :: rest)) = some name) :
    ∃ i more calls, builtins.idxOf? cmd = some i ∧
      (callFunction host (cmd :: rest) i).run s = (envUnset (name :: more)).run { s with calls := calls } := by
  induction rest generalizing cmd s with
  | nil =>
      rw [handedOn] at unset
      split at unset
      · cases unset
      · cases unset
  | cons next rest ih =>
      rw [handedOn] at unset
      by_cases time : cmd = timeName
      · subst time
        rw [if_pos rfl] at unset
        obtain ⟨i, more, calls, known, ran⟩ := ih next (s.log (.builtin 8 (timeName :: next :: rest))) unset
        refine ⟨8, more, calls, time_known, ?_⟩
        rw [call_time, time_known_call _ next i known, ran]
        rfl
      · rw [if_neg time, unsetBy.eq_def] at unset
        split at unset
        · rename_i c opt found more argv
          obtain ⟨rfl, tail⟩ := List.cons.inj argv
          rw [tail]
          split at unset
          · rename_i env
            cases unset
            subst env
            refine ⟨3, more, s.calls ++ [.builtin 3 (envName :: (45 :: 117 :: opt) :: name :: more)], by decide, ?_⟩
            rw [callFunction]
            rfl
          · cases unset
        · cases unset

theorem own_index (name : Bytes) (own : name ∈ initNames) :
    ∃ i : Fin maxEnv, i ≤ shll ∧ initNames[i.val]? = some name ∧ (i.val ≤ 5 ↔ name ∉ openNames) := by
  have all : ∀ name ∈ initNames, ∃ i : Fin maxEnv, i ≤ shll ∧ initNames[i.val]? = some name ∧
      (i.val ≤ 5 ↔ name ∉ openNames) := by decide
  exact all name own

theorem kept_slot (s : State) (i : Fin maxEnv) (name : Bytes) (own : i ≤ shll) (named : initNames[i.val]? = some name)
    (kept : Kept s) : envSlot s name = some i ∧ s.envpName i = some name := by
  have here := (kept.names i own).trans named
  refine ⟨(env_slot_some s name i).mpr ⟨.inr here, fun j before => ?_⟩, here⟩
  have lower : j ≤ shll := le_trans (le_of_lt before) own
  refine ⟨fun hole => hole_other s j kept hole lower, fun there => ?_⟩
  have same := init_names_distinct j i name ((kept.names j lower).symm.trans there) named
  exact absurd same (ne_of_lt before)

theorem turn_unset (input : Input) (name : Bytes) (s : State) (kept : Kept s)
    (unset : unsetName (readLine input.stdin) = some name) :
    ∃ more calls, input.run.run s =
      (envUnset (name :: more) >>= storeRet).run { s with calls := calls } := by
  rw [unsetName] at unset
  by_cases few : (words (readLine input.stdin)).length < tokensSz
  · rw [if_pos few] at unset
    cases read : words (readLine input.stdin) with
    | nil =>
        rw [read] at unset
        cases unset
    | cons cmd rest =>
        rw [read] at unset
        obtain ⟨i, more, calls, known, ran⟩ := call_unset input.host cmd rest name s unset
        refine ⟨more, calls, ?_⟩
        obtain ⟨user, seen⟩ := Option.ne_none_iff_exists'.mp (kept.values who (by decide))
        rw [Input.run, turn, EStateM.run_bind, prompt, EStateM.run_bind, value_run who s user seen]
        change (runLine input.host (readLine input.stdin)).run s = _
        rw [line_builtin input.host _ cmd rest i s few read known, EStateM.run_bind, ran, EStateM.run_bind]
  · rw [if_neg few] at unset
    cases unset

theorem store_ret_names (status : Int) (s : State) : (after ((storeRet status).run s)).envpName = s.envpName := by
  by_cases room : RetRoom s
  · rw [store_ret_run status s room]
    exact stored_names s status
  · obtain ⟨e, stopped, -⟩ := store_ret_stops status s room
    rw [stopped]
    rfl

theorem turn_step (s : State) (input : Input) (t : State) (kept : Kept s) (step : TurnStep s input t) :
    (Kept t ∧ Untouched ⟨s, input, t⟩) ↔ LeavesOpen input := by
  constructor
  · rintro ⟨-, untouched⟩ name member unset
    have own : name ∈ initNames := List.mem_of_mem_drop member
    obtain ⟨i, low, named, open_index⟩ := own_index name own
    obtain ⟨more, calls, ran⟩ := turn_unset input name s kept unset
    obtain ⟨others, refused⟩ := untouched.refused name own unset
    obtain ⟨slot, here⟩ := kept_slot { s with calls := calls } i name low named ⟨kept.names, kept.values⟩
    have high : ¬i.val ≤ 5 := fun small => open_index.mp small member
    have cleared := env_unset_found name more { s with calls := calls } i slot here high
    rw [EStateM.run_bind, cleared] at ran
    have left := store_ret_names 0 (({ s with calls := calls }.setName i none).setValue i none)
    change input.run.run s = (storeRet 0).run _ at ran
    change input.run.run s = _ at refused
    rw [← ran, refused, store_ret_names] at left
    have empty : Function.update s.envpName i none i = none := Function.update_self i none s.envpName
    exact hole_other s i kept ((congrFun left i).trans empty) low
  · intro leaves
    obtain ⟨returned, trapped⟩ := turn_ends input leaves s kept
    refine ⟨?_, ?_, ?_⟩
    · rw [← step]
      cases ended : input.run.run s with
      | ok a u => exact returned a u ended
      | error e u => exact (trapped e u ended).1
    · intro i own u halted
      exact (trapped _ u halted).2 i own rfl
    · intro name own unset
      obtain ⟨i, low, named, open_index⟩ := own_index name own
      obtain ⟨more, calls, ran⟩ := turn_unset input name s kept unset
      obtain ⟨slot, here⟩ := kept_slot { s with calls := calls } i name low named ⟨kept.names, kept.values⟩
      have small : i.val ≤ 5 := open_index.mpr fun member => leaves name member unset
      have refused := env_unset_refused name more { s with calls := calls } i slot here small
      rw [EStateM.run_bind, refused] at ran
      exact ⟨calls, ran⟩

theorem shell_keeps_iff (env : Environ) (junk : Fin maxEnv → Option Bytes) (moves : List (Move State Input)) (last : State)
    (run : Run TurnStep (initEnv env junk) moves last) :
    (Throughout Kept moves last ∧ ∀ move ∈ moves, Untouched move) ↔
      (∀ i ≤ shll, env.envp i ≠ none) ∧ ∀ move ∈ moves, LeavesOpen move.act := by
  have start : Kept (initEnv env junk) ↔ ∀ i ≤ shll, env.envp i ≠ none := by
    have text : ∀ i ≤ shll, (initEnv env junk).envpValue i ≠ none ↔ env.envp i ≠ none := by
      intro i own
      rw [init_env_own env junk i own, Environ.text, ne_eq, Option.map_eq_none_iff]
    exact ⟨fun kept i own => (text i own).mp (kept.values i own),
      fun all => ⟨fun i _ => rfl, fun i own => (text i own).mpr (all i own)⟩⟩
  have along := fun kept => run_right_iff TurnStep (fun _ input => LeavesOpen input) Kept Untouched turn_step _ last moves
    run kept
  rw [← start]
  constructor
  · intro right
    have kept : Kept (initEnv env junk) := by
      cases run with
      | nil => exact right.1.2
      | cons _ _ _ act _ _ _ => exact right.1.1 _ List.mem_cons_self
    exact ⟨kept, (along kept).mp right⟩
  · rintro ⟨kept, leaves⟩
    exact (along kept).mpr leaves

-- "env -u ?", "env -u USER" and "env -s A x".
def unsetRet : Input := ⟨quietHost, [101, 110, 118, 32, 45, 117, 32, 63, 10]⟩
def unsetUser : Input := ⟨quietHost, [101, 110, 118, 32, 45, 117, 32, 85, 83, 69, 82, 10]⟩
def setA : Input := ⟨quietHost, [101, 110, 118, 32, 45, 115, 32, 65, 32, 120, 10]⟩

theorem shell_keeps_refused :
    ∃ (moves : List (Move State Input)) (last : State), moves.length = 2 ∧ Run TurnStep fullEnv moves last ∧
      Throughout Kept moves last ∧ ∀ move ∈ moves, Untouched move := by
  have run : Run TurnStep fullEnv _ _ := .cons _ _ _ setA _ rfl (.cons _ _ _ unsetUser [] rfl (.nil _))
  obtain ⟨along, right⟩ := (shell_keeps_iff emptyStrings (fun _ => none) _ _ run).mpr (by
    refine ⟨fun i _ => Option.some_ne_none _, ?_⟩
    rw [List.forall_mem_cons, List.forall_mem_cons]
    unfold LeavesOpen
    exact ⟨by decide, by decide, by simp⟩)
  exact ⟨_, _, rfl, run, along, right⟩

theorem env_unset_drops_ret :
    ¬∀ (env : Environ) (junk : Fin maxEnv → Option Bytes) (moves : List (Move State Input)) (last : State),
      (∀ i ≤ shll, env.envp i ≠ none) → Run TurnStep (initEnv env junk) moves last →
        Throughout Kept moves last ∧ ∀ move ∈ moves, Untouched move := by
  intro claim
  have run : Run TurnStep fullEnv _ _ := .cons _ _ _ unsetRet [] rfl (.nil _)
  have kept := (claim emptyStrings (fun _ => none) _ _ (fun _ _ => Option.some_ne_none _) run).1.2
  have gone : (after (unsetRet.run.run fullEnv)).envpValue ret = none := by decide
  exact kept.values ret (by decide) gone

end Yaup.Shell
