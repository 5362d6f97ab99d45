import Mathlib.Algebra.GroupWithZero.Nat
import Mathlib.Data.Fin.Tuple.Basic
import Yaup.Lib.Outcome
import Yaup.Lib.Words

set_option autoImplicit false

namespace Yaup.Shell

open Lib

def maxEnv : Nat := 15
def buffSz : Nat := 512

instance : NeZero maxEnv := ⟨Nat.succ_ne_zero 14⟩

def who : Fin maxEnv := 0
def uid : Fin maxEnv := 1
def gid : Fin maxEnv := 2
def home : Fin maxEnv := 3
def path : Fin maxEnv := 4
def pwd : Fin maxEnv := 5
def ret : Fin maxEnv := 6
def shll : Fin maxEnv := 7

def eintr : Int := 4
def e2big : Int := 7
def einval : Int := 22

-- exit(); an access through a NULL pointer or outside an object; the value of a variable
-- that is NULL; and a call through an entry past the end of the functions table.
inductive Trap where
  | exit
  | fault
  | missing (i : Fin maxEnv)
  | wild (i : Nat)
deriving DecidableEq

-- What the shell calls: an entry of the functions table, or exec_cmd with the file that
-- find_cmd put in the place of the first word.
inductive Call where
  | builtin (i : Nat) (argv : List Bytes)
  | exec (file : Option Bytes) (argv : List Bytes)
deriving DecidableEq

inductive Pointer where
  | inherited (place : Nat)
  | own (text : Bytes)
deriving DecidableEq

-- A name is the string its pointer points to, none for NULL. `strings` is the memory of the
-- inherited strings, to where it ends, and `calls` what the shell has called so far.
structure State where
  envpName : Fin maxEnv → Option Bytes
  envpPointer : Fin maxEnv → Option Pointer
  strings : Bytes
  calls : List Call

def textAt (strings : Bytes) (place : Nat) : Bytes := (strings.drop place).takeWhile fun byte => byte ≠ 0

def Pointer.text (strings : Bytes) : Pointer → Bytes
  | .inherited place => textAt strings place
  | .own text => text

def State.envpValue (s : State) (i : Fin maxEnv) : Option Bytes := (s.envpPointer i).map (Pointer.text s.strings)

theorem value_none_iff (s : State) (i : Fin maxEnv) : s.envpValue i = none ↔ s.envpPointer i = none :=
  Option.map_eq_none_iff

abbrev Sh (α : Type) := EStateM Trap State α

-- What the system answers while one command runs: the errno of a chdir that fails, whether
-- a sleep is cut short, what tee answers (none where it closes an output that it could not
-- open), the names in a directory (none where opendir fails) and the status of an exec_cmd.
-- `junk` is the string in a block from malloc, `past` what lies after the 32 bytes of a
-- name, and `state` an int that is not set.
structure Host where
  chdir : Option Bytes → Option Int
  sleep : Bytes → Bool
  tee : List Bytes → Option Int
  readdir : Bytes → Option (List Bytes)
  exec : Option Bytes → List Bytes → Int
  junk : Bytes
  past : Bytes
  state : Int

def fault {α : Type} : Sh α := throw .fault

def value (i : Fin maxEnv) : Sh Bytes := do
  let s ← get
  match s.envpValue i with
  | none => throw (.missing i)
  | some text => return text

theorem value_run (i : Fin maxEnv) (s : State) (text : Bytes) (seen : s.envpValue i = some text) :
    (value i).run s = .ok text s := by
  rw [value, run_get_bind, seen]
  rfl

theorem value_missing (i : Fin maxEnv) (s : State) (unseen : s.envpValue i = none) :
    (value i).run s = .error (.missing i) s := by
  rw [value, run_get_bind, unseen]
  rfl

def State.setName (s : State) (i : Fin maxEnv) (name : Option Bytes) : State :=
  { s with envpName := Function.update s.envpName i name }

@[simp] theorem State.setName_value (s : State) (i : Fin maxEnv) (name : Option Bytes) :
    (s.setName i name).envpValue = s.envpValue := rfl

def State.setValue (s : State) (i : Fin maxEnv) (text : Option Bytes) : State :=
  { s with envpPointer := Function.update s.envpPointer i (text.map .own) }

@[simp] theorem State.setValue_value (s : State) (i : Fin maxEnv) (text : Option Bytes) :
    (s.setValue i text).envpValue = Function.update s.envpValue i text := by
  funext j
  by_cases same : j = i
  · subst same
    cases text with
    | none => simp [setValue, envpValue]
    | some text => simp [setValue, envpValue, Pointer.text]
  · simp [setValue, envpValue, same]

def State.log (s : State) (call : Call) : State := { s with calls := s.calls ++ [call] }

def nameSz : Nat := 32
def valueSz : Nat := 256

-- What strncpy(envp_name[i], name, 32) leaves there, read as a string.
def nameText (host : Host) (name : Bytes) : Bytes :=
  if name.length < nameSz then name else name.take nameSz ++ host.past

-- The slot where the loops of env_set, env_unset and echo end: the first that has no name,
-- or the name they look for.
def envSlot (s : State) (name : Bytes) : Option (Fin maxEnv) :=
  Fin.find? fun i => decide (s.envpName i = none ∨ s.envpName i = some name)

def valueText (words : List Bytes) : Bytes := words.flatMap fun word => word ++ [32]

def envSet (host : Host) : List Bytes → Sh Int
  | name :: first :: more => do
      let text := host.junk ++ valueText (first :: more)
      if text.length ≥ valueSz then fault
      let s ← get
      match envSlot s name with
      | none => return e2big
      | some i =>
          if s.envpName i = none then
            set ((s.setName i (some (nameText host name))).setValue i (some text))
          else
            set (s.setValue i (some text))
          return 0
  | _ => return einval

def envUnset : List Bytes → Sh Int
  | [] => return einval
  | name :: _ => do
      let s ← get
      match envSlot s name with
      | none => return einval
      | some i =>
          if s.envpName i = none then fault
          if i.val ≤ 5 then return einval
          set ((s.setName i none).setValue i none)
          return 0

-- The loop of env_list, from slot to slot; past the last one it reads outside the table.
def envList : List (Fin maxEnv) → Sh Int
  | [] => fault
  | i :: rest => do
      let s ← get
      if s.envpName i = none then return 0
      let _ ← value i
      envList rest

def yashEnv (host : Host) : List Bytes → Sh Int
  | _ :: (45 :: 108 :: _) :: _ => envList (List.finRange maxEnv)
  | _ :: (45 :: 115 :: _) :: argv => envSet host argv
  | _ :: (45 :: 117 :: _) :: argv => envUnset argv
  | _ :: (45 :: 104 :: _) :: _ => return 0
  | _ :: (45 :: _) :: _ => return einval
  | _ :: _ :: _ => return host.state
  | _ => envList (List.finRange maxEnv)

def yashCd (host : Host) (argv : List Bytes) : Sh Int := return (host.chdir argv[1]?).getD 0

def yashClear : Sh Int := return 0

-- What echo prints is left out.
def yashEcho : List Bytes → Sh Int
  | _ :: (36 :: name) :: _ => do
      let s ← get
      match envSlot s name with
      | none => return 0
      | some i =>
          if s.envpName i = none then fault
          let _ ← value i
          return 0
  | _ :: _ :: _ => return 0
  | _ => fault

def yashExit : Sh Int := throw .exit

def yashPwd : Sh Int := do
  let _ ← value pwd
  return 0

def yashSleep (host : Host) : List Bytes → Sh Int
  | _ :: secs :: _ => return if host.sleep secs then eintr else 0
  | _ => return einval

def yashTee (host : Host) (argv : List Bytes) : Sh Int := do
  match host.tee argv.tail with
  | none => fault
  | some status => return status

def yashWho : Sh Int := do
  let _ ← value who
  return 0

-- "cd", "clear", "echo", "env", "exit", "pwd", "sleep", "tee", "time" and "who".
def builtins : List Bytes :=
  [[99, 100], [99, 108, 101, 97, 114], [101, 99, 104, 111], [101, 110, 118], [101, 120, 105, 116],
    [112, 119, 100], [115, 108, 101, 101, 112], [116, 101, 101], [116, 105, 109, 101], [119, 104, 111]]

inductive Function where
  | cd | clear | echo | env | exit | pwd | sleep | tee | time | who
deriving DecidableEq

def functions : List Function := [.cd, .clear, .echo, .env, .exit, .pwd, .sleep, .tee, .time, .who]

def selectCmd (builtins : List Bytes) : Option Bytes → Int
  | none => -2
  | some cmd => ((builtins.idxOf? cmd).map Int.ofNat).getD (-1)

-- `call i` is (*functions[i])(argv) for the rest of the line.
def yashTime (call : Nat → Sh Int) : Option Bytes → Sh Int
  | none => return einval
  | some cmd =>
      let i := selectCmd builtins (some cmd)
      if i = -1 then call 11 else call i.toNat

-- (*functions[i])(argv); after the last function the table has a NULL entry.
def callFunction (host : Host) (argv : List Bytes) (i : Nat) : Sh Int := do
  modify fun s => s.log (.builtin i argv)
  match functions[i]? with
  | none => throw (if i = functions.length then .fault else .wild i)
  | some .cd => yashCd host argv
  | some .clear => yashClear
  | some .echo => yashEcho argv
  | some .env => yashEnv host argv
  | some .exit => yashExit
  | some .pwd => yashPwd
  | some .sleep => yashSleep host argv
  | some .tee => yashTee host argv
  | some .time =>
      match argv with
      | _ :: cmd :: rest => yashTime (callFunction host (cmd :: rest)) (some cmd)
      | _ => yashTime (fun _ => fault) none
  | some .who => yashWho

-- The directories of the path, up to one that cannot be opened.
def findIn (host : Host) (cmd : Bytes) : List Bytes → Option Bytes
  | [] => none
  | token :: rest =>
      match host.readdir token with
      | none => none
      | some names => if cmd ∈ names ∧ cmd ≠ [46, 46] ∧ cmd ≠ [46] then some token else findIn host cmd rest

def findCmd (host : Host) (cmd : Bytes) : Sh (Option Bytes) := do
  let text ← value path
  if text.length ≥ buffSz then fault
  match findIn host cmd (tokens (fun byte => byte = 58) text) with
  | none => return none
  | some token =>
      if token.length + 1 + cmd.length ≥ buffSz then fault
      return some (token ++ 47 :: cmd)

-- The string in the buffer: read_line reads up to a newline or the end of the input.
def readLine (stdin : Bytes) : Bytes := (stdin.takeWhile fun byte => byte ≠ 10).takeWhile fun byte => byte ≠ 0

def isBlank (byte : UInt8) : Bool := byte = 32 || byte = 9 || byte = 10 || byte = 13 || byte = 7

def tokensSz : Nat := 64

-- The realloc of split_line gives fewer bytes than there were: a 64th word is past the end.
def splitLine (line : Bytes) : Sh (List Bytes) := do
  let words := tokens isBlank line
  if words.length ≥ tokensSz then fault
  return words

def intText (n : Int) : Bytes := (toString n).toUTF8.data.toList

def statusText (status : Int) : Bytes := intText (status.bmod (2 ^ 32))

-- What strncpy(..., ret, 12) writes: the digits, and NUL up to twelve bytes.
def statusBytes (status : Int) : Bytes := (statusText status ++ List.replicate 12 0).take 12

def putAt (strings : Bytes) (place : Nat) (data : Bytes) : Bytes :=
  strings.take place ++ data ++ strings.drop (place + data.length)

-- sprintf and strncpy into the value of RET. Where that is an inherited string, what is behind a
-- short one is overwritten too.
def storeRet (status : Int) : Sh Unit := do
  let s ← get
  match s.envpPointer ret with
  | none => throw (.missing ret)
  | some (.own _) => set (s.setValue ret (some (statusText status)))
  | some (.inherited place) =>
      if place + 12 > s.strings.length then fault
      set { s with strings := putAt s.strings place (statusBytes status) }

def State.stored (s : State) (status : Int) : State :=
  match s.envpPointer ret with
  | some (.inherited place) => { s with strings := putAt s.strings place (statusBytes status) }
  | _ => s.setValue ret (some (statusText status))

def RetRoom (s : State) : Prop :=
  match s.envpPointer ret with
  | none => False
  | some (.own _) => True
  | some (.inherited place) => place + 12 ≤ s.strings.length

theorem store_ret_run (status : Int) (s : State) (room : RetRoom s) :
    (storeRet status).run s = .ok () (s.stored status) := by
  rw [storeRet, run_get_bind, State.stored]
  rw [RetRoom] at room
  match held : s.envpPointer ret with
  | none =>
      rw [held] at room
      exact room.elim
  | some (.own text) => rfl
  | some (.inherited place) =>
      rw [held] at room
      dsimp only at room ⊢
      rw [if_neg (by omega)]
      rfl

theorem store_ret_stops (status : Int) (s : State) (full : ¬RetRoom s) :
    ∃ e, (storeRet status).run s = .error e s ∧ (e = .fault ∨ e = .missing ret ∧ s.envpValue ret = none) := by
  rw [storeRet, run_get_bind]
  rw [RetRoom] at full
  match held : s.envpPointer ret with
  | none => exact ⟨_, rfl, .inr ⟨rfl, (value_none_iff s ret).mpr held⟩⟩
  | some (.own text) =>
      rw [held] at full
      exact absurd trivial full
  | some (.inherited place) =>
      rw [held] at full
      dsimp only at full ⊢
      rw [if_pos (by omega)]
      exact ⟨_, rfl, .inl rfl⟩

@[simp] theorem stored_names (s : State) (status : Int) : (s.stored status).envpName = s.envpName := by
  rw [State.stored]
  split
  · rfl
  · rfl

theorem stored_value (s : State) (status : Int) (i : Fin maxEnv) (held : s.envpValue i ≠ none) :
    (s.stored status).envpValue i ≠ none := by
  rw [State.stored]
  split
  · rw [ne_eq, value_none_iff] at held ⊢
    exact held
  · rw [State.setValue_value]
    by_cases same : i = ret
    · rw [same, Function.update_self]
      exact Option.some_ne_none _
    · rwa [Function.update_of_ne same]

theorem stored_pointer (s : State) (status : Int) (i : Fin maxEnv) (other : i ≠ ret) :
    (s.stored status).envpPointer i = s.envpPointer i := by
  rw [State.stored]
  split
  · rfl
  · exact Function.update_of_ne other _ _

theorem status_bytes_length (status : Int) : (statusBytes status).length = 12 := by
  simp [statusBytes]

theorem put_at_outside (strings : Bytes) (place : Nat) (data : Bytes) (room : place + data.length ≤ strings.length) (j : Nat)
    (outside : j < place ∨ place + data.length ≤ j) : (putAt strings place data)[j]? = strings[j]? := by
  have size : (strings.take place).length = place := List.length_take_of_le (by omega)
  rcases outside with before | behind
  · rw [putAt, List.append_assoc, List.getElem?_append_left (by omega), List.getElem?_take_of_lt before]
  · rw [putAt, List.getElem?_append_right (by rw [List.length_append]; omega), List.getElem?_drop, List.length_append, size]
    congr 1
    omega

theorem stored_outside (s : State) (status : Int) (room : RetRoom s) (j : Nat)
    (outside : ∀ place, s.envpPointer ret = some (.inherited place) → j < place ∨ place + 12 ≤ j) :
    (s.stored status).strings[j]? = s.strings[j]? := by
  rw [State.stored]
  rw [RetRoom] at room
  match held : s.envpPointer ret with
  | none => rfl
  | some (.own text) => rfl
  | some (.inherited place) =>
      rw [held] at room
      have size := status_bytes_length status
      refine put_at_outside s.strings place _ (by rw [size]; exact room) j ?_
      rw [size]
      exact outside place held

@[simp] theorem stored_calls (s : State) (status : Int) : (s.stored status).calls = s.calls := by
  rw [State.stored]
  split
  · rfl
  · rfl

-- main's loop from the line on; `i` is unsigned.
def runLine (host : Host) (line : Bytes) : Sh Unit := do
  let cmd ← splitLine line
  let i : UInt32 := UInt32.ofInt (selectCmd builtins cmd.head?)
  if i = UInt32.ofInt (-1) then
    let file ← findCmd host (cmd.headD [])
    modify fun s => s.log (.exec file cmd.tail)
    storeRet (host.exec file cmd.tail)
  else if i ≥ 0 then
    let status ← callFunction host cmd i.toNat
    storeRet status

def prompt : Sh Unit := do
  let _ ← value who

def turn (host : Host) (stdin : Bytes) : Sh Unit := do
  prompt
  runLine host (readLine stdin)

-- "USER", "UID", "GID", "HOME", "PATH", "PWD", "?" and "SHELL".
def initNames : List Bytes :=
  [[85, 83, 69, 82], [85, 73, 68], [71, 73, 68], [72, 79, 77, 69], [80, 65, 84, 72], [80, 87, 68], [63],
    [83, 72, 69, 76, 76]]

-- The vector that the shell is started with: each string is in the memory up to its end.
structure Environ where
  strings : Bytes
  envp : Fin maxEnv → Option Nat
  ended : ∀ i place, envp i = some place → 0 ∈ strings.drop place

def Environ.text (env : Environ) (i : Fin maxEnv) : Option Bytes := (env.envp i).map (textAt env.strings)

-- `junk` is what the block of the values has where init_env sets none.
def initEnv (env : Environ) (junk : Fin maxEnv → Option Bytes) : State where
  envpName := fun i => initNames[i.val]?
  envpPointer := fun i => if i ≤ shll then (env.envp i).map .inherited else (junk i).map .own
  strings := env.strings
  calls := []

theorem init_env_own (env : Environ) (junk : Fin maxEnv → Option Bytes) (i : Fin maxEnv) (own : i ≤ shll) :
    (initEnv env junk).envpValue i = env.text i := by
  change (if i ≤ shll then (env.envp i).map Pointer.inherited else (junk i).map .own).map (Pointer.text env.strings) = _
  rw [if_pos own, Option.map_map]
  rfl

def noStrings : Environ := ⟨[], fun _ => none, by simp⟩

def emptyStrings : Environ := ⟨List.replicate 32 0, fun i => some i, by decide⟩

def bareEnv : State := initEnv noStrings fun _ => none

def fullEnv : State := initEnv emptyStrings fun _ => none

def quietHost : Host where
  chdir := fun _ => none
  sleep := fun _ => false
  tee := fun _ => some 0
  readdir := fun _ => none
  exec := fun _ _ => 0
  junk := []
  past := []
  state := 0

end Yaup.Shell
