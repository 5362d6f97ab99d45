import Yaup.Lib.Text

set_option autoImplicit false

namespace Yaup

open Lib

def maxUserName : Nat := 32
def maxUserLine : Nat := 128
def maxPasswd : Nat := 27
def maxShdwLine : Nat := 128

def putByte (buff : Bytes) (i : Nat) (byte : UInt8) : Option Bytes :=
  if i < buff.length then some (buff.set i byte) else none

-- while (line[i] != ':' && goOn(i)) { buff[i] = line[i]; i++; }, from `line` at i on;
-- none is an access outside the line or the buffer.
def copyField (goOn : Nat → Bool) : Bytes → Nat → Bytes → Option (Nat × Bytes)
  | [], _, _ => none
  | byte :: rest, i, buff =>
      if byte ≠ 58 ∧ goOn i = true then (putByte buff i byte).bind (copyField goOn rest (i + 1))
      else some (i, buff)

def checkLine (goOn : Nat → Bool) (username line buff : Bytes) : Option (Bool × Bytes) := do
  let (i, buff) ← copyField goOn line 0 buff
  let buff ← putByte buff i 0
  let found ← sameString buff username
  return (found, buff)

-- The loop that get_user_line and match share: `goOn` is the bound match adds to its copy.
def findLine (size : Nat) (room : 1 < size) (goOn : Nat → Bool) (username : Bytes) (file : Stream)
    (line buff : Bytes) : Option (Bool × Bytes × Bytes) :=
  if _ : file.eof = false then
    let line' := (fgets size file line).2
    match checkLine goOn username line' buff with
    | none => none
    | some (true, buff') => some (true, line', buff')
    | some (false, buff') => findLine size room goOn username (fgets size file line).1 line' buff'
  else some (false, line, buff)
termination_by file.left
decreasing_by exact fgets_left size file line room (by assumption)

-- What the buffers that one round of main mallocs happen to hold.
structure Heap where
  userLine : Nat → UInt8
  user : Nat → UInt8
  passwd : Nat → UInt8
  line : Nat → UInt8
  buff : Nat → UInt8

def malloc (junk : Nat → UInt8) (size : Nat) : Bytes := (List.range size).map junk

@[simp] theorem malloc_length (junk : Nat → UInt8) (size : Nat) : (malloc junk size).length = size := by
  simp [malloc]

theorem malloc_cons (junk : Nat → UInt8) (n : Nat) :
    malloc junk (n + 1) = junk 0 :: malloc (fun i => junk (i + 1)) n := by
  rw [malloc, List.range_succ_eq_map, List.map_cons, List.map_map]
  rfl

def fopen (contents : Bytes) : Stream := { rest := contents, eof := false }

def getUserLine (heap : Heap) (passwd username : Bytes) : Option (Option Bytes) := do
  let (found, line, _) ← findLine maxUserLine (by decide) (fun _ => true) username (fopen passwd)
    (malloc heap.userLine maxUserLine) (malloc heap.user maxUserName)
  return if found then some line else none

def hasPassword : Bytes → Option Bool
  | [] => none
  | byte :: rest => if byte ≠ 58 then hasPassword rest else rest.head?.map fun next => next == 120

-- match: where it found the line it copies the line's first field a second time.
def matchPassword (heap : Heap) (shadow username password : Bytes) : Option Nat := do
  let (found, line, buff) ← findLine maxShdwLine (by decide) (fun i => decide (i < maxUserName)) username
    (fopen shadow) (malloc heap.line maxShdwLine) (malloc heap.buff maxShdwLine)
  if found then
    let (_, buff) ← copyField (fun _ => true) line 0 buff
    let same ← sameString buff password
    return if same then 1 else 0
  else return 1

def IsSpace (byte : UInt8) : Prop := byte = 32 ∨ 9 ≤ byte ∧ byte ≤ 13

structure Word where
  text : Bytes
  some : text ≠ []
  plain : ∀ byte ∈ text, byte ≠ 0 ∧ ¬ IsSpace byte

def scanWord (buffer : Bytes) (word : Word) : Option Bytes :=
  if word.text.length < buffer.length then
    some (word.text ++ 0 :: buffer.drop (word.text.length + 1))
  else none

-- One round of main's loop, with the password the user gives when asked for one: whether
-- it comes to execve, and the buffer of the user name.
def round (heap : Heap) (passwd shadow username : Bytes) (user password : Word) : Option (Bool × Bytes) := do
  let username ← scanWord username user
  match ← getUserLine heap passwd username with
  | none => return (false, username)
  | some userLine =>
      if ← hasPassword userLine then
        let typed ← scanWord (malloc heap.passwd maxPasswd) password
        let granted ← matchPassword heap shadow username typed
        return (decide (granted ≠ 0), username)
      else return (true, username)

-- main: the rounds that come to execve, each of which comes back only where execve fails.
def login (passwd shadow : Bytes) (heaps : Nat → Heap) (n : Nat) (username : Bytes) :
    List (Word × Word) → Option (List (Word × Word))
  | [] => some []
  | (user, password) :: typed => do
      let (reached, username) ← round (heaps n) passwd shadow username user password
      let later ← login passwd shadow heaps (n + 1) username typed
      return if reached then (user, password) :: later else later

end Yaup
