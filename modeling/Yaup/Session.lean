import Mathlib.Tactic.IntervalCases
import Yaup.LoginGuard
import Yaup.ShellEnv

set_option autoImplicit false

namespace Yaup

open Lib

namespace Login

def maxEnv : Nat := 25

instance : NeZero maxEnv := ⟨Nat.succ_ne_zero 24⟩

def who : Fin maxEnv := 0
def uid : Fin maxEnv := 1
def gid : Fin maxEnv := 2
def home : Fin maxEnv := 3
def shell : Fin maxEnv := 4
def pwd : Fin maxEnv := 5
def path : Fin maxEnv := 6

end Login

abbrev LoginEnv := Fin Login.maxEnv → Option Bytes

def LoginEnv.put (envp : LoginEnv) (i : Fin Login.maxEnv) (text : Option Bytes) : LoginEnv :=
  Function.update envp i text

-- "user", "1000", "100", "/home", "/bin/sh", "/" and "/bin:/sbin:/usr/bin:/usr/sbin"; the line
-- is not looked at.
def setEnvironment (_userLine : Bytes) (envp : LoginEnv) : LoginEnv :=
  (((((((envp.put Login.who (some [117, 115, 101, 114])).put Login.uid (some [49, 48, 48, 48])).put
    Login.gid (some [49, 48, 48])).put Login.home (some [47, 104, 111, 109, 101])).put
    Login.shell (some [47, 98, 105, 110, 47, 115, 104])).put Login.pwd (some [47])).put
    Login.path (some [47, 98, 105, 110, 58, 47, 115, 98, 105, 110, 58, 47, 117, 115, 114, 47, 98, 105, 110, 58,
      47, 117, 115, 114, 47, 115, 98, 105, 110])).put 7 none

-- The vector of the new program: the strings up to the first NULL.
def execve (envp : LoginEnv) (i : Fin Shell.maxEnv) : Option Bytes :=
  if ∀ j : Fin Login.maxEnv, j.val ≤ i.val → envp j ≠ none then envp (Fin.castLE (by decide) i) else none

structure Started (envp : LoginEnv) where
  environ : Shell.Environ
  same : ∀ i, environ.text i = execve envp i

def decimal (digits : Bytes) : Int :=
  (digits.takeWhile fun byte => 48 ≤ byte && byte ≤ 57).foldl (fun n byte => 10 * n + (byte.toNat - 48)) 0

def atoi (text : Bytes) : Int :=
  match text.dropWhile fun byte => byte = 32 || 9 ≤ byte && byte ≤ 13 with
  | 45 :: digits => -decimal digits
  | 43 :: digits => decimal digits
  | digits => decimal digits

namespace Shell

structure Start where
  chdir : Option Bytes
  setuid : Int
  setgid : Int

def start : Sh Start := do
  let s ← get
  let user ← value uid
  let group ← value gid
  return ⟨s.envpValue home, atoi user, atoi group⟩

def valueOf (s : State) (name : Option Bytes) : Option Bytes := (name.bind (envMap s)).join

end Shell

structure Account where
  name : Field
  type : Field
  uid : Field
  gid : Field
  unused : Field
  home : Field
  shell : Field
  fits : name.text.length < maxUserName

def Account.entry (account : Account) : Entry where
  name := account.name
  second := account.type
  others := [account.uid, account.gid, account.unused, account.home, account.shell]
  fits := account.fits

structure RunsAs (account : Account) (envp : LoginEnv) (s : Shell.State) : Prop where
  user : Shell.valueOf s Shell.initNames[Shell.who.val]? = some account.name.text
  uid : Shell.valueOf s Shell.initNames[Shell.uid.val]? = some account.uid.text
  gid : Shell.valueOf s Shell.initNames[Shell.gid.val]? = some account.gid.text
  home : Shell.valueOf s Shell.initNames[Shell.home.val]? = some account.home.text
  shell : Shell.valueOf s Shell.initNames[Shell.shll.val]? = some account.shell.text
  path : Shell.valueOf s Shell.initNames[Shell.path.val]? = envp Login.path
  starts : Shell.start.run s = .ok ⟨some account.home.text, atoi account.uid.text, atoi account.gid.text⟩ s

def loginValues : List Bytes :=
  [[117, 115, 101, 114], [49, 48, 48, 48], [49, 48, 48], [47, 104, 111, 109, 101], [47, 98, 105, 110, 47, 115, 104],
    [47], [47, 98, 105, 110, 58, 47, 115, 98, 105, 110, 58, 47, 117, 115, 114, 47, 98, 105, 110, 58, 47, 117, 115,
      114, 47, 115, 98, 105, 110]]

theorem set_environment_values (userLine : Bytes) (envp : LoginEnv) (i : Fin Login.maxEnv) (low : i.val ≤ 7) :
    setEnvironment userLine envp i = loginValues[i.val]? := by
  obtain ⟨i, inside⟩ := i
  have low : i ≤ 7 := low
  interval_cases i <;> rfl

theorem execve_values (userLine : Bytes) (envp : LoginEnv) (i : Fin Shell.maxEnv) (own : i ≤ Shell.shll) :
    execve (setEnvironment userLine envp) i = loginValues[i.val]? := by
  have low : i.val ≤ 7 := own
  by_cases last : i.val = 7
  · rw [execve, if_neg, last]
    · rfl
    · intro full
      exact full 7 (le_of_eq last.symm) rfl
  · rw [execve, if_pos, set_environment_values]
    · rfl
    · exact low
    · intro j before
      rw [set_environment_values userLine envp j (before.trans low), List.getElem?_eq_getElem]
      · exact Option.some_ne_none _
      · change j.val < 7
        omega

namespace Shell

theorem init_env_value (env : Environ) (junk : Fin maxEnv → Option Bytes) (i : Fin maxEnv) (own : i ≤ shll) :
    valueOf (initEnv env junk) initNames[i.val]? = env.text i := by
  have named : ∃ name, initNames[i.val]? = some name := by
    have all : ∀ i : Fin maxEnv, i ≤ shll → ∃ name ∈ initNames, initNames[i.val]? = some name := by decide
    obtain ⟨name, -, same⟩ := all i own
    exact ⟨name, same⟩
  obtain ⟨name, here⟩ := named
  have held : envMap (initEnv env junk) name = some (env.text i) := by
    rw [envMap, read_slot_some _ _ name i (init_env_tracks env junk).distinct here]
    exact congrArg some (init_env_own env junk i own)
  rw [valueOf, here, Option.bind_some, held, Option.join_some]

end Shell

section
variable (userLine : Bytes) (envp : LoginEnv) (started : Started (setEnvironment userLine envp))
  (junk : Fin Shell.maxEnv → Option Bytes)

def session : Shell.State := Shell.initEnv started.environ junk

-- PATH gets the file of the shell, "?" the search path, and SHELL the NULL of the end.
theorem session_values (i : Fin Shell.maxEnv) (own : i ≤ Shell.shll) :
    Shell.valueOf (session userLine envp started junk) Shell.initNames[i.val]? = loginValues[i.val]? := by
  rw [session, Shell.init_env_value _ junk i own, started.same, execve_values userLine envp i own]

theorem session_never_as_entry (account : Account) :
    ¬RunsAs account (setEnvironment userLine envp) (session userLine envp started junk) := by
  intro runs
  have seen := runs.shell
  rw [session_values userLine envp started junk Shell.shll le_rfl] at seen
  cases seen

end

def loginEnviron : Shell.Environ where
  strings := loginValues.flatMap fun text => text ++ [0]
  envp := fun i => if i.val < 7 then some ((loginValues.take i.val).flatMap fun text => text ++ [0]).length else none
  ended := by decide

def loginStarted (userLine : Bytes) (envp : LoginEnv) : Started (setEnvironment userLine envp) where
  environ := loginEnviron
  same := by
    intro i
    have all : ∀ i : Fin Shell.maxEnv, loginEnviron.text i = loginValues[i.val]? := by decide
    rw [all i]
    by_cases own : i ≤ Shell.shll
    · exact (execve_values userLine envp i own).symm
    · have late : 7 < i.val := Nat.lt_of_not_le own
      rw [execve, if_neg fun full => full 7 (le_of_lt late) rfl, List.getElem?_eq_none_iff]
      exact le_of_lt late

-- ann:x:7:7::/ann:/bin/sh
def annAccount : Account where
  name := ⟨[97, 110, 110], plain_text _ rfl⟩
  type := ⟨[120], plain_text _ rfl⟩
  uid := ⟨[55], plain_text _ rfl⟩
  gid := ⟨[55], plain_text _ rfl⟩
  unused := ⟨[], plain_text _ rfl⟩
  home := ⟨[47, 97, 110, 110], plain_text _ rfl⟩
  shell := ⟨[47, 98, 105, 110, 47, 115, 104], plain_text _ rfl⟩
  fits := by decide

def annPasswd : AccountFile maxUserLine := ⟨[annAccount.entry], true, by decide⟩

theorem session_loses_identity :
    ¬∀ (passwd : AccountFile maxUserLine) (account : Account) (heap : Heap) (username line : Bytes) (envp : LoginEnv)
      (started : Started (setEnvironment line envp)) (junk : Fin Shell.maxEnv → Option Bytes), account.entry ∈ passwd.entries →
      Holds username account.name.text →
      getUserLine heap passwd.bytes username = some (some line) →
        RunsAs account (setEnvironment line envp) (session line envp started junk) := by
  intro claim
  have named : Holds [97, 110, 110, 0] annAccount.name.text := holds_text annAccount.name.text []
  rcases get_user_line_entries (.filled 0) annPasswd [97, 110, 110, 0] annAccount.name.text named (by decide)
    (by decide) with ⟨missing, -⟩ | ⟨e, line, -, -, got⟩
  · cases missing
  · have runs := claim annPasswd annAccount (.filled 0) [97, 110, 110, 0] line (fun _ => none) (loginStarted line _) (fun _ => none)
      List.mem_cons_self named got
    have user := runs.user
    rw [session_values line (fun _ => none) (loginStarted line _) (fun _ => none) Shell.who (by decide)] at user
    revert user
    decide

end Yaup
