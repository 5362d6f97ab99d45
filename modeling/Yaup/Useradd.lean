import Yaup.LoginGuard
import Yaup.Shell

set_option autoImplicit false

namespace Yaup

open Lib

structure Arg where
  text : Bytes
  plain : 0 ∉ text

structure Options where
  mflag : Bool
  dflag : Bool
  gid : Int
  homeDir : Option Arg
  shell : Option Arg

-- The switch on argv[i][1], and whether it takes the next argument too. none is a
-- find_gid(NULL); "-g" only fills gps.
def takeOption (findGid : Arg → Int) (arg : Arg) (next : Option Arg) (options : Options) : Option (Options × Bool) :=
  match arg.text with
  | 45 :: 109 :: _ => some ({ options with mflag := true }, false)
  | 45 :: 68 :: _ => some ({ options with dflag := true }, false)
  | 45 :: 71 :: _ => next.map fun group => ({ options with gid := findGid group }, true)
  | 45 :: 103 :: _ => some (options, true)
  | 45 :: 104 :: _ => some ({ options with homeDir := next }, true)
  | 45 :: 115 :: _ => some ({ options with shell := next }, true)
  | _ => some (options, false)

def readOptions (findGid : Arg → Int) : List Arg → Options → Option Options
  | [], options => some options
  | arg :: rest, options =>
      match takeOption findGid arg rest.head? options with
      | none => none
      | some (options, false) => readOptions findGid rest options
      | some (options, true) =>
          match rest with
          | [] => some options
          | _ :: rest => readOptions findGid rest options

-- One run of useradd: its arguments, what its variables hold before they are set (`index`
-- is i), and what user_exists, get_uid and find_gid answer.
structure Useradd where
  argv : List Arg
  index : Nat
  junk : Options
  userExists : Bool
  getUid : Int
  findGid : Arg → Int

def Useradd.userName (run : Useradd) : Option Arg := run.argv[run.index]?

def Useradd.options (run : Useradd) : Option Options := readOptions run.findGid (run.argv.drop 2) run.junk

-- What sprintf writes: "%s%s:%d:%d::%s:%s".
def Useradd.userLine (run : Useradd) : Option Bytes := do
  let userName ← run.userName
  let options ← run.options
  let homeDir ← options.homeDir
  let shell ← options.shell
  return userName.text ++ ((if options.dflag then [58] else [58, 120]) ++ 58 :: (Shell.intText run.getUid ++
    58 :: (Shell.intText options.gid ++ 58 :: 58 :: (homeDir.text ++ 58 :: shell.text))))

def useradd (run : Useradd) (passwd : Bytes) : Option Bytes :=
  if run.userExists then some passwd
  else
    match run.userLine with
    | none => none
    | some line => if line.length < maxUserLine then some (passwd ++ line) else none

def useradds : List Useradd → Bytes → Option Bytes
  | [], passwd => some passwd
  | run :: later, passwd => (useradd run passwd).bind (useradds later)

def Useradd.givesD (run : Useradd) : Bool :=
  (readOptions run.findGid (run.argv.drop 2) { run.junk with dflag := false }).any fun options => options.dflag

structure Added where
  run : Useradd
  name : Arg
  named : run.userName = some name
  some : name.text ≠ []
  fresh : run.userExists = false

def Added.entry (added : Added) : Bytes := added.run.userLine.getD []

namespace Shell

theorem encoded_no_nul (c : Char) (low : c.val.toNat ≤ 127) (some : c.val.toNat ≠ 0) : 0 ∉ String.utf8EncodeChar c := by
  rw [String.utf8EncodeChar, if_pos low]
  intro member
  have zero : UInt8.ofNat c.val.toNat = 0 := (List.mem_singleton.mp member).symm
  have value := congrArg UInt8.toNat zero
  rw [UInt8.toNat_ofNat_of_lt' (Nat.lt_of_le_of_lt low (by decide))] at value
  exact some value

theorem digits_no_nul (n : Nat) : 0 ∉ n.repr.toByteArray.data.toList := by
  rw [Nat.repr, String.toByteArray_ofList, List.utf8Encode, List.data_toByteArray, List.toList_toArray, List.mem_flatMap]
  rintro ⟨c, member, zero⟩
  obtain ⟨above, below⟩ := Char.isDigit_iff_toNat.mp (Nat.isDigit_of_mem_toDigits (by decide) (by decide) member)
  have above : 48 ≤ c.val.toNat := above
  have below : c.val.toNat ≤ 57 := below
  exact encoded_no_nul c (by omega) (by omega) zero

theorem int_text_no_nul (n : Int) : 0 ∉ intText n := by
  cases n with
  | ofNat m => exact digits_no_nul m
  | negSucc m =>
      change 0 ∉ ("-" ++ (m + 1).repr).toByteArray.data.toList
      rw [String.toByteArray_append, ByteArray.data_append, Array.toList_append, List.mem_append]
      rintro (sign | digits)
      · revert sign
        decide
      · exact digits_no_nul _ digits

end Shell

def Options.flagged (flag : Bool) (options : Options) : Options := { options with dflag := flag || options.dflag }

theorem take_option_dflag (findGid : Arg → Int) (arg : Arg) (next : Option Arg) (options : Options) (flag : Bool) :
    takeOption findGid arg next (options.flagged flag) =
      (takeOption findGid arg next options).map fun taken => (taken.1.flagged flag, taken.2) := by
  unfold takeOption
  split
  · rfl
  · simp [Options.flagged]
  · cases next with
    | none => rfl
    | some group => rfl
  · rfl
  · rfl
  · rfl
  · rfl

theorem read_options_dflag (findGid : Arg → Int) (args : List Arg) (options : Options) (flag : Bool) :
    readOptions findGid args (options.flagged flag) = (readOptions findGid args options).map (·.flagged flag) := by
  induction args, options using readOptions.induct findGid with
  | case1 options => rfl
  | case2 arg rest options stopped =>
      rw [readOptions, readOptions, take_option_dflag, stopped]
      rfl
  | case3 arg rest options next taken ih =>
      rw [readOptions, readOptions, take_option_dflag, taken]
      exact ih
  | case4 arg options next taken =>
      rw [readOptions, readOptions, take_option_dflag, taken]
      rfl
  | case5 arg options next value rest taken ih =>
      rw [readOptions, readOptions, take_option_dflag, taken]
      exact ih

theorem options_dflag (run : Useradd) (options : Options) (read : run.options = some options) :
    options.dflag = (run.junk.dflag || run.givesD) := by
  have plain : run.junk = ({ run.junk with dflag := false } : Options).flagged run.junk.dflag := by
    rw [Options.flagged, Bool.or_false]
  rw [Useradd.options, plain, read_options_dflag] at read
  obtain ⟨last, same, rfl⟩ := Option.map_eq_some_iff.mp read
  rw [Useradd.givesD, same]
  rfl

theorem user_line_text (run : Useradd) (line : Bytes) (written : run.userLine = some line) :
    ∃ (name : Arg) (more : Bytes), run.userName = some name ∧ line = name.text ++ 58 :: more ∧
      (more.head? = some 120 ↔ ¬(run.junk.dflag || run.givesD) = true) ∧ more ≠ [] := by
  rw [Useradd.userLine] at written
  obtain ⟨name, named, written⟩ := Option.bind_eq_some_iff.mp written
  obtain ⟨options, read, written⟩ := Option.bind_eq_some_iff.mp written
  obtain ⟨homeDir, -, written⟩ := Option.bind_eq_some_iff.mp written
  obtain ⟨shell, -, written⟩ := Option.bind_eq_some_iff.mp written
  cases written
  rw [← options_dflag run options read]
  cases options.dflag with
  | true => exact ⟨name, _, named, rfl, by simp, by simp⟩
  | false => exact ⟨name, _, named, rfl, by simp, by simp⟩

theorem user_line_plain (run : Useradd) (line : Bytes) (written : run.userLine = some line) : 0 ∉ line := by
  rw [Useradd.userLine] at written
  obtain ⟨name, -, written⟩ := Option.bind_eq_some_iff.mp written
  obtain ⟨options, -, written⟩ := Option.bind_eq_some_iff.mp written
  obtain ⟨homeDir, -, written⟩ := Option.bind_eq_some_iff.mp written
  obtain ⟨shell, -, written⟩ := Option.bind_eq_some_iff.mp written
  cases written
  have flags : (0 : UInt8) ∉ (if options.dflag then [58] else [58, 120] : Bytes) := by
    split
    · decide
    · decide
  simp only [List.mem_append, List.mem_cons]
  rintro (user | flag | colon | uid | colon | gid | colon | unused | home | colon | file)
  · exact name.plain user
  · exact flags flag
  · exact absurd colon (by decide)
  · exact Shell.int_text_no_nul _ uid
  · exact absurd colon (by decide)
  · exact Shell.int_text_no_nul _ gid
  · exact absurd colon (by decide)
  · exact absurd unused (by decide)
  · exact homeDir.plain home
  · exact absurd colon (by decide)
  · exact shell.plain file

theorem useradds_run (added : List Added) (passwd final : Bytes) :
    useradds (added.map (·.run)) passwd = some final ↔
      (∀ a ∈ added, a.run.userLine = some a.entry ∧ a.entry.length < maxUserLine) ∧
        final = passwd ++ (added.map (·.entry)).flatten := by
  induction added generalizing passwd with
  | nil => simp [useradds, eq_comm]
  | cons a later ih =>
      rw [List.map_cons, useradds, useradd, a.fresh, List.forall_mem_cons]
      simp only [Bool.false_eq_true, if_false]
      cases written : a.run.userLine with
      | none => simp
      | some line =>
          have entry : a.entry = line := by rw [Added.entry, written]; rfl
          dsimp only
          by_cases room : line.length < maxUserLine
          · rw [if_pos room, Option.bind_some, ih]
            simp [entry, room]
          · rw [if_neg room]
            simp [entry, room]

end Yaup
