import Yaup.Cmp
import Yaup.Counts
import Yaup.CpRight
import Yaup.FileLines
import Yaup.Grep
import Yaup.Nl
import Yaup.RmMain
import Yaup.Sum
import Yaup.Translate

set_option autoImplicit false

namespace Yaup.Busybox

open Lib

def Fs.fopen (sys : System) (fs : Fs) (path : Bytes) : Option Bytes :=
  (fs.locate path).bind fun p => if sys.read p = true then some (fs.contents sys p) else none

inductive Print where
  | text (bytes : Bytes)
  | name (path : Bytes)
  | counts (n : Counts)
  | dump (prints : List OdPrint)
  | numbered (lines : List NlPrint)
  | sum (checksum blocks : Nat) (path : Bytes)
  | found (lines : List Bytes)
  | usage

-- How main does not get to its return: the exit of print_help, head's and tail's test of argv[1], the errx
-- behind S_ISREG, the err behind fopen, and an exit or undefined behaviour inside the work.
inductive Stop where
  | usage
  | invalid
  | irregular (path : Bytes)
  | unopened (path : Bytes)
  | inside

-- What is left of stdin, and the number of files that the tool has worked on.
structure Feed where
  stdin : Bytes
  files : Nat

-- What a run depends on besides its files: COLUMNS, the sign of char, and for each call on a
-- file st_blksize and what nl (NULL or a block) and grep find in memory that nothing has written.
structure Ambient where
  sys : System
  columns : Option Bytes
  signed : Bool
  blksize : Nat → Nat
  cells : Nat → Option Bytes
  block : Nat → Nat → UInt8
  found : Nat → Bool
  turns : Nat

structure Ended where
  out : List Print
  stop : Option Stop
  feed : Feed

abbrev Work := Bytes → Bytes → Feed → Option (List Print × Feed)

-- for (; i < argc; i++); what stat does not find leaves st as it was.
def fileLoop (sys : System) (fs : Fs) (work : Work) : List Bytes → Kind → Feed → Ended
  | [], _, feed => ⟨[], none, feed⟩
  | path :: rest, st, feed =>
      let st := fs.statKind path st
      if st ≠ .reg then ⟨[], some (.irregular path), feed⟩
      else
        match fs.fopen sys path with
        | none => ⟨[], some (.unopened path), feed⟩
        | some data =>
            match work path data feed with
            | none => ⟨[], some .inside, feed⟩
            | some (out, feed) =>
                let later := fileLoop sys fs work rest st feed
                { later with out := out ++ later.out }

def helpAsked (argv : List Bytes) : Bool :=
  argv.length = 2 ∧ (argv.getD 1 []).head? = some 45 ∧ (argv.getD 1 [])[1]? = some 104

def Feed.next (feed : Feed) : Feed := { feed with files := feed.files + 1 }

def catWork : Work := fun _ data feed => some ([.text data], feed.next)

def headWork (amb : Ambient) (lines : Int) : Work := fun _ data feed => do
  let columns ← amb.columns
  let (out, stdin) ← head columns data lines feed.stdin
  return ([.text out], ⟨stdin, feed.files + 1⟩)

-- tail() is not written yet, and its errx ends the program.
def tailWork : Work := fun _ _ _ => none

def trWork (amb : Ambient) (str1 str2 : Bytes) : Work := fun _ data feed => do
  let out ← (translate amb.signed data str1 str2).toOption
  return ([.text out], feed.next)

def wcWork : Work := fun path data feed => do
  let n ← (wc data).toOption
  return ([.name path, .counts n], feed.next)

def nlWork (amb : Ambient) : Work := fun _ data feed => do
  let lines ← (nl (amb.cells feed.files) data).toOption
  return ([.numbered lines], feed.next)

def odWork : Work := fun _ data feed => some ([.dump (od data)], feed.next)

def sumWork (amb : Ambient) : Work := fun path data feed =>
  if amb.blksize feed.files = 0 then none
  else some ([.sum (sum data) (data.length / amb.blksize feed.files) path], feed.next)

def grepWork (amb : Ambient) (pattern : Bytes) : Work := fun _ data feed => do
  let turns ← (grep pattern (amb.block feed.files) (amb.found feed.files) data amb.turns).toOption
  return ([.found ((turns.filter GrepTurn.printed).map GrepTurn.text)], feed.next)

section
variable (amb : Ambient) (fs : Fs) (junk : Kind) (argv : List Bytes) (feed : Feed)

-- `junk` is what st holds before the first stat.
def catMain : Ended :=
  if argv.length = 1 then ⟨[.text feed.stdin], none, ⟨[], feed.files + 1⟩⟩
  else if helpAsked argv then ⟨[], some .usage, feed⟩
  else fileLoop amb.sys fs catWork (argv.drop 1) junk feed

def headMain : Ended :=
  if argv.length < 3 then ⟨[], some .usage, feed⟩
  else if dashed argv then
    fileLoop amb.sys fs (headWork amb (atoi ((argv.getD 1 []).drop 1))) (argv.drop 2) junk feed
  else ⟨[], some .invalid, feed⟩

def tailMain : Ended :=
  if argv.length < 3 then ⟨[], some .usage, feed⟩
  else if dashed argv then fileLoop amb.sys fs tailWork (argv.drop 2) junk feed
  else ⟨[], some .invalid, feed⟩

def trMain : Ended :=
  if argv.length < 4 then ⟨[], some .usage, feed⟩
  else fileLoop amb.sys fs (trWork amb (argv.getD 1 []) (argv.getD 2 [])) (argv.drop 3) junk feed

def wcMain : Ended :=
  if argv.length = 1 then
    match wc feed.stdin with
    | .ok n => ⟨[.counts n], none, ⟨[], feed.files + 1⟩⟩
    | .error _ => ⟨[], some .inside, feed⟩
  else if helpAsked argv then ⟨[], some .usage, feed⟩
  else fileLoop amb.sys fs wcWork (argv.drop 1) junk feed

-- Without operands fp is stdin, and nothing is read from it. nl's usage goes to stdout.
def nlMain : Ended :=
  if helpAsked argv then ⟨[.usage], some .usage, feed⟩
  else fileLoop amb.sys fs (nlWork amb) (argv.drop 1) junk feed

-- od's print_help comes back, and there is no operand then.
def odMain : Ended := fileLoop amb.sys fs odWork (argv.drop 1) junk feed

def sumMain : Ended :=
  if argv.length < 2 then ⟨[], some .usage, feed⟩
  else fileLoop amb.sys fs (sumWork amb) (argv.drop 1) junk feed

def grepMain : Ended :=
  if argv.length < 3 then ⟨[], some .usage, feed⟩
  else fileLoop amb.sys fs (grepWork amb (argv.getD 1 [])) (argv.drop 2) junk feed

end

def cmpOpen (sys : System) (fs : Fs) (path : Bytes) (st : Kind) : Except Stop (Bytes × Kind) :=
  let st := fs.statKind path st
  if st ≠ .reg then .error (.irregular path)
  else
    match fs.fopen sys path with
    | none => .error (.unopened path)
    | some data => .ok (data, st)

-- st is one struct for both files, and c1 and c2 are not set in cmp.
def cmpMain (sys : System) (c1 c2 : Option UInt8) (junk : Kind) (fs : Fs) (argv : List Bytes) : Except Stop Report :=
  if argv.length ≠ 3 then .error .usage
  else do
    let (f1, st) ← cmpOpen sys fs (argv.getD 1 []) junk
    let (f2, _) ← cmpOpen sys fs (argv.getD 2 []) st
    (cmp c1 c2 f1 f2).mapError fun _ => .inside

inductive Printer where
  | cat | head | tail | tr | wc | nl | od | sum | grep

def Printer.main (amb : Ambient) : Printer → Fs → Kind → List Bytes → Feed → Ended
  | .cat => catMain amb
  | .head => headMain amb
  | .tail => tailMain amb
  | .tr => trMain amb
  | .wc => wcMain amb
  | .nl => nlMain amb
  | .od => odMain amb
  | .sum => sumMain amb
  | .grep => grepMain amb

def Printer.first : Printer → Nat
  | .head | .tail | .grep => 2
  | .tr => 3
  | _ => 1

def Printer.work (amb : Ambient) (argv : List Bytes) : Printer → Work
  | .cat => catWork
  | .head => headWork amb (atoi ((argv.getD 1 []).drop 1))
  | .tail => tailWork
  | .tr => trWork amb (argv.getD 1 []) (argv.getD 2 [])
  | .wc => wcWork
  | .nl => nlWork amb
  | .od => odWork
  | .sum => sumWork amb
  | .grep => grepWork amb (argv.getD 1 [])

structure Printer.Asked (tool : Printer) (argv : List Bytes) : Prop where
  files : tool.first < argv.length
  dashed : tool = .head ∨ tool = .tail → dashed argv = true
  help : helpAsked argv = false

def Fs.Readable (sys : System) (fs : Fs) (path data : Bytes) : Prop :=
  ∃ p, fs.locate path = some p ∧ fs.tree.kindAt p = some .reg ∧ fs.fopen sys path = some data

inductive Printed (sys : System) (fs : Fs) (work : Work) : List Bytes → Feed → List Print → Feed → Prop where
  | done (feed : Feed) : Printed sys fs work [] feed [] feed
  | file (path data : Bytes) (rest : List Bytes) (feed next last : Feed) (out later : List Print)
      (there : fs.Readable sys path data) (worked : work path data feed = some (out, next))
      (others : Printed sys fs work rest next later last) : Printed sys fs work (path :: rest) feed (out ++ later) last

-- Why a tool stops at an operand; `reg` says that st has a regular file's mode from before.
inductive Refuses (sys : System) (fs : Fs) (work : Work) (reg : Prop) (path : Bytes) (feed : Feed) : Stop → Prop where
  | irregular (p : Place) (kind : Kind) (located : fs.locate path = some p) (here : fs.tree.kindAt p = some kind)
      (other : kind ≠ .reg) : Refuses sys fs work reg path feed (.irregular path)
  | stray (missing : fs.locate path = none) (unset : ¬reg) : Refuses sys fs work reg path feed (.irregular path)
  | missing (missing : fs.locate path = none) (stale : reg) : Refuses sys fs work reg path feed (.unopened path)
  | closed (p : Place) (located : fs.locate path = some p) (here : fs.tree.kindAt p = some .reg)
      (barred : sys.read p = false) : Refuses sys fs work reg path feed (.unopened path)
  | inside (data : Bytes) (there : fs.Readable sys path data) (fails : work path data feed = none) :
      Refuses sys fs work reg path feed .inside

structure Prints (sys : System) (fs : Fs) (work : Work) (paths : List Bytes) (reg : Prop) (feed : Feed) (t : Ended)
    (shown rest : List Bytes) : Prop where
  operands : paths = shown ++ rest
  printed : Printed sys fs work shown feed t.out t.feed
  ended : rest = [] → t.stop = none
  refused : ∀ path later, rest = path :: later →
    ∃ why, t.stop = some why ∧ Refuses sys fs work (shown ≠ [] ∨ reg) path t.feed why

theorem fopen_missing (sys : System) (fs : Fs) (path : Bytes) (missing : fs.locate path = none) :
    fs.fopen sys path = none := by
  rw [Fs.fopen, missing]
  rfl

theorem fopen_closed (sys : System) (fs : Fs) (path : Bytes) (p : Place) (located : fs.locate path = some p)
    (closed : fs.fopen sys path = none) : sys.read p = false := by
  rw [Fs.fopen, located, Option.bind_some] at closed
  cases read : sys.read p with
  | false => rfl
  | true => simp [read] at closed

theorem stat_kind_missing (fs : Fs) (path : Bytes) (st : Kind) (missing : fs.locate path = none) :
    fs.statKind path st = st := by
  rw [Fs.statKind, missing]
  rfl

section
variable (sys : System) (fs : Fs) (work : Work) (path : Bytes) (rest : List Bytes) (st : Kind) (feed : Feed)

theorem file_loop_irregular (other : fs.statKind path st ≠ .reg) :
    fileLoop sys fs work (path :: rest) st feed = ⟨[], some (.irregular path), feed⟩ := by
  rw [fileLoop, if_pos other]

theorem file_loop_unopened (reg : fs.statKind path st = .reg) (closed : fs.fopen sys path = none) :
    fileLoop sys fs work (path :: rest) st feed = ⟨[], some (.unopened path), feed⟩ := by
  rw [fileLoop, if_neg (not_not.mpr reg), closed]

theorem file_loop_inside (reg : fs.statKind path st = .reg) (data : Bytes) (opened : fs.fopen sys path = some data)
    (fails : work path data feed = none) : fileLoop sys fs work (path :: rest) st feed = ⟨[], some .inside, feed⟩ := by
  rw [fileLoop, if_neg (not_not.mpr reg), opened]
  dsimp only
  rw [fails]

theorem file_loop_file (reg : fs.statKind path st = .reg) (data : Bytes) (opened : fs.fopen sys path = some data)
    (out : List Print) (next : Feed) (worked : work path data feed = some (out, next)) :
    fileLoop sys fs work (path :: rest) st feed =
      { fileLoop sys fs work rest .reg next with out := out ++ (fileLoop sys fs work rest .reg next).out } := by
  rw [fileLoop, if_neg (not_not.mpr reg), opened]
  dsimp only
  rw [worked, reg]

theorem opened_readable (reg : fs.statKind path st = .reg) (data : Bytes) (opened : fs.fopen sys path = some data) :
    fs.Readable sys path data := by
  cases located : fs.locate path with
  | none => simp [fopen_missing sys fs path located] at opened
  | some p => exact ⟨p, located, by rw [stat_kind_found fs path st p located, reg], opened⟩

theorem irregular_refuses (reg : Prop) (stale : st = .reg ↔ reg) (other : fs.statKind path st ≠ .reg) :
    Refuses sys fs work reg path feed (.irregular path) := by
  cases located : fs.locate path with
  | none =>
      rw [stat_kind_missing fs path st located] at other
      exact .stray located fun was => other (stale.mpr was)
  | some p => exact .irregular p _ located (stat_kind_found fs path st p located) other

theorem unopened_refuses (reg : Prop) (stale : st = .reg ↔ reg) (regular : fs.statKind path st = .reg)
    (closed : fs.fopen sys path = none) : Refuses sys fs work reg path feed (.unopened path) := by
  cases located : fs.locate path with
  | none =>
      rw [stat_kind_missing fs path st located] at regular
      exact .missing located (stale.mp regular)
  | some p =>
      have here := stat_kind_found fs path st p located
      rw [regular] at here
      exact .closed p located here (fopen_closed sys fs path p located closed)

end

-- By induction on the operands: after one that is printed st has a regular file's mode.
theorem file_loop_prints (sys : System) (fs : Fs) (work : Work) (paths : List Bytes) (st : Kind) (feed : Feed) :
    ∃ shown rest, Prints sys fs work paths (st = .reg) feed (fileLoop sys fs work paths st feed) shown rest := by
  induction paths generalizing st feed with
  | nil => exact ⟨[], [], rfl, .done feed, fun _ => rfl, fun _ _ more => by cases more⟩
  | cons path paths ih =>
      have stops : ∀ why, fileLoop sys fs work (path :: paths) st feed = ⟨[], some why, feed⟩ →
          Refuses sys fs work (([] : List Bytes) ≠ [] ∨ st = .reg) path feed why →
          ∃ shown rest, Prints sys fs work (path :: paths) (st = .reg) feed (fileLoop sys fs work (path :: paths) st feed)
            shown rest := by
        intro why run refuses
        rw [run]
        refine ⟨[], path :: paths, rfl, .done feed, fun none => absurd none (List.cons_ne_nil _ _), ?_⟩
        intro _ _ same
        cases same
        exact ⟨why, rfl, refuses⟩
      have stale : st = .reg ↔ (([] : List Bytes) ≠ [] ∨ st = .reg) := by simp
      by_cases reg : fs.statKind path st = .reg
      · cases opened : fs.fopen sys path with
        | none =>
            exact stops _ (file_loop_unopened sys fs work path paths st feed reg opened)
              (unopened_refuses sys fs work path st feed _ stale reg opened)
        | some data =>
            have there := opened_readable sys fs path st reg data opened
            cases worked : work path data feed with
            | none =>
                exact stops _ (file_loop_inside sys fs work path paths st feed reg data opened worked)
                  (.inside data there worked)
            | some made =>
                obtain ⟨out, next⟩ := made
                obtain ⟨shown, rest, prints⟩ := ih .reg next
                rw [file_loop_file sys fs work path paths st feed reg data opened out next worked]
                refine ⟨path :: shown, rest, congrArg (path :: ·) prints.operands, ?_, prints.ended, ?_⟩
                · exact .file path data shown feed next _ out _ there worked prints.printed
                · intro refused later same
                  obtain ⟨why, stopped, refuses⟩ := prints.refused refused later same
                  have began : (shown ≠ [] ∨ (Kind.reg : Kind) = .reg) = (path :: shown ≠ [] ∨ st = .reg) := by simp
                  rw [began] at refuses
                  exact ⟨why, stopped, refuses⟩
      · exact stops _ (file_loop_irregular sys fs work path paths st feed reg)
          (irregular_refuses sys fs work path st feed _ stale reg)

theorem printer_main (amb : Ambient) (tool : Printer) (fs : Fs) (junk : Kind) (argv : List Bytes) (feed : Feed)
    (asked : tool.Asked argv) :
    tool.main amb fs junk argv feed =
      fileLoop amb.sys fs (tool.work amb argv) (argv.drop tool.first) junk feed := by
  have files := asked.files
  have help : ¬helpAsked argv = true := Bool.not_eq_true _ ▸ asked.help
  cases tool with
  | cat => exact (if_neg (show ¬argv.length = 1 from Nat.ne_of_gt files)).trans (if_neg help)
  | head => exact (if_neg (Nat.not_lt.mpr files)).trans (if_pos (asked.dashed (.inl rfl)))
  | tail => exact (if_neg (Nat.not_lt.mpr files)).trans (if_pos (asked.dashed (.inr rfl)))
  | tr => exact if_neg (Nat.not_lt.mpr files)
  | wc => exact (if_neg (show ¬argv.length = 1 from Nat.ne_of_gt files)).trans (if_neg help)
  | nl => exact if_neg help
  | od => rfl
  | sum => exact if_neg (Nat.not_lt.mpr files)
  | grep => exact if_neg (Nat.not_lt.mpr files)

theorem readable_kind (sys : System) (fs : Fs) (path data : Bytes) (st : Kind) (there : fs.Readable sys path data) :
    fs.statKind path st = .reg := by
  obtain ⟨p, located, here, -⟩ := there
  have found := stat_kind_found fs path st p located
  rw [here] at found
  exact (Option.some.inj found).symm

theorem file_loop_all (sys : System) (fs : Fs) (work : Work) (paths : List Bytes) (st : Kind) (feed last : Feed)
    (out : List Print) (printed : Printed sys fs work paths feed out last) :
    fileLoop sys fs work paths st feed = ⟨out, none, last⟩ := by
  induction printed generalizing st with
  | done feed => rfl
  | file path data rest feed next last out later there worked others ih =>
      have reg := readable_kind sys fs path data st there
      obtain ⟨p, located, here, opened⟩ := there
      rw [file_loop_file sys fs work path rest st feed reg data opened out next worked, ih .reg]

theorem file_loop_returned (sys : System) (fs : Fs) (work : Work) (paths : List Bytes) (st : Kind) (feed : Feed)
    (returned : (fileLoop sys fs work paths st feed).stop = none) :
    Printed sys fs work paths feed (fileLoop sys fs work paths st feed).out (fileLoop sys fs work paths st feed).feed := by
  obtain ⟨shown, rest, prints⟩ := file_loop_prints sys fs work paths st feed
  cases rest with
  | nil =>
      have all := prints.operands
      rw [List.append_nil] at all
      rw [all]
      exact all ▸ prints.printed
  | cons path later =>
      obtain ⟨why, stopped, -⟩ := prints.refused path later rfl
      rw [returned] at stopped
      cases stopped

def plainAmbient : Ambient where
  sys := allowed
  columns := none
  signed := true
  blksize := fun _ => 512
  cells := fun _ => none
  block := fun _ _ => 0
  found := fun _ => false
  turns := 0

end Yaup.Busybox
