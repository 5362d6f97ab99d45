import Yaup.ChangerWalks
import Yaup.GetGid
import Yaup.ParseMode

set_option autoImplicit false

namespace Yaup.Busybox

open Lib

-- What the mains of chmod, chgrp and chown come to before their loop: the usage message, the
-- message that an argument is not valid, or the loop with rflag, a value and the operands.
inductive Begun (α : Type) where
  | usage
  | invalid (arg : Arg)
  | runs (rflag : Bool) (value : α) (operands : List Arg)

def isR (arg : Arg) : Bool := [45, 114].isPrefixOf arg.text

-- `parse` is parse_mode or get_gid, `bad` the test of its value, and `shown` the argument in
-- the message where there is no -r.
def begin {α : Type} (parse : Arg → Except Undefined α) (bad : α → Bool) (shown : Arg → Arg → Arg) :
    List Arg → Except Undefined (Begun α)
  | _ :: first :: second :: rest =>
      if isR first then do
        let value ← parse second
        return if bad value then .invalid second else .runs true value rest
      else do
        let value ← parse first
        return if bad value then .invalid (shown first second) else .runs false value (second :: rest)
  | _ => .ok .usage

def chmodBegin (argv : List Arg) : Except Undefined (Begun UInt16) :=
  begin (fun arg => parseMode arg.text) (fun mode => mode < 0) (fun _ second => second) argv

def chgrpBegin (junk : GidJunk) (groups : Bytes) (argv : List Arg) : Except Undefined (Begun UInt8) :=
  begin (fun arg => getGid junk groups arg.text) (fun gid => gid < 0) (fun first _ => first) argv

def typeBits : Kind → Nat
  | .dir => 16384
  | .reg => 32768
  | .other => 8192

def stMode (st : Node Stat) : Nat := typeBits st.kind + st.attr.mode % 4096

def statInto (path : Bytes) (st : Node Stat) : Cmd (Node Stat) := do
  let fs ← get
  return ((fs.locate path).bind fs.tree.node).getD st

-- The loop of chmod and of chgrp: `same` is the test of the attribute that is asked for.
def operandLoop (same : Node Stat → Bool) (change : Bytes → Node Stat → Cmd Int) : List Arg → Node Stat → Cmd Unit
  | [], _ => return
  | operand :: rest, st => do
      let st ← statInto operand.text st
      if same st then operandLoop same change rest st
      else
        let code ← change operand.text st
        if code < 0 then throw .exit else operandLoop same change rest st

section
variable (sys : System) (fuel : Nat) (junk : Node Stat)

-- `fuel` is for the recursion, and `junk` what st holds at first.
def chmodMain (argv : List Arg) : Cmd Unit :=
  match chmodBegin argv with
  | .ok (.runs rflag mode operands) =>
      operandLoop (fun st => stMode st = mode.toNat)
        (fun path _ => if rflag then chmodRec sys mode.toNat fuel path else chmod sys path mode.toNat) operands junk
  | .ok _ => throw .exit
  | .error _ => throw .fault

def chgrpMain (gidJunk : GidJunk) (groups : Bytes) (argv : List Arg) : Cmd Unit :=
  match chgrpBegin gidJunk groups argv with
  | .ok (.runs rflag gid operands) =>
      operandLoop (fun st => st.attr.group = gid.toNat)
        (fun path st =>
          if rflag then chgrpRec sys gid.toNat fuel path else chown sys path (some st.attr.owner) (some gid.toNat))
        operands junk
  | .ok _ => throw .exit
  | .error _ => throw .fault

end

def given : List Arg → Option (Arg × List Arg)
  | _ :: first :: second :: rest => some (if isR first then (second, rest) else (first, second :: rest))
  | _ => none

def isRecursive : List Arg → Bool
  | _ :: first :: _ => isR first
  | _ => false

def Unchanging (main : Cmd Unit) (fs : Fs) : Prop :=
  ∀ done, (main.run fs = .ok () done ∨ ∃ halt, main.run fs = .error halt done) → done.tree = fs.tree

def ArgRight {α : Type} (begun : Except Undefined (Begun α)) (main : Cmd Unit) (fs : Fs) (fine : Prop)
    (error : α → Prop) : Prop :=
  (¬fine → (∃ arg, begun = .ok (.invalid arg)) ∧ Unchanging main fs) ∧
    ∀ rflag value operands, begun = .ok (.runs rflag value operands) → error value → operands = []

def OctalNumeral (text : Bytes) : Prop := text ≠ [] ∧ ∀ c ∈ text, 48 ≤ c ∧ c ≤ 55

-- -1 is an error value unless it is the mode that is meant.
def ChmodArgRight (sys : System) (fuel : Nat) (junk : Node Stat) (argv : List Arg) (fs : Fs) : Prop :=
  ∀ mode operands, given argv = some (mode, operands) →
    ArgRight (chmodBegin argv) (chmodMain sys fuel junk argv) fs (OctalNumeral mode.text) fun value =>
      value = -1 ∧ ¬(OctalNumeral mode.text ∧ octalValue mode.text = 65535)

def Named (file : GroupFile) (name : Arg) : Prop := ∃ g ∈ file.groups, g.name.text = name.text

def ChgrpArgRight (sys : System) (fuel : Nat) (junk : Node Stat) (gidJunk : GidJunk) (file : GroupFile) (argv : List Arg)
    (fs : Fs) : Prop :=
  ∀ group operands, given argv = some (group, operands) →
    ArgRight (chgrpBegin gidJunk file.bytes argv) (chgrpMain sys fuel junk gidJunk file.bytes argv) fs (Named file group)
      fun value => value = -1 ∧ ¬Named file group

theorem begin_runs {α : Type} (parse : Arg → Except Undefined α) (bad : α → Bool) (shown : Arg → Arg → Arg)
    (never : ∀ value, bad value = false) (argv operands : List Arg) (arg : Arg) (asked : given argv = some (arg, operands)) :
    begin parse bad shown argv = (parse arg).map fun value => .runs (isRecursive argv) value operands := by
  rcases argv with _ | ⟨prog, _ | ⟨first, _ | ⟨second, rest⟩⟩⟩
  · cases asked
  · cases asked
  · cases asked
  · cases flag : isR first with
    | true =>
        rw [given, flag] at asked
        cases asked
        rw [begin, if_pos flag, isRecursive, flag]
        cases parse arg with
        | error e => rfl
        | ok value => simp [never, bind, Except.bind, pure, Except.pure, Except.map]
    | false =>
        rw [given, flag] at asked
        cases asked
        rw [begin, if_neg (by simp [flag]), isRecursive, flag]
        cases parse arg with
        | error e => rfl
        | ok value => simp [never, bind, Except.bind, pure, Except.pure, Except.map]

theorem never_reported {α : Type} (parse : Arg → Except Undefined α) (bad : α → Bool) (shown : Arg → Arg → Arg)
    (never : ∀ value, bad value = false) (argv operands : List Arg) (arg : Arg) (asked : given argv = some (arg, operands)) :
    ¬∃ shownArg, begin parse bad shown argv = .ok (.invalid shownArg) := by
  rintro ⟨shownArg, reported⟩
  rw [begin_runs parse bad shown never argv operands arg asked] at reported
  cases parsed : parse arg with
  | error e =>
      rw [parsed] at reported
      cases reported
  | ok value =>
      rw [parsed] at reported
      cases reported

theorem argc_given (argv : List Arg) : given argv = none ↔ argv.length < 3 := by
  rcases argv with _ | ⟨prog, _ | ⟨first, _ | ⟨second, rest⟩⟩⟩
  · simp [given]
  · simp [given]
  · simp [given]
  · simp [given]

theorem mode_not_negative (mode : UInt16) : decide (mode < 0) = false := decide_eq_false (UInt16.not_lt_zero)

theorem gid_not_negative (gid : UInt8) : decide (gid < 0) = false := decide_eq_false (UInt8.not_lt_zero)

section
variable (sys : System) (fuel : Nat) (junk : Node Stat) (argv : List Arg) (fs : Fs)

theorem chmod_arg_right (mode : Arg) (operands : List Arg) (asked : given argv = some (mode, operands)) :
    ChmodArgRight sys fuel junk argv fs ↔ OctalNumeral mode.text ∧ (operands = [] ∨ octalValue mode.text = 65535) := by
  have runs := begin_runs (fun arg => parseMode arg.text) _ (fun _ second => second) mode_not_negative argv operands mode asked
  rw [parse_mode_refuses] at runs
  constructor
  · intro right
    obtain ⟨reports, unused⟩ := right mode operands asked
    have octal : OctalNumeral mode.text := by
      by_contra other
      exact never_reported _ _ _ mode_not_negative argv operands mode asked (reports other).1
    refine ⟨octal, ?_⟩
    by_contra neither
    rw [not_or] at neither
    exact neither.1 (unused _ (-1) operands runs ⟨rfl, fun meant => neither.2 meant.2⟩)
  · rintro ⟨octal, fits⟩ other others again
    rw [asked] at again
    cases again
    refine ⟨fun bad => absurd octal bad, fun rflag' value operands' begun wrong => ?_⟩
    cases runs.symm.trans begun
    exact fits.resolve_right fun meant => wrong.2 ⟨octal, meant⟩

theorem chgrp_arg_right (gidJunk : GidJunk) (file : GroupFile) (group : Arg) (operands : List Arg)
    (asked : given argv = some (group, operands)) :
    ChgrpArgRight sys fuel junk gidJunk file argv fs ↔ Named file group := by
  constructor
  · intro right
    by_contra other
    have reported := ((right group operands asked).1 other).1
    exact never_reported _ _ _ gid_not_negative argv operands group asked reported
  · rintro named other others again
    rw [asked] at again
    cases again
    exact ⟨fun bad => absurd named bad, fun _ _ _ _ wrong => absurd named wrong.2⟩

theorem bad_argument_iff (gidJunk : GidJunk) (file : GroupFile) :
    (ChmodArgRight sys fuel junk argv fs ↔ ∀ mode operands, given argv = some (mode, operands) →
      OctalNumeral mode.text ∧ (operands = [] ∨ octalValue mode.text = 65535)) ∧
    (ChgrpArgRight sys fuel junk gidJunk file argv fs ↔ ∀ group operands, given argv = some (group, operands) →
      Named file group) := by
  constructor
  · constructor
    · exact fun right mode operands asked => (chmod_arg_right sys fuel junk argv fs mode operands asked).mp right
    · exact fun fits mode operands asked =>
        (chmod_arg_right sys fuel junk argv fs mode operands asked).mpr (fits mode operands asked) mode operands asked
  · constructor
    · exact fun right group operands asked => (chgrp_arg_right sys fuel junk argv fs gidJunk file group operands asked).mp right
    · exact fun named group operands asked =>
        (chgrp_arg_right sys fuel junk argv fs gidJunk file group operands asked).mpr (named group operands asked) group operands
          asked

end

-- "chmod 9 f"
theorem chmod_nine_unreported : ¬ChmodArgRight allowed 3 ⟨.reg, allowed.fresh []⟩
    [⟨[99], by decide⟩, ⟨[57], by decide⟩, ⟨[102], by decide⟩] ⟨twins, []⟩ := by
  rw [chmod_arg_right _ _ _ _ _ ⟨[57], by decide⟩ [⟨[102], by decide⟩] rfl]
  rintro ⟨octal, -⟩
  exact absurd (octal.2 57 List.mem_cons_self).2 (by decide)

def Marked (mark : Stat → Prop) (t : Tree Name Stat) (p : Place) : Prop := ∃ node, t.node p = some node ∧ mark node.attr

section
variable (mark : Stat → Prop) (t : Tree Name Stat) (p q : Place) (f : Kind → Stat → Stat) (sets : ∀ kind attr, mark (f kind attr))
include sets

theorem change_marks (has : t.Has p) : Marked mark (t.change p f) p := by
  obtain ⟨node, here⟩ := Option.ne_none_iff_exists'.mp ((has_iff t p).mp has)
  refine ⟨{ node with attr := f node.kind node.attr }, ?_, sets node.kind node.attr⟩
  rw [change_same, here, Option.map_some]

theorem change_keeps_mark (marked : Marked mark t q) : Marked mark (t.change p f) q := by
  by_cases same : q = p
  · subst same
    obtain ⟨node, here, -⟩ := marked
    exact change_marks mark t q f sets ((has_iff t q).mpr (by rw [here]; exact Option.some_ne_none node))
  · obtain ⟨node, here, attr⟩ := marked
    exact ⟨node, (change_other t p q f same).trans here, attr⟩

end

theorem locate_has (fs : Fs) (path : Bytes) (p : Place) (found : fs.locate path = some p) : fs.tree.Has p := by
  rw [Fs.locate] at found
  split at found
  · cases found
  · exact walk_end_has fs.tree _ _ p found

theorem stat_into_run (fs : Fs) (path : Bytes) (p : Place) (st node : Node Stat) (found : fs.locate path = some p)
    (here : fs.tree.node p = some node) : (statInto path st).run fs = .ok node fs := by
  rw [statInto, run_get_bind, found, Option.bind_some, here]
  rfl

structure Marks (mark : Stat → Prop) (fs fs' : Fs) : Prop where
  cwd : fs'.cwd = fs.cwd
  shape : SameShape fs.tree fs'.tree
  kept : ∀ p, Marked mark fs.tree p → Marked mark fs'.tree p

theorem marks_refl (mark : Stat → Prop) (fs : Fs) : Marks mark fs fs := ⟨rfl, same_shape_refl _, fun _ marked => marked⟩

theorem marks_locate (mark : Stat → Prop) (fs fs' : Fs) (marks : Marks mark fs fs') (path : Bytes) :
    fs'.locate path = fs.locate path := by
  have same := same_shape_locate fs fs'.tree path marks.shape
  rwa [← marks.cwd] at same

theorem marks_exist (mark : Stat → Prop) (fs fs' : Fs) (marks : Marks mark fs fs') (operands : List Arg)
    (exist : ∀ operand ∈ operands, ∃ p, fs.locate operand.text = some p) :
    ∀ operand ∈ operands, ∃ p, fs'.locate operand.text = some p := by
  intro operand member
  rw [marks_locate mark fs fs' marks]
  exact exist operand member

theorem marks_trans (mark : Stat → Prop) (a b c : Fs) (first : Marks mark a b) (second : Marks mark b c) : Marks mark a c :=
  ⟨second.cwd.trans first.cwd, same_shape_trans _ _ _ first.shape second.shape,
    fun p marked => second.kept p (first.kept p marked)⟩

section
variable (sys : System) (permitted : ∀ p, sys.change p = true) (mark : Stat → Prop) (f : Node Stat → Kind → Stat → Stat)
  (sets : ∀ st kind attr, mark (f st kind attr))
include permitted sets

theorem change_call_marks (fs : Fs) (path : Bytes) (p : Place) (st : Node Stat) (found : fs.locate path = some p) :
    ∃ fs', (changeAttr sys path (f st)).run fs = .ok 0 fs' ∧ Marks mark fs fs' ∧ Marked mark fs'.tree p :=
  ⟨_, change_attr_ok sys path (f st) fs p found (permitted p),
    ⟨rfl, change_shape fs.tree p (f st), fun q => change_keeps_mark mark fs.tree p q (f st) (sets st)⟩,
    change_marks mark fs.tree p (f st) (sets st) (locate_has fs path p found)⟩

theorem operand_loop_marks (same : Node Stat → Bool) (already : ∀ st, same st = true → mark st.attr) (operands : List Arg)
    (st : Node Stat) (fs : Fs) (exist : ∀ operand ∈ operands, ∃ p, fs.locate operand.text = some p) :
    ∃ fs', (operandLoop same (fun path st => changeAttr sys path (f st)) operands st).run fs = .ok () fs' ∧
      Marks mark fs fs' ∧ ∀ operand ∈ operands, ∀ p, fs.locate operand.text = some p → Marked mark fs'.tree p := by
  induction operands generalizing st fs with
  | nil => exact ⟨fs, rfl, marks_refl mark fs, by simp⟩
  | cons operand rest ih =>
      obtain ⟨p, found⟩ := exist operand List.mem_cons_self
      obtain ⟨node, here⟩ := Option.ne_none_iff_exists'.mp ((has_iff _ p).mp (locate_has fs _ p found))
      obtain ⟨middle, first, marks, marked⟩ : ∃ middle,
          (operandLoop same (fun path st => changeAttr sys path (f st)) (operand :: rest) st).run fs =
            (operandLoop same (fun path st => changeAttr sys path (f st)) rest node).run middle ∧
          Marks mark fs middle ∧ Marked mark middle.tree p := by
        have stats := stat_into_run fs operand.text p st node found here
        cases is : same node with
        | true =>
            refine ⟨fs, ?_, marks_refl mark fs, node, here, already node is⟩
            rw [operandLoop, EStateM.run_bind, stats]
            simp only [is, if_pos]
        | false =>
            obtain ⟨middle, changed, marks, marked⟩ := change_call_marks sys permitted mark f sets fs operand.text p node found
            refine ⟨middle, ?_, marks, marked⟩
            rw [operandLoop, EStateM.run_bind, stats]
            simp only [is, Bool.false_eq_true, if_false]
            rw [EStateM.run_bind, changed]
            rfl
      obtain ⟨fs', done, later, all⟩ := ih node middle
        (marks_exist mark fs middle marks rest fun other member => exist other (List.mem_cons_of_mem _ member))
      refine ⟨fs', first.trans done, marks_trans mark _ _ _ marks later, ?_⟩
      intro other member q there
      rcases List.mem_cons.mp member with rfl | behind
      · rw [found] at there
        cases there
        exact later.kept p marked
      · exact all other behind q ((marks_locate mark fs middle marks _).trans there)

end

theorem chmod_sets_error (sys : System) (permitted : ∀ p, sys.change p = true) (fuel : Nat) (junk : Node Stat)
    (argv operands : List Arg) (mode : Arg) (asked : given argv = some (mode, operands)) (plain : isRecursive argv = false)
    (fs : Fs) (exist : ∀ operand ∈ operands, ∃ p, fs.locate operand.text = some p) :
    ∃ fs', (chmodMain sys fuel junk argv).run fs = .ok () fs' ∧
      ∀ operand ∈ operands, ∀ p, fs.locate operand.text = some p → Marked (fun attr => attr.mode = 65535) fs'.tree p := by
  have runs := begin_runs (fun arg => parseMode arg.text) _ (fun _ second => second) mode_not_negative argv operands mode asked
  rw [parse_mode_refuses, plain] at runs
  have begun : chmodBegin argv = .ok (.runs false (-1) operands) := runs
  have already : ∀ st : Node Stat, decide (stMode st = (-1 : UInt16).toNat) = true → st.attr.mode = 65535 := by
    intro st same
    have value : (-1 : UInt16).toNat = 65535 := rfl
    have bits : typeBits st.kind ≤ 32768 := by cases st.kind <;> decide
    rw [decide_eq_true_eq, stMode, value] at same
    omega
  obtain ⟨fs', done, -, marked⟩ := operand_loop_marks sys permitted (fun attr => attr.mode = 65535)
    (fun _ _ attr => { attr with mode := 65535 }) (fun _ _ _ => rfl) _ already operands junk fs exist
  refine ⟨fs', ?_, marked⟩
  rw [chmodMain, begun]
  exact done

theorem chgrp_sets_answer (sys : System) (permitted : ∀ p, sys.change p = true) (fuel : Nat) (junk : Node Stat)
    (gidJunk : GidJunk) (groups : Bytes) (argv operands : List Arg) (group : Arg) (gid : UInt8)
    (asked : given argv = some (group, operands))
    (plain : isRecursive argv = false) (answer : getGid gidJunk groups group.text = .ok gid) (fs : Fs)
    (exist : ∀ operand ∈ operands, ∃ p, fs.locate operand.text = some p) :
    ∃ fs', (chgrpMain sys fuel junk gidJunk groups argv).run fs = .ok () fs' ∧
      ∀ operand ∈ operands, ∀ p, fs.locate operand.text = some p → Marked (fun attr => attr.group = gid.toNat) fs'.tree p := by
  have runs := begin_runs (fun arg => getGid gidJunk groups arg.text) _ (fun first _ => first) gid_not_negative argv operands group
    asked
  rw [answer, plain] at runs
  have begun : chgrpBegin gidJunk groups argv = .ok (.runs false gid operands) := runs
  obtain ⟨fs', done, -, marked⟩ := operand_loop_marks sys permitted (fun attr => attr.group = gid.toNat)
    (fun st kind attr =>
      { attr with mode := sys.chowned.mode kind attr.mode, owner := st.attr.owner, group := gid.toNat }) (fun _ _ _ => rfl)
    (fun st => st.attr.group = gid.toNat) (fun _ same => of_decide_eq_true same) operands junk fs exist
  refine ⟨fs', ?_, marked⟩
  rw [chgrpMain, begun]
  exact done

end Yaup.Busybox
