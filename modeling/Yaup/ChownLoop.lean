import Yaup.ChangeMains

set_option autoImplicit false

namespace Yaup.Busybox

open Lib

-- get_uid answers 1000, and uid_t is an unsigned char.
def getUid (_ : Arg) : UInt8 := UInt8.ofNat 1000

section
variable (sys : System) (fuel : Nat) (uid : Nat) (rflag : Bool)

def chownCall (path : Bytes) (st : Node Stat) : Cmd Int :=
  if rflag then chownRec sys uid fuel path else chown sys path (some uid) (some st.attr.group)

-- The loop of chown over the operands from argv[i] on, for so many turns; the answer is the
-- operand that each turn is about.
def chownLoop : Nat → Nat → List Arg → Node Stat → Cmd (List Nat)
  | _, _, [], _ => return []
  | 0, _, _ :: _, _ => throw .spent
  | turns + 1, i, operand :: rest, st => do
      let st ← statInto operand.text st
      if st.attr.owner = uid then
        let later ← chownLoop turns (i + 1) rest st
        return i :: later
      else
        let code ← chownCall sys fuel uid rflag operand.text st
        if code < 0 then throw .exit
        else
          let later ← chownLoop turns i (operand :: rest) st
          return i :: later

end

def chownMain (sys : System) (fuel turns : Nat) (junk : Node Stat) (argv : List Arg) : Cmd (List Nat) :=
  match begin (fun arg => .ok (getUid arg)) (fun uid => uid < 0) (fun first _ => first) argv with
  | .ok (.runs rflag uid operands) => chownLoop sys fuel uid.toNat rflag turns 0 operands junk
  | .ok _ => throw .exit
  | .error _ => throw .fault

def Owned (uid : Nat) (fs : Fs) (t : Tree Name Stat) (operand : Arg) : Prop :=
  ∃ p, fs.locate operand.text = some p ∧ Marked (fun attr => attr.owner = uid) t p

def ChownRight (sys : System) (uid : Nat) (rflag : Bool) (operands : List Arg) (junk : Node Stat) (fs : Fs) : Prop :=
  ∃ fuel turns handled fs', (chownLoop sys fuel uid rflag turns 0 operands junk).run fs = .ok handled fs' ∧
    handled.Perm (List.range operands.length) ∧ ∀ operand ∈ operands, Owned uid fs fs'.tree operand

section
variable (sys : System) (fuel : Nat) (uid : Nat) (rflag : Bool)

theorem chown_loop_turns (turns i : Nat) (operands : List Arg) (st : Node Stat) (fs fs' : Fs) (handled : List Nat)
    (done : (chownLoop sys fuel uid rflag turns i operands st).run fs = .ok handled fs') :
    operands.length ≤ handled.length ∧ (handled.length = operands.length → fs' = fs) := by
  induction turns generalizing i operands st fs handled with
  | zero =>
      cases operands with
      | nil =>
          cases done
          exact ⟨Nat.le_refl _, fun _ => rfl⟩
      | cons operand rest => cases done
  | succ turns ih =>
      cases operands with
      | nil =>
          cases done
          exact ⟨Nat.le_refl _, fun _ => rfl⟩
      | cons operand rest =>
          rw [chownLoop] at done
          obtain ⟨node, now, stats, turned⟩ := (run_bind_ok _ _ _ _ _).mp done
          have same : now = fs := by
            cases stats
            rfl
          subst same
          by_cases is : node.attr.owner = uid
          · rw [if_pos is] at turned
            obtain ⟨later, after, behind, last⟩ := (run_bind_ok _ _ _ _ _).mp turned
            cases last
            obtain ⟨longer, kept⟩ := ih _ _ _ _ _ behind
            simp only [List.length_cons]
            exact ⟨by omega, fun same => kept (by omega)⟩
          · rw [if_neg is] at turned
            obtain ⟨code, changed, -, turned⟩ := (run_bind_ok _ _ _ _ _).mp turned
            by_cases failed : code < 0
            · rw [if_pos failed] at turned
              cases turned
            · rw [if_neg failed] at turned
              obtain ⟨later, after, behind, last⟩ := (run_bind_ok _ _ _ _ _).mp turned
              cases last
              obtain ⟨longer, -⟩ := ih _ _ _ _ _ behind
              simp only [List.length_cons] at longer ⊢
              exact ⟨by omega, fun same => by omega⟩

theorem chown_loop_owned (i : Nat) (operands : List Arg) (st : Node Stat) (fs : Fs)
    (owned : ∀ operand ∈ operands, Owned uid fs fs.tree operand) :
    (chownLoop sys fuel uid rflag operands.length i operands st).run fs = .ok (List.range' i operands.length) fs := by
  induction operands generalizing i st with
  | nil => rfl
  | cons operand rest ih =>
      obtain ⟨p, found, node, here, owner⟩ := owned operand List.mem_cons_self
      have later := ih (i + 1) node fun other member => owned other (List.mem_cons_of_mem _ member)
      rw [List.length_cons, chownLoop, EStateM.run_bind, stat_into_run fs operand.text p st node found here]
      simp only [if_pos owner]
      rw [EStateM.run_bind, later]
      rfl

end

theorem chown_right_owned (sys : System) (uid : Nat) (rflag : Bool) (operands : List Arg) (junk : Node Stat) (fs : Fs)
    (right : ChownRight sys uid rflag operands junk fs) : ∀ operand ∈ operands, Owned uid fs fs.tree operand := by
  obtain ⟨fuel, turns, handled, fs', done, once, owned⟩ := right
  have length : handled.length = operands.length := by simpa using once.length_eq
  have same := (chown_loop_turns sys fuel uid rflag turns 0 operands junk fs fs' handled done).2 length
  rwa [same] at owned

theorem chown_right_iff (sys : System) (uid : Nat) (rflag : Bool) (operands : List Arg) (junk : Node Stat) (fs : Fs) :
    ChownRight sys uid rflag operands junk fs ↔ ∀ operand ∈ operands, Owned uid fs fs.tree operand := by
  constructor
  · exact chown_right_owned sys uid rflag operands junk fs
  · intro owned
    refine ⟨0, operands.length, _, fs, chown_loop_owned sys 0 uid rflag 0 operands junk fs owned, ?_, owned⟩
    rw [List.range_eq_range']

section
variable (sys : System) (fuel : Nat) (uid : Nat) (rflag : Bool)

theorem retained_turn (turns i : Nat) (operand : Arg) (rest : List Arg) (st node : Node Stat) (fs : Fs)
    (stats : (statInto operand.text st).run fs = .ok node fs) (owner : node.attr.owner = uid) :
    (chownLoop sys fuel uid rflag (turns + 1) i (operand :: rest) st).run fs =
      ((i :: ·) <$> chownLoop sys fuel uid rflag turns (i + 1) rest node).run fs := by
  rw [chownLoop, EStateM.run_bind, stats]
  simp only [if_pos owner]
  rfl

theorem changing_turn (turns i : Nat) (operand : Arg) (rest : List Arg) (st node : Node Stat) (fs after : Fs) (code : Int)
    (stats : (statInto operand.text st).run fs = .ok node fs) (owner : node.attr.owner ≠ uid)
    (called : (chownCall sys fuel uid rflag operand.text node).run fs = .ok code after) (works : ¬code < 0) :
    (chownLoop sys fuel uid rflag (turns + 1) i (operand :: rest) st).run fs =
      ((i :: ·) <$> chownLoop sys fuel uid rflag turns i (operand :: rest) node).run after := by
  rw [chownLoop, EStateM.run_bind, stats]
  simp only [if_neg owner]
  rw [EStateM.run_bind, called]
  simp only [if_neg works]
  rfl

theorem logged_ok (x : Cmd (List Nat)) (i : Nat) (fs fs' : Fs) (handled : List Nat) (done : x.run fs = .ok handled fs') :
    ((i :: ·) <$> x).run fs = .ok (i :: handled) fs' := by
  rw [run_map, done]

end

theorem chown_plain_ends (sys : System) (permitted : ∀ p, sys.change p = true) (fuel uid i : Nat) (operands : List Arg)
    (st : Node Stat) (fs : Fs) (exist : ∀ operand ∈ operands, ∃ p, fs.locate operand.text = some p) :
    ∃ turns handled fs', (chownLoop sys fuel uid false turns i operands st).run fs = .ok handled fs' ∧
      turns ≤ 2 * operands.length ∧ Marks (fun attr => attr.owner = uid) fs fs' ∧
      ∀ operand ∈ operands, Owned uid fs fs'.tree operand := by
  induction operands generalizing i st fs with
  | nil => exact ⟨0, [], fs, rfl, by simp, marks_refl _ fs, by simp⟩
  | cons operand rest ih =>
      obtain ⟨p, found⟩ := exist operand List.mem_cons_self
      obtain ⟨node, here⟩ := Option.ne_none_iff_exists'.mp ((has_iff _ p).mp (locate_has fs _ p found))
      have stats := stat_into_run fs operand.text p st node found here
      obtain ⟨own, middle, last, marks, marked, some, reaches⟩ : ∃ own middle last,
          Marks (fun attr => attr.owner = uid) fs middle ∧ Marked (fun attr => attr.owner = uid) middle.tree p ∧ own ≤ 2 ∧
          ∀ turns handled fs', (chownLoop sys fuel uid false turns (i + 1) rest last).run middle = .ok handled fs' →
            ∃ handled, (chownLoop sys fuel uid false (turns + own) i (operand :: rest) st).run fs = .ok handled fs' := by
        by_cases owner : node.attr.owner = uid
        · refine ⟨1, fs, node, marks_refl _ fs, ⟨node, here, owner⟩, by decide, ?_⟩
          intro turns handled fs' done
          exact ⟨_, (retained_turn sys fuel uid false turns i operand rest st node fs stats owner).trans
            (logged_ok _ i fs fs' handled done)⟩
        · obtain ⟨middle, changed, marks, marked⟩ := change_call_marks sys permitted (fun attr => attr.owner = uid)
            (fun st kind attr =>
              { attr with mode := sys.chowned.mode kind attr.mode, owner := uid, group := st.attr.group }) (fun _ _ _ => rfl) fs
            operand.text p node found
          obtain ⟨now, there, owns⟩ := id marked
          have again := stat_into_run middle operand.text p node now ((marks_locate _ fs middle marks _).trans found) there
          refine ⟨2, middle, now, marks, marked, by decide, ?_⟩
          intro turns handled fs' done
          have second := (retained_turn sys fuel uid false turns i operand rest node now middle again owns).trans
            (logged_ok _ i middle fs' handled done)
          exact ⟨_, (changing_turn sys fuel uid false (turns + 1) i operand rest st node fs middle 0 stats owner changed
            (by decide)).trans (logged_ok _ i middle fs' _ second)⟩
      obtain ⟨turns, handled, fs', done, bound, later, all⟩ := ih (i + 1) last middle
        (marks_exist _ fs middle marks rest fun other member => exist other (List.mem_cons_of_mem _ member))
      obtain ⟨whole, run⟩ := reaches turns handled fs' done
      refine ⟨turns + own, whole, fs', run, by rw [List.length_cons]; omega, marks_trans _ _ _ _ marks later, ?_⟩
      intro other member
      rcases List.mem_cons.mp member with rfl | behind
      · exact ⟨p, found, later.kept p marked⟩
      · obtain ⟨q, there, owned⟩ := all other behind
        exact ⟨q, (marks_locate _ fs middle marks _).symm.trans there, owned⟩

theorem chown_rec_empty (sys : System) (permits : Permits sys) (fuel uid : Nat) (n : Name) (fs : Fs)
    (dir : fs.tree.IsDir (n :: fs.cwd)) (empty : fs.tree.entries (n :: fs.cwd) = []) :
    (chownRec sys uid (fuel + 1) n.val).run fs = .ok 0 fs := by
  have found := locate_dir fs n dir
  rw [chownRec, walk_opened sys _ fuel n.val fs (n :: fs.cwd) found dir (permits.opens _), empty]
  have enter : (chdir sys n.val).run fs = .ok () { fs with cwd := n :: fs.cwd } := by
    rw [chdir, EStateM.run_modify, chdir_locate sys n.val fs _ found dir (permits.enters _)]
  have leave : (chdir sys [46, 46]).run { fs with cwd := n :: fs.cwd } = .ok () fs := by
    rw [chdir, EStateM.run_modify, chdir_up sys { fs with cwd := n :: fs.cwd } dir (permits.enters _)]
    rfl
  exact (run_bind_ok _ _ _ _ _).mpr ⟨(), _, enter, (run_bind_ok _ _ _ _ _).mpr ⟨.next (), _, rfl,
    (run_bind_ok _ _ _ _ _).mpr ⟨(), _, leave, rfl⟩⟩⟩

theorem chown_empty_spins (sys : System) (permits : Permits sys) (fuel uid turns i : Nat) (n : Name) (operand : Arg)
    (named : operand.text = n.val) (rest : List Arg) (st node : Node Stat) (fs : Fs)
    (here : fs.tree.node (n :: fs.cwd) = some node) (dir : node.kind = .dir) (empty : fs.tree.entries (n :: fs.cwd) = [])
    (owner : node.attr.owner ≠ uid) :
    (chownLoop sys (fuel + 1) uid true turns i (operand :: rest) st).run fs = .error .spent fs := by
  have isDir : fs.tree.IsDir (n :: fs.cwd) := by rw [Tree.IsDir, Tree.kindAt, here, Option.map_some, dir]
  have found : fs.locate operand.text = some (n :: fs.cwd) := named ▸ locate_dir fs n isDir
  induction turns generalizing st with
  | zero => rfl
  | succ turns ih =>
      have called : (chownCall sys (fuel + 1) uid true operand.text node).run fs = .ok 0 fs := by
        rw [named]
        exact chown_rec_empty sys permits fuel uid n fs isDir empty
      rw [changing_turn sys (fuel + 1) uid true turns i operand rest st node fs fs 0
        (stat_into_run fs operand.text _ st node found here) owner called (by decide), run_map, ih node]

def bareA : Tree Name Stat := twins.erase [nameF, nameA] (by decide)

-- "chown -r root a" for an empty directory of another owner.
theorem chown_empty_dir : ¬ChownRight allowed 232 true [⟨[97], by decide⟩] ⟨.reg, allowed.fresh []⟩ ⟨bareA, []⟩ := by
  intro right
  obtain ⟨p, found, node, here, owner⟩ := chown_right_owned _ _ _ _ _ _ right _ List.mem_cons_self
  have place : p = [nameA] := by
    have there : (⟨bareA, []⟩ : Fs).locate [97] = some [nameA] := by decide
    rw [there] at found
    cases found
    rfl
  subst place
  have seen : bareA.node [nameA] = some ⟨.dir, ⟨493, 0, 0, []⟩⟩ := by rfl
  rw [seen] at here
  cases here
  cases owner

end Yaup.Busybox
