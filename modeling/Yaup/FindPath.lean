import Yaup.CwdKept
import Yaup.Lib.Subtree

set_option autoImplicit false

namespace Yaup.Busybox

open Lib

def pathSz : Nat := 128

section
variable (nested : Bytes → Bytes → Cmd (Int × Bytes)) (overlap : Bytes → Bytes → Option Bytes) (name root : Bytes)

-- The loop of find, and whether it returns 1. sprintf(path, "%s/%s", root, path) reads what it
-- writes over: what it leaves, if it ends, is not defined, and `overlap` stands for it.
def findLoop : List Dirent → Bytes → Cmd (Bool × Bytes)
  | [], path => return (false, path)
  | d :: rest, path =>
      if d.name = [46] ∨ d.name = [46, 46] then findLoop rest path
      else if d.name ≠ name then
        if d.kind = .dir then do
          let answer ← nested d.name path
          if answer.1 ≠ 0 then
            match overlap root answer.2 with
            | some path => findLoop rest path
            | none => throw .fault
          else findLoop rest answer.2
        else findLoop rest path
      else if path.length + d.name.length < pathSz then return (true, path ++ d.name)
      else throw .fault

end

def findIn (sys : System) (overlap : Bytes → Bytes → Option Bytes) (name : Bytes) : Nat → Bytes → Bytes → Cmd (Int × Bytes)
  | 0, _, _ => throw .spent
  | fuel + 1, root, path => do
      let fs ← get
      match fs.opendir sys root with
      | none => return (-1, path)
      | some entries =>
          chdir sys root
          let answer ← findLoop (findIn sys overlap name fuel) overlap name root entries path
          if answer.1 then return (1, answer.2)
          else
            chdir sys [46, 46]
            return (0, answer.2)

structure NamedBelow (t : Tree Name Stat) (name : Bytes) (p q : Place) : Prop where
  has : t.Has q
  under : Beneath p q
  named : q.head?.map Subtype.val = some name

def route (p q : Place) : Bytes := [47].intercalate ((q.take (q.length - p.length)).reverse.map Subtype.val)

def FindRight (sys : System) (overlap : Bytes → Bytes → Option Bytes) (name : Bytes) (fuel : Nat) (root : Bytes) (p : Place)
    (fs : Fs) : Prop :=
  ∃ code path fs', (findIn sys overlap name fuel root []).run fs = .ok (code, path) fs' ∧ (code = 0 ∨ code = 1) ∧
    (code = 1 ↔ ∃ q, NamedBelow fs.tree name p q) ∧ (code = 1 → ∃ q, NamedBelow fs.tree name p q ∧ route p q <:+ path)

def Quiet (sys : System) (t : Tree Name Stat) (name : Bytes) (r : Place) : Prop :=
  ∀ q, r <:+ q → t.IsDir q → sys.opendir q = true ∧ ∀ n, t.Has (n :: q) → n.val ≠ name

def ahead (name : Bytes) (es : List (Name × Kind)) : List (Name × Kind) := es.takeWhile fun e => e.1.val ≠ name

structure FindGuard (sys : System) (t : Tree Name Stat) (name : Bytes) (p : Place) : Prop where
  opens : sys.opendir p = true
  quiet : ∀ e ∈ ahead name (t.entries p), e.2 = .dir → Quiet sys t name (e.1 :: p)
  fits : ∀ n, t.Has (n :: p) → n.val = name → name.length < pathSz

section
variable (sys : System) (overlap : Bytes → Bytes → Option Bytes) (name : Bytes)

theorem find_loop_code (nested : Bytes → Bytes → Cmd (Int × Bytes)) (plain : Bytes → Cmd Int) (root : Bytes)
    (same : ∀ text path fs code path' fs', (nested text path).run fs = .ok (code, path') fs' →
      (plain text).run fs = .ok code fs')
    (entries : List Dirent) (path path' : Bytes) (fs fs' : Fs) (found : Bool)
    (done : (findLoop nested overlap name root entries path).run fs = .ok (found, path') fs') :
    (walkEntries ((finder sys name).visit plain root) entries ()).run fs =
      .ok (if found then .stop 1 else .next ()) fs' := by
  induction entries generalizing path fs with
  | nil =>
      cases done
      rfl
  | cons d rest ih =>
      rw [findLoop] at done
      rw [walkEntries]
      by_cases dots : d.name = [46] ∨ d.name = [46, 46]
      · rw [if_pos dots] at done ⊢
        exact ih path fs done
      rw [if_neg dots] at done ⊢
      change ((if d.name ≠ name then _ else _ : Cmd _) >>= _ : Cmd _).run fs = _
      by_cases other : d.name ≠ name
      · rw [if_pos other] at done ⊢
        by_cases kind : d.kind = .dir
        · rw [if_pos kind] at done ⊢
          obtain ⟨⟨code, text⟩, middle, first, later⟩ := (run_bind_ok _ _ _ _ _).mp done
          have called := same d.name path fs code text middle first
          have going : ∃ text, (findLoop nested overlap name root rest text).run middle = .ok (found, path') fs' := by
            dsimp only at later
            split at later
            · split at later
              · exact ⟨_, later⟩
              · cases later
            · exact ⟨_, later⟩
          obtain ⟨text, going⟩ := going
          exact (run_bind_ok _ _ _ _ _).mpr ⟨.next (), middle, (run_bind_ok _ _ _ _ _).mpr ⟨code, middle, called, rfl⟩,
            ih text middle going⟩
        · rw [if_neg kind] at done ⊢
          exact ih path fs done
      · rw [if_neg other] at done ⊢
        split at done
        · cases done
          rfl
        · cases done

theorem find_in_code (fuel : Nat) (root path path' : Bytes) (fs fs' : Fs) (code : Int)
    (done : (findIn sys overlap name fuel root path).run fs = .ok (code, path') fs') :
    (Busybox.find sys name fuel root).run fs = .ok code fs' := by
  induction fuel generalizing root path path' fs fs' code with
  | zero => cases done
  | succ fuel ih =>
      rw [findIn, run_get_bind] at done
      rw [Busybox.find, walk, run_get_bind]
      cases opened : fs.opendir sys root with
      | none =>
          rw [opened] at done
          cases done
          rfl
      | some entries =>
          rw [opened] at done
          obtain ⟨_, middle, enter, later⟩ := (run_bind_ok _ _ _ _ _).mp done
          obtain ⟨⟨found, text⟩, after, looped, last⟩ := (run_bind_ok _ _ _ _ _).mp later
          have walked := find_loop_code sys overlap name _ _ root
            (fun text path fs code path' fs' => ih text path path' fs fs' code) entries path text middle after found looped
          refine (run_bind_ok _ _ _ _ _).mpr ⟨(), middle, enter, (run_bind_ok _ _ _ _ _).mpr ⟨_, after, walked, ?_⟩⟩
          cases found with
          | true =>
              cases last
              rfl
          | false =>
              obtain ⟨_, left, leave, returned⟩ := (run_bind_ok _ _ _ _ _).mp last
              cases returned
              exact (run_bind_ok _ _ _ _ _).mpr ⟨(), _, leave, rfl⟩

section
variable (nested : Bytes → Bytes → Cmd (Int × Bytes)) (root : Bytes)

theorem find_loop_cons (e : Name × Kind) (rest : List (Name × Kind)) (path : Bytes) :
    findLoop nested overlap name root ((e :: rest).map dirent) path =
      if e.1.val ≠ name then
        if e.2 = .dir then nested e.1.val path >>= fun answer =>
          if answer.1 ≠ 0 then
            match overlap root answer.2 with
            | some path => findLoop nested overlap name root (rest.map dirent) path
            | none => throw .fault
          else findLoop nested overlap name root (rest.map dirent) answer.2
        else findLoop nested overlap name root (rest.map dirent) path
      else if path.length + e.1.val.length < pathSz then pure (true, path ++ e.1.val)
      else throw .fault := by
  rw [List.map_cons, findLoop]
  exact if_neg (entry_name e)

variable (t : Tree Name Stat) (r : Place)

theorem find_loop_calm (es : List (Name × Kind)) (path : Bytes)
    (calm : ∀ e ∈ ahead name es, e.2 = .dir → (nested e.1.val path).run ⟨t, r⟩ = .ok (0, path) ⟨t, r⟩) :
    (findLoop nested overlap name root (es.map dirent) path).run ⟨t, r⟩ =
      if ∀ e ∈ es, e.1.val ≠ name then .ok (false, path) ⟨t, r⟩
      else if path.length + name.length < pathSz then .ok (true, path ++ name) ⟨t, r⟩ else .error .fault ⟨t, r⟩ := by
  induction es with
  | nil => simp [findLoop]
  | cons e rest ih =>
      rw [find_loop_cons]
      by_cases same : e.1.val = name
      · have meets : ¬∀ other ∈ e :: rest, other.1.val ≠ name := fun lacks => lacks e List.mem_cons_self same
        rw [if_neg (not_not.mpr same), if_neg meets, same]
        split <;> rfl
      · rw [if_pos same]
        have front : ahead name (e :: rest) = e :: ahead name rest := List.takeWhile_cons_of_pos (decide_eq_true same)
        rw [front] at calm
        have later := ih fun other member => calm other (List.mem_cons_of_mem _ member)
        have all : (∀ other ∈ e :: rest, other.1.val ≠ name) ↔ ∀ other ∈ rest, other.1.val ≠ name := by
          rw [List.forall_mem_cons]
          exact and_iff_right same
        rw [if_congr all rfl rfl, ← later]
        by_cases kind : e.2 = .dir
        · rw [if_pos kind, EStateM.run_bind, calm e List.mem_cons_self kind]
          rfl
        · rw [if_neg kind]

theorem find_loop_silent (es : List (Name × Kind)) (quiet : Name × Kind → Prop)
    (calm : ∀ e ∈ es, e.2 = .dir → quiet e → ∀ path, (nested e.1.val path).run ⟨t, r⟩ = .ok (0, path) ⟨t, r⟩)
    (silent : ∀ e ∈ es, e.2 = .dir → ∀ path path' fs', (nested e.1.val path).run ⟨t, r⟩ = .ok (0, path') fs' → quiet e)
    (path : Bytes) (value : Bool × Bytes) (fs' : Fs)
    (done : (findLoop nested (fun _ _ => none) name root (es.map dirent) path).run ⟨t, r⟩ = .ok value fs') :
    ∀ e ∈ ahead name es, e.2 = .dir → quiet e := by
  induction es with
  | nil => simp [ahead]
  | cons e rest ih =>
      rw [find_loop_cons] at done
      by_cases same : e.1.val = name
      · have front : ahead name (e :: rest) = [] := List.takeWhile_cons_of_neg (by simp [same])
        simp [front]
      · have front : ahead name (e :: rest) = e :: ahead name rest := List.takeWhile_cons_of_pos (decide_eq_true same)
        have later := ih (fun other member => calm other (List.mem_cons_of_mem _ member))
          fun other member => silent other (List.mem_cons_of_mem _ member)
        rw [if_pos same] at done
        rw [front, List.forall_mem_cons]
        by_cases kind : e.2 = .dir
        · rw [if_pos kind] at done
          obtain ⟨⟨code, text⟩, middle, called, going⟩ := (run_bind_ok _ _ _ _ _).mp done
          by_cases zero : code = 0
          · subst zero
            have still := silent e List.mem_cons_self kind path text middle called
            rw [calm e List.mem_cons_self kind still path] at called
            cases called
            exact ⟨fun _ => still, later going⟩
          · rw [if_pos zero] at going
            cases going
        · rw [if_neg kind] at done
          exact ⟨fun dir => absurd dir kind, later done⟩

end

theorem find_in_opened (fuel : Nat) (root path : Bytes) (p : Place) (fs : Fs) (found : fs.locate root = some p)
    (dir : fs.tree.IsDir p) (opens : sys.opendir p = true) (permitted : sys.chdir p = true) :
    (findIn sys overlap name (fuel + 1) root path).run fs =
      (findLoop (findIn sys overlap name fuel) overlap name root ((fs.tree.entries p).map dirent) path >>= fun answer =>
        if answer.1 = true then pure (1, answer.2)
        else chdir sys [46, 46] >>= fun _ => pure (0, answer.2)).run ⟨fs.tree, p⟩ := by
  have enter : (chdir sys root).run fs = .ok () ⟨fs.tree, p⟩ := by
    rw [chdir, EStateM.run_modify, chdir_locate sys root fs p found dir permitted]
  have dots : ∀ entries, findLoop (findIn sys overlap name fuel) overlap name root
      (⟨[46], .dir⟩ :: ⟨[46, 46], .dir⟩ :: entries) path = findLoop (findIn sys overlap name fuel) overlap name root entries path := by
    intro entries
    rw [findLoop, if_pos (.inl rfl), findLoop, if_pos (.inr rfl)]
  rw [findIn, run_get_bind, opendir_some sys root fs p found dir opens]
  dsimp only
  rw [EStateM.run_bind, enter, dots]

theorem find_in_refused (fuel : Nat) (root path : Bytes) (p : Place) (fs : Fs) (found : fs.locate root = some p)
    (shut : ¬sys.opendir p = true) : (findIn sys overlap name (fuel + 1) root path).run fs = .ok (-1, path) fs := by
  rw [findIn, run_get_bind, (opendir_none sys root fs p found).mpr fun both => shut both.2]
  rfl

variable (t : Tree Name Stat)

theorem quiet_dir (r : Place) (dir : t.IsDir r) : Quiet sys t name r ↔
    sys.opendir r = true ∧ ∀ e ∈ t.entries r, e.1.val ≠ name ∧ (e.2 = .dir → Quiet sys t name (e.1 :: r)) := by
  constructor
  · intro quiet
    refine ⟨(quiet r List.suffix_rfl dir).1, fun e member => ⟨?_, ?_⟩⟩
    · exact (quiet r List.suffix_rfl dir).2 e.1 (entry_has t r e member)
    · exact fun _ q under => quiet q ((List.suffix_cons _ _).trans under)
  · rintro ⟨opens, each⟩ q under isDir
    rcases beneath_or_same r q under with rfl | ⟨n, deeper⟩
    · refine ⟨opens, fun n has => ?_⟩
      obtain ⟨kind, member⟩ := has_entry t _ n has
      exact (each _ member).1
    · have step : t.IsDir (n :: r) := above_dir t q _ deeper isDir
      obtain ⟨kind, member⟩ := has_entry t r n (dir_has t _ step)
      exact (each _ member).2 ((entry_dir_iff t r _ member).mp step) q deeper isDir

theorem ahead_all (es : List (Name × Kind)) (lacks : ∀ e ∈ es, e.1.val ≠ name) : ahead name es = es :=
  List.takeWhile_eq_self_iff.mpr fun e member => decide_eq_true (lacks e member)

-- The calls for the directories of `p`: one returns 0 in the place it started from where all
-- is quiet below, and, where an overlapping sprintf does not end, only there.
structure NestedCalls (fuel : Nat) (p : Place) : Prop where
  calm : ∀ overlap : Bytes → Bytes → Option Bytes, ∀ e ∈ t.entries p, e.2 = .dir → Quiet sys t name (e.1 :: p) →
    ∀ path, (findIn sys overlap name fuel e.1.val path).run ⟨t, p⟩ = .ok (0, path) ⟨t, p⟩
  silent : ∀ e ∈ t.entries p, e.2 = .dir → ∀ path path' fs',
    (findIn sys (fun _ _ => none) name fuel e.1.val path).run ⟨t, p⟩ = .ok (0, path') fs' → Quiet sys t name (e.1 :: p)

section
variable (fuel : Nat) (p : Place) (calls : NestedCalls sys name t fuel p) (root path : Bytes)
include calls

theorem find_in_calm (quiet : ∀ e ∈ ahead name (t.entries p), e.2 = .dir → Quiet sys t name (e.1 :: p)) :
    (findLoop (findIn sys overlap name fuel) overlap name root ((t.entries p).map dirent) path).run ⟨t, p⟩ =
      if ∀ e ∈ t.entries p, e.1.val ≠ name then .ok (false, path) ⟨t, p⟩
      else if path.length + name.length < pathSz then .ok (true, path ++ name) ⟨t, p⟩ else .error .fault ⟨t, p⟩ :=
  find_loop_calm overlap name (findIn sys overlap name fuel) root t p (t.entries p) path fun e member kind =>
    calls.calm overlap e ((List.takeWhile_sublist _).subset member) kind (quiet e member kind) path

theorem find_in_silent (value : Bool × Bytes) (fs' : Fs) (done : (findLoop (findIn sys (fun _ _ => none) name fuel)
      (fun _ _ => none) name root ((t.entries p).map dirent) path).run ⟨t, p⟩ = .ok value fs') :
    ∀ e ∈ ahead name (t.entries p), e.2 = .dir → Quiet sys t name (e.1 :: p) :=
  find_loop_silent name (findIn sys (fun _ _ => none) name fuel) root t p (t.entries p)
    (fun e => Quiet sys t name (e.1 :: p)) (calls.calm _) calls.silent path value fs' done

theorem quiet_returns (dir : t.IsDir p) (opens : sys.opendir p = true) (permitted : sys.chdir p = true) (fs : Fs)
    (tree : fs.tree = t) (found : fs.locate root = some p) (quiet : Quiet sys t name p) :
    (findIn sys overlap name (fuel + 1) root path).run fs = .ok (0, path) (Fs.chdir sys [46, 46] ⟨t, p⟩) := by
  subst tree
  obtain ⟨-, each⟩ := (quiet_dir sys name fs.tree p dir).mp quiet
  have named : ∀ e ∈ fs.tree.entries p, e.1.val ≠ name := fun e member => (each e member).1
  have looped := find_in_calm sys overlap name fs.tree fuel p calls root path fun e member =>
    (each e ((List.takeWhile_sublist _).subset member)).2
  rw [if_pos named] at looped
  have leave : (chdir sys [46, 46]).run ⟨fs.tree, p⟩ = .ok () (Fs.chdir sys [46, 46] ⟨fs.tree, p⟩) := rfl
  rw [find_in_opened sys overlap name fuel root path p fs found dir opens permitted]
  exact (run_bind_ok _ _ _ _ _).mpr ⟨_, _, looped, (run_bind_ok _ _ _ _ _).mpr ⟨(), _, leave, rfl⟩⟩

theorem zero_quiet (dir : t.IsDir p) (opens : sys.opendir p = true) (permitted : sys.chdir p = true) (fs fs' : Fs)
    (tree : fs.tree = t) (found : fs.locate root = some p) (path' : Bytes)
    (done : (findIn sys (fun _ _ => none) name (fuel + 1) root path).run fs = .ok (0, path') fs') : Quiet sys t name p := by
  subst tree
  rw [find_in_opened sys _ name fuel root path p fs found dir opens permitted] at done
  obtain ⟨answer, after, looped, last⟩ := (run_bind_ok _ _ _ _ _).mp done
  have quiet := find_in_silent sys name fs.tree fuel p calls root path answer after looped
  by_cases named : ∀ e ∈ fs.tree.entries p, e.1.val ≠ name
  · rw [ahead_all name _ named] at quiet
    exact (quiet_dir sys name fs.tree p dir).mpr ⟨opens, fun e member => ⟨named e member, quiet e member⟩⟩
  · -- The name is met here, so 1 is returned.
    have met := find_in_calm sys (fun _ _ => none) name fs.tree fuel p calls root path quiet
    rw [if_neg named, looped] at met
    split at met
    · cases met
      cases last
    · cases met

end

theorem nested_calls (fuel : Nat) (p : Place) (permitted : sys.chdir p = true)
    (enters : ∀ q, p <:+ q → sys.opendir q = true → sys.chdir q = true) (enough : t.depth ≤ fuel + p.length) :
    NestedCalls sys name t fuel p := by
  induction fuel generalizing p with
  | zero =>
      have none : ∀ e ∈ t.entries p, False := by
        intro e member
        have inside := has_shallow t _ (entry_has t p e member)
        rw [List.length_cons] at inside
        omega
      exact ⟨fun _ e member => (none e member).elim, fun e member => (none e member).elim⟩
  | succ fuel ih =>
      have entry : ∀ e ∈ t.entries p, e.2 = .dir → t.IsDir (e.1 :: p) ∧ Fs.locate ⟨t, p⟩ e.1.val = some (e.1 :: p) := by
        intro e member kind
        have dir := (entry_dir_iff t p e member).mpr kind
        exact ⟨dir, locate_dir ⟨t, p⟩ e.1 dir⟩
      have calls : ∀ e : Name × Kind, sys.opendir (e.1 :: p) = true → NestedCalls sys name t fuel (e.1 :: p) :=
        fun e opens => ih (e.1 :: p) (enters _ (List.suffix_cons _ _) opens) (fun q under => enters q ((List.suffix_cons _ _).trans under))
          (by rw [List.length_cons]; omega)
      constructor
      · intro overlap e member kind quiet path
        obtain ⟨dir, found⟩ := entry e member kind
        have opens := (quiet (e.1 :: p) List.suffix_rfl dir).1
        rw [quiet_returns sys overlap name t fuel (e.1 :: p) (calls e opens) e.1.val path dir opens
          (enters _ (List.suffix_cons _ _) opens) ⟨t, p⟩ rfl found quiet, chdir_up sys ⟨t, e.1 :: p⟩ dir permitted]
        rfl
      · intro e member kind path path' fs' done
        obtain ⟨dir, found⟩ := entry e member kind
        by_cases opens : sys.opendir (e.1 :: p) = true
        · exact zero_quiet sys name t fuel (e.1 :: p) (calls e opens) e.1.val path dir opens
            (enters _ (List.suffix_cons _ _) opens) ⟨t, p⟩ fs' rfl found path' done
        · rw [find_in_refused sys _ name fuel e.1.val path (e.1 :: p) ⟨t, p⟩ found opens] at done
          cases done

theorem named_entry (p : Place) (n : Name) (has : t.Has (n :: p)) : NamedBelow t n.val p (n :: p) :=
  ⟨has, beneath_next n p, rfl⟩

theorem route_entry (p : Place) (n : Name) : route p (n :: p) = n.val := by
  have one : (n :: p).take ((n :: p).length - p.length) = [n] := by simp
  rw [route, one]
  simp

theorem quiet_unnamed (p : Place) (quiet : Quiet sys t name p) : ¬∃ q, NamedBelow t name p q := by
  rintro ⟨q, has, ⟨m, under⟩, named⟩
  cases q with
  | nil => cases named
  | cons n q =>
      refine (quiet q ?_ (parent_dir t n q has)).2 n has (Option.some.inj named)
      exact suffix_tail m p (n :: q) under

end

section
variable (sys : System) (name : Bytes) (fuel : Nat) (root : Bytes) (p : Place) (fs : Fs) (found : fs.locate root = some p)
  (dir : fs.tree.IsDir p) (opens : sys.opendir p = true) (permitted : sys.chdir p = true)
  (calls : NestedCalls sys name fs.tree fuel p)
include found dir opens permitted calls

theorem right_guarded (right : FindRight sys (fun _ _ => none) name (fuel + 1) root p fs) : FindGuard sys fs.tree name p := by
  obtain ⟨code, path, fs', done, -⟩ := right
  rw [find_in_opened sys _ name fuel root [] p fs found dir opens permitted] at done
  obtain ⟨answer, after, looped, -⟩ := (run_bind_ok _ _ _ _ _).mp done
  have quiet := find_in_silent sys name fs.tree fuel p calls root [] answer after looped
  refine ⟨opens, quiet, fun n has named => ?_⟩
  by_contra long
  obtain ⟨kind, member⟩ := has_entry fs.tree p n has
  have met := find_in_calm sys (fun _ _ => none) name fs.tree fuel p calls root [] quiet
  rw [if_neg fun lacks => lacks _ member named, if_neg (by simpa using long), looped] at met
  cases met

theorem guarded_right (guard : FindGuard sys fs.tree name p) (overlap : Bytes → Bytes → Option Bytes) :
    FindRight sys overlap name (fuel + 1) root p fs := by
  by_cases named : ∀ e ∈ fs.tree.entries p, e.1.val ≠ name
  · have quiet : Quiet sys fs.tree name p := (quiet_dir sys name fs.tree p dir).mpr
      ⟨opens, fun e member => ⟨named e member, guard.quiet e ((ahead_all name _ named).symm ▸ member)⟩⟩
    exact ⟨0, [], _, quiet_returns sys overlap name fs.tree fuel p calls root [] dir opens permitted fs rfl found quiet,
      .inl rfl, iff_of_false (by decide) (quiet_unnamed sys name fs.tree p quiet), fun one => absurd one (by decide)⟩
  · obtain ⟨e, member, same⟩ : ∃ e ∈ fs.tree.entries p, e.1.val = name := by
      by_contra lacks
      exact named fun e member same => lacks ⟨e, member, same⟩
    have has := entry_has fs.tree p e member
    have below : NamedBelow fs.tree name p (e.1 :: p) := same ▸ named_entry fs.tree p e.1 has
    have looped := find_in_calm sys overlap name fs.tree fuel p calls root [] guard.quiet
    rw [if_neg named, if_pos (by simpa using guard.fits e.1 has same)] at looped
    rw [FindRight, find_in_opened sys overlap name fuel root [] p fs found dir opens permitted]
    refine ⟨1, name, ⟨fs.tree, p⟩, (run_bind_ok _ _ _ _ _).mpr ⟨_, _, looped, rfl⟩, .inr rfl,
      iff_of_true rfl ⟨_, below⟩, fun _ => ⟨_, below, ?_⟩⟩
    rw [route_entry, same]

end

theorem find_right_iff (sys : System) (name : Bytes) (fuel : Nat) (root : Bytes) (p : Place) (fs : Fs)
    (found : fs.locate root = some p) (dir : fs.tree.IsDir p)
    (enters : ∀ q, p <:+ q → sys.opendir q = true → sys.chdir q = true) (enough : fs.tree.depth < fuel) :
    (∀ overlap : Bytes → Bytes → Option Bytes, FindRight sys overlap name fuel root p fs) ↔
      FindGuard sys fs.tree name p := by
  obtain ⟨fuel, rfl⟩ : ∃ rest, fuel = rest + 1 := ⟨fuel - 1, by omega⟩
  by_cases opens : sys.opendir p = true
  · have permitted := enters p List.suffix_rfl opens
    have calls := nested_calls sys name fs.tree fuel p permitted enters (by omega)
    constructor
    · exact fun right => right_guarded sys name fuel root p fs found dir opens permitted calls (right _)
    · exact guarded_right sys name fuel root p fs found dir opens permitted calls
  · refine iff_of_false (fun right => ?_) fun guard => opens guard.opens
    obtain ⟨code, path, fs', done, small, -⟩ := right fun _ _ => none
    rw [find_in_refused sys _ name fuel root [] p fs found opens] at done
    cases done
    revert small
    decide

-- "find f a", where "/a/f" is there.
theorem find_right_top : FindRight allowed (fun _ _ => none) [102] 3 [97] [nameA] ⟨twins, []⟩ := by
  have front : ahead [102] (twins.entries [nameA]) = [] := by decide
  refine (find_right_iff allowed [102] 3 [97] [nameA] ⟨twins, []⟩ (by decide) (by decide) (fun _ _ _ => rfl) (by decide)).mpr
    ⟨rfl, fun e member => ?_, fun _ _ _ => by decide⟩ _
  rw [front] at member
  cases member

def deepF : Tree Name Stat := twins.erase [nameF] (by decide)

-- "find f /", where "/a/f" is the only "f": it is met in the call for "a", and 0 is returned.
theorem find_nested_missed : ¬∃ overlap, FindRight allowed overlap [102] 3 [47] [] ⟨deepF, []⟩ := by
  rintro ⟨overlap, code, path, fs', done, -, hit, -⟩
  have below : NamedBelow deepF [102] [] [nameF, nameA] := ⟨by decide, ⟨nameA, List.suffix_cons nameF [nameA]⟩, rfl⟩
  have one := hit.mpr ⟨_, below⟩
  have plain := find_in_code allowed overlap [102] 3 [47] [] path ⟨deepF, []⟩ fs' code done
  have missed : (Busybox.find allowed [102] 3 [47]).run ⟨deepF, []⟩ = .ok 0 ⟨deepF, []⟩ := rfl
  rw [missed] at plain
  cases plain
  cases one

end Yaup.Busybox
