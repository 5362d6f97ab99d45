import Yaup.Lib.Triple
import Yaup.Walkers

set_option autoImplicit false

namespace Yaup.Busybox

open Lib

theorem entry_name (e : Name × Kind) : ¬((dirent e).name = [46] ∨ (dirent e).name = [46, 46]) := by
  rintro (same | same)
  · exact e.1.property.2.2.1 same
  · exact e.1.property.2.2.2 same

section
variable {σ : Type} (visit : Dirent → σ → Cmd (Turn σ))

theorem walk_entries_dots (entries : List Dirent) (s : σ) :
    walkEntries visit (⟨[46], .dir⟩ :: ⟨[46, 46], .dir⟩ :: entries) s = walkEntries visit entries s := by
  rw [walkEntries, if_pos (.inl rfl), walkEntries, if_pos (.inr rfl)]

theorem walk_entries_cons (e : Name × Kind) (rest : List (Name × Kind)) (s : σ) :
    walkEntries visit ((e :: rest).map dirent) s = (visit (dirent e) s >>= fun turn =>
      match turn with
      | .stop code => pure (.stop code)
      | .next s => walkEntries visit (rest.map dirent) s) := by
  rw [List.map_cons, walkEntries]
  exact if_neg (entry_name e)

end

section
variable {σ : Type} (sys : System) (w : Walker σ) (fuel : Nat) (path : Bytes) (fs : Fs)

theorem walk_refused (refused : fs.opendir sys path = none) : (walk sys w (fuel + 1) path).run fs = .ok w.failed fs := by
  rw [walk, run_get_bind, refused]
  rfl

def walkOpened (entries : List (Name × Kind)) : Cmd Int := do
  w.enter path
  match ← walkEntries (w.visit (walk sys w fuel) path) (entries.map dirent) w.start with
  | .stop code => return code
  | .next s =>
      w.leave
      return w.code s

theorem walk_opened (p : Place) (found : fs.locate path = some p) (dir : fs.tree.IsDir p) (opens : sys.opendir p = true) :
    (walk sys w (fuel + 1) path).run fs = (walkOpened sys w fuel path (fs.tree.entries p)).run fs := by
  rw [walk, run_get_bind, opendir_some sys path fs p found dir opens, walkOpened]
  dsimp only
  refine congrArg (EStateM.run · fs) (bind_congr fun _ => ?_)
  refine (congrArg (· >>= _) (walk_entries_dots _ _ _)).trans (bind_congr fun turn => ?_)
  cases turn with
  | stop code => rfl
  | next s => rfl

theorem opendir_none (p : Place) (found : fs.locate path = some p) :
    fs.opendir sys path = none ↔ ¬(fs.tree.IsDir p ∧ sys.opendir p = true) := by
  rw [Fs.opendir, found]
  by_cases opens : fs.tree.IsDir p ∧ sys.opendir p = true
  · simp [opens]
  · exact iff_of_true (if_neg opens) opens

theorem opendir_opened (opened : fs.opendir sys path ≠ none) :
    ∃ p, fs.locate path = some p ∧ fs.tree.IsDir p ∧ sys.opendir p = true := by
  cases found : fs.locate path with
  | none => exact absurd (by rw [Fs.opendir, found]) opened
  | some p => exact ⟨p, rfl, not_not.mp fun shut => opened ((opendir_none sys path fs p found).mpr shut)⟩

end

def Ends {α : Type} (pre : Fs → Prop) (x : Cmd α) (post : α → Fs → Prop) : Prop := Triple pre x post fun e _ => e ≠ .spent

-- What a walker keeps of the tree `t` that it starts on; when an entry lets it go on; and
-- the answers it gives after a walk that went on and after one that did not.
structure Ways where
  frame : Tree Name Stat → Prop
  passes : Place → Bytes → Name → Prop
  fine : Int → Prop
  dirty : Int → Prop

inductive Clean (sys : System) (t : Tree Name Stat) (passes : Place → Bytes → Name → Prop) : Place → Bytes → Prop where
  | intro (p : Place) (path : Bytes) (enters : sys.chdir p = true) (each : ∀ n, passes p path n)
      (deeper : ∀ n, t.IsDir (n :: p) → sys.opendir (n :: p) = true → Clean sys t passes (n :: p) n.val) :
      Clean sys t passes p path

theorem clean_all (sys : System) (t : Tree Name Stat) (passes : Place → Bytes → Name → Prop) (good : Place → Bytes → Prop)
    (enters : ∀ p, sys.chdir p = true) (each : ∀ p path, good p path → ∀ n, passes p path n)
    (deeper : ∀ p path n, good p path → t.IsDir (n :: p) → good (n :: p) n.val) (p : Place) (path : Bytes)
    (start : good p path) : Clean sys t passes p path := by
  generalize room : t.depth - p.length = k
  induction k generalizing p path with
  | zero =>
      refine .intro p path (enters p) (each p path start) fun n dir _ => ?_
      have inside := has_shallow t _ (dir_has t _ dir)
      rw [List.length_cons] at inside
      omega
  | succ k ih =>
      refine .intro p path (enters p) (each p path start) fun n dir _ => ih _ _ (deeper p path n start dir) ?_
      rw [List.length_cons]
      omega

theorem clean_below (sys : System) (t : Tree Name Stat) (passes : Place → Bytes → Name → Prop) (p r : Place) (path : Bytes)
    (clean : Clean sys t passes p path) (opens : ∀ q, sys.opendir q = true) (under : p <:+ r) (n : Name)
    (dir : t.IsDir (n :: r)) : Clean sys t passes (n :: r) n.val := by
  obtain ⟨front, rfl⟩ := under
  induction front generalizing n with
  | nil =>
      cases clean with
      | intro _ _ enters each deeper => exact deeper n dir (opens _)
  | cons m front ih =>
      cases ih m (tail_dir t _ dir) with
      | intro _ _ enters each deeper => exact deeper n dir (opens _)

theorem not_clean (sys : System) (t : Tree Name Stat) (passes : Place → Bytes → Name → Prop) (p : Place) (path : Bytes)
    (enters : sys.chdir p = true) (stops : ¬Clean sys t passes p path) :
    ∃ n, ¬passes p path n ∨ t.IsDir (n :: p) ∧ sys.opendir (n :: p) = true ∧ ¬Clean sys t passes (n :: p) n.val := by
  by_contra none
  simp only [not_exists, not_or, not_and, not_not] at none
  exact stops (.intro p path enters (fun n => (none n).1) fun n dir opens => (none n).2 dir opens)

section
variable {σ : Type} (sys : System) (w : Walker σ) (t : Tree Name Stat) (ways : Ways)

def At (p : Place) (fs : Fs) : Prop := ways.frame fs.tree ∧ fs.cwd = p

def Within (p : Place) (fs : Fs) : Prop := ways.frame fs.tree ∧ p <:+ fs.cwd ∧ t.IsDir fs.cwd

def Strayed (p : Place) (turn : Turn σ) (fs : Fs) : Prop :=
  match turn with
  | .stop code => ways.dirty code ∧ Within t ways p fs
  | .next _ => (∀ code, ways.dirty code) ∧ ∃ n, Within t ways (n :: p) fs

structure Follows : Prop where
  dirs : ∀ t', ways.frame t' → ∀ p, t'.IsDir p ↔ t.IsDir p
  seen : ∀ t' p path n, ways.frame t' → ¬ways.passes p path n → t'.Has (n :: p)
  opens : ∀ p path n, ways.passes p path n → t.IsDir (n :: p) → sys.opendir (n :: p) = true ∨ ways.fine w.failed
  enter : ∀ p path, t.IsDir p → sys.chdir p = true →
    Ends (fun fs => ways.frame fs.tree ∧ fs.locate path = some p) (w.enter path) fun _ => At ways p
  leave : w.leave = chdir sys [46, 46]
  code : ∀ s, ways.fine (w.code s)
  roams : ∀ p nested path e s, Ends (Within t ways p) (nested e.1.val) (fun _ => Within t ways p) →
    Ends (Within t ways p) (w.visit nested path (dirent e) s) fun _ => Within t ways p
  goes : ∀ p nested path e s, (∃ t', ways.frame t' ∧ e ∈ t'.entries p) → ways.passes p path e.1 →
    (e.2 = .dir → Ends (At ways p) (nested e.1.val) fun code fs => ways.fine code ∧ At ways p fs) →
    Ends (At ways p) (w.visit nested path (dirent e) s) fun turn fs => (∃ s', turn = .next s') ∧ At ways p fs
  balks : ∀ p nested path e s, t.IsDir p → ¬ways.passes p path e.1 → (e.2 = .dir ↔ t.IsDir (e.1 :: p)) →
    (e.2 = .dir → Ends (At ways p) (nested e.1.val) fun code fs =>
      (if sys.opendir (e.1 :: p) = true then ways.fine code else code = w.failed) ∧ At ways p fs) →
    Ends (At ways p) (w.visit nested path (dirent e) s) (Strayed t ways p)
  follows : ∀ p nested path e s, t.IsDir p → e.2 = .dir →
    Ends (At ways p) (nested e.1.val) (fun code fs => ways.dirty code ∧ Within t ways (e.1 :: p) fs) →
    Ends (At ways p) (w.visit nested path (dirent e) s) (Strayed t ways p)

theorem at_within (p : Place) (fs : Fs) (dir : t.IsDir p) (here : At ways p fs) : Within t ways p fs := by
  obtain ⟨frame, cwd⟩ := here
  exact ⟨frame, cwd ▸ List.suffix_rfl, cwd ▸ dir⟩

theorem within_above (p : Place) (n : Name) (fs : Fs) (deep : Within t ways (n :: p) fs) : Within t ways p fs :=
  ⟨deep.1, (List.suffix_cons n p).trans deep.2.1, deep.2.2⟩

theorem suffix_tail (n : Name) (p q : Place) (deep : n :: p <:+ q) : p <:+ q.tail := by
  obtain ⟨front, rfl⟩ := deep
  cases front with
  | nil => exact List.suffix_rfl
  | cons m front => exact (List.suffix_cons n p).trans (List.suffix_append front _)

variable (follows : Follows sys w t ways)
include follows

theorem located_name (p : Place) (n : Name) (fs : Fs) (here : At ways p fs) (dir : t.IsDir (n :: p)) :
    fs.locate n.val = some (n :: p) := by
  obtain ⟨frame, cwd⟩ := here
  have has := dir_has _ _ ((follows.dirs fs.tree frame (n :: p)).mpr dir)
  rw [locate_name, cwd, if_pos has]

theorem leave_up (everywhere : ∀ p, sys.chdir p = true) (p : Place) (n : Name) :
    Ends (Within t ways (n :: p)) w.leave fun _ => Within t ways p := by
  rw [follows.leave]
  refine triple_modify _ _ _ _ ?_
  rintro fs ⟨frame, deep, dir⟩
  rw [chdir_up sys fs ((follows.dirs fs.tree frame fs.cwd).mpr dir) (everywhere _)]
  exact ⟨frame, suffix_tail n p fs.cwd deep, tail_dir t fs.cwd dir⟩

theorem roam_entries (p : Place) (nested : Bytes → Cmd Int) (path : Bytes) (es : List (Name × Kind)) (s : σ)
    (each : ∀ n : Name, Ends (Within t ways p) (nested n.val) fun _ => Within t ways p) :
    Ends (Within t ways p) (walkEntries (w.visit nested path) (es.map dirent) s) fun _ => Within t ways p := by
  induction es generalizing s with
  | nil => exact triple_pure _ _ _ _ fun _ same => same
  | cons e rest ih =>
      rw [walk_entries_cons]
      refine triple_bind _ _ _ _ _ _ (follows.roams p nested path e s (each e.1)) fun turn => ?_
      cases turn with
      | stop code => exact triple_pure _ _ _ _ fun _ same => same
      | next s => exact ih s

-- A walk that starts anywhere below a place ends below it too: whatever the calls inside do,
-- it goes down by a name before it goes up. By induction on the fuel.
theorem roam (everywhere : ∀ p, sys.chdir p = true) (fuel : Nat) (p : Place) (n : Name) (enough : t.depth < fuel + p.length) :
    Ends (Within t ways p) (walk sys w fuel n.val) fun _ => Within t ways p := by
  induction fuel generalizing p n with
  | zero =>
      rintro fs ⟨frame, below, dir⟩
      have inside := has_shallow t fs.cwd (dir_has t fs.cwd dir)
      have shorter := below.length_le
      omega
  | succ fuel ih =>
      rintro fs ⟨frame, below, dir⟩
      by_cases opens : fs.tree.IsDir (n :: fs.cwd) ∧ sys.opendir (n :: fs.cwd) = true
      · have found := locate_dir fs n opens.1
        have deeper : t.IsDir (n :: fs.cwd) := (follows.dirs fs.tree frame _).mp opens.1
        have room : t.depth < fuel + (n :: fs.cwd).length := by
          have shorter := below.length_le
          rw [List.length_cons]
          omega
        rw [walk_opened sys w fuel n.val fs (n :: fs.cwd) found opens.1 opens.2]
        have whole : Ends (fun g => ways.frame g.tree ∧ g.locate n.val = some (n :: fs.cwd))
            (walkOpened sys w fuel n.val (fs.tree.entries (n :: fs.cwd))) fun _ => Within t ways p := by
          refine triple_bind _ _ _ _ _ _ (follows.enter (n :: fs.cwd) n.val deeper (everywhere _)) fun _ => ?_
          refine triple_weaken _ (Within t ways (n :: fs.cwd)) _ _ (fun _ => Within t ways p) _ ?_
            (fun g here => at_within t ways _ g deeper here) fun _ _ same => same
          refine triple_bind _ _ _ _ _ _ (roam_entries sys w t ways follows (n :: fs.cwd) _ n.val _ w.start
            fun m => ih (n :: fs.cwd) m room) fun turn => ?_
          have up : ∀ g, Within t ways fs.cwd g → Within t ways p g := fun g deep => ⟨deep.1, below.trans deep.2.1, deep.2.2⟩
          cases turn with
          | stop code => exact triple_pure _ _ _ _ fun g deep => up g (within_above t ways fs.cwd n g deep)
          | next s =>
              refine triple_bind _ _ _ _ _ _ (leave_up sys w t ways follows everywhere fs.cwd n) fun _ => ?_
              exact triple_pure _ _ _ _ up
        exact whole fs ⟨frame, found⟩
      · have refused : fs.opendir sys n.val = none := by
          by_cases has : fs.tree.Has (n :: fs.cwd)
          · exact (opendir_none sys n.val fs _ (by rw [locate_name, if_pos has])).mpr opens
          · rw [Fs.opendir, locate_name, if_neg has]
        rw [walk_refused sys w fuel n.val fs refused]
        refine ⟨?_, ?_⟩
        · intro code g done
          cases done
          exact ⟨frame, below, dir⟩
        · intro e g halted
          cases halted

theorem nested_refused (fuel : Nat) (p : Place) (n : Name) (dir : t.IsDir (n :: p)) (shut : ¬sys.opendir (n :: p) = true) :
    Ends (At ways p) (walk sys w (fuel + 1) n.val) fun code fs => code = w.failed ∧ At ways p fs := by
  refine triple_returns _ _ _ _ ?_
  intro fs here
  have found := located_name sys w t ways follows p n fs here dir
  have refused := (opendir_none sys n.val fs _ found).mpr fun opens => shut opens.2
  exact ⟨_, fs, walk_refused sys w fuel n.val fs refused, rfl, here⟩

theorem kind_dir (p : Place) (fs : Fs) (e : Name × Kind) (frame : ways.frame fs.tree) (member : e ∈ fs.tree.entries p) :
    e.2 = .dir ↔ t.IsDir (e.1 :: p) := by
  have here := (mem_entries fs.tree p e.1 e.2).mp member
  rw [← follows.dirs fs.tree frame, Tree.IsDir, here, Option.some.injEq]

omit follows in
theorem clean_entries (p : Place) (nested : Bytes → Cmd Int) (path : Bytes) (es : List (Name × Kind)) (s : σ)
    (each : ∀ e ∈ es, ∀ s, Ends (At ways p) (w.visit nested path (dirent e) s)
      fun turn fs => (∃ s', turn = .next s') ∧ At ways p fs) :
    Ends (At ways p) (walkEntries (w.visit nested path) (es.map dirent) s)
      fun turn fs => (∃ s', turn = .next s') ∧ At ways p fs := by
  induction es generalizing s with
  | nil => exact triple_pure _ _ _ _ fun _ same => ⟨⟨s, rfl⟩, same⟩
  | cons e rest ih =>
      rw [walk_entries_cons]
      refine triple_bind _ _ _ _ _ _ (each e List.mem_cons_self s) fun turn => ?_
      cases turn with
      | stop code =>
          rintro fs ⟨⟨s', goes⟩, -⟩
          cases goes
      | next s' =>
          refine triple_weaken _ (At ways p) _ _ _ _ (ih s' fun e member => each e (List.mem_cons_of_mem _ member))
            (fun fs same => same.2) fun _ _ same => same

theorem clean_ends (p : Place) (path : Bytes) (clean : Clean sys t ways.passes p path) (fuel : Nat)
    (enough : t.depth < fuel + p.length) (dir : t.IsDir p) (opens : sys.opendir p = true)
    (back : sys.chdir p.tail = true) :
    Ends (fun fs => ways.frame fs.tree ∧ fs.locate path = some p) (walk sys w fuel path)
      fun code fs => ways.fine code ∧ At ways p.tail fs := by
  induction clean generalizing fuel with
  | intro p path enters each deeper ih =>
      have inside := has_shallow t p (dir_has t p dir)
      obtain ⟨fuel, rfl⟩ := Nat.exists_eq_add_of_lt (by omega : 0 < fuel)
      rw [Nat.zero_add] at enough ⊢
      rintro fs ⟨frame, found⟩
      rw [walk_opened sys w fuel path fs p found ((follows.dirs fs.tree frame p).mpr dir) opens]
      have whole : Ends (fun g => ways.frame g.tree ∧ g.locate path = some p)
          (walkOpened sys w fuel path (fs.tree.entries p)) fun code g => ways.fine code ∧ At ways p.tail g := by
        refine triple_bind _ _ _ _ _ _ (follows.enter p path dir enters) fun _ => ?_
        have loop := clean_entries w ways p (walk sys w fuel) path (fs.tree.entries p) w.start (by
          intro e member s
          refine follows.goes p _ path e s ⟨fs.tree, frame, member⟩ (each e.1) fun isDir => ?_
          have below := (kind_dir sys w t ways follows p fs e frame member).mp isDir
          have room := has_shallow t _ (dir_has t _ below)
          rw [List.length_cons] at room
          by_cases unlocked : sys.opendir (e.1 :: p) = true
          · refine triple_weaken _ _ _ _ _ _ (ih e.1 below unlocked fuel (by rw [List.length_cons]; omega) below unlocked enters)
              (fun g here => ⟨here.1, located_name sys w t ways follows p e.1 g here below⟩) fun _ _ same => same
          · obtain ⟨fuel, rfl⟩ := Nat.exists_eq_add_of_lt (by omega : 0 < fuel)
            rw [Nat.zero_add]
            refine triple_weaken _ _ _ _ _ _ (nested_refused sys w t ways follows fuel p e.1 below unlocked)
              (fun _ same => same) fun code g same => ⟨?_, same.2⟩
            rw [same.1]
            exact (follows.opens p path e.1 (each e.1) below).resolve_left unlocked)
        refine triple_bind _ _ _ _ _ _ loop fun turn => ?_
        cases turn with
        | stop code =>
            rintro g ⟨⟨s, goes⟩, -⟩
            cases goes
        | next s =>
            refine triple_bind _ _ _ (fun _ => At ways p.tail) _ _ ?_ fun _ => ?_
            · rw [follows.leave]
              refine triple_modify _ _ _ _ ?_
              rintro g ⟨-, frame, cwd⟩
              subst cwd
              rw [chdir_up sys g ((follows.dirs g.tree frame g.cwd).mpr dir) back]
              exact ⟨frame, rfl⟩
            · exact triple_pure _ _ _ _ fun _ same => ⟨follows.code s, same⟩
      exact whole fs ⟨frame, found⟩

-- The entries of a directory of which one does not: what comes after it cannot bring the walk
-- back up.
theorem stray_entries (everywhere : ∀ p, sys.chdir p = true) (fuel : Nat) (p : Place) (path : Bytes)
    (enough : t.depth < fuel + p.length + 1) (es : List (Name × Kind)) (s : σ)
    (each : ∀ e ∈ es, ∀ s, Ends (At ways p) (w.visit (walk sys w fuel) path (dirent e) s)
        (fun turn fs => (∃ s', turn = .next s') ∧ At ways p fs) ∨
      Ends (At ways p) (w.visit (walk sys w fuel) path (dirent e) s) (Strayed t ways p))
    (some : ∃ e ∈ es, ∀ s, Ends (At ways p) (w.visit (walk sys w fuel) path (dirent e) s) (Strayed t ways p)) :
    Ends (At ways p) (walkEntries (w.visit (walk sys w fuel) path) (es.map dirent) s) (Strayed t ways p) := by
  induction es generalizing s with
  | nil =>
      obtain ⟨e, member, -⟩ := some
      cases member
  | cons e rest ih =>
      rw [walk_entries_cons]
      have strayed : Ends (At ways p) (w.visit (walk sys w fuel) path (dirent e) s) (Strayed t ways p) →
          Ends (At ways p) (w.visit (walk sys w fuel) path (dirent e) s >>= fun turn =>
            match turn with
            | .stop code => pure (.stop code)
            | .next s => walkEntries (w.visit (walk sys w fuel) path) (rest.map dirent) s) (Strayed t ways p) := by
        intro stray
        refine triple_bind _ _ _ _ _ _ stray fun turn => ?_
        cases turn with
        | stop code => exact triple_pure _ _ _ _ fun _ same => same
        | next s' =>
            rintro fs ⟨all, n, deep⟩
            have room : t.depth < fuel + (n :: p).length := by
              rw [List.length_cons]
              omega
            have roamed := roam_entries sys w t ways follows (n :: p) (walk sys w fuel) path rest s'
              fun m => roam sys w t ways follows everywhere fuel (n :: p) m room
            refine ⟨fun turn g done => ?_, (roamed fs deep).2⟩
            have later := (roamed fs deep).1 turn g done
            cases turn with
            | stop code => exact ⟨all code, within_above t ways p n g later⟩
            | next s => exact ⟨all, n, later⟩
      rcases each e List.mem_cons_self s with goes | stray
      · by_cases here : ∀ s, Ends (At ways p) (w.visit (walk sys w fuel) path (dirent e) s) (Strayed t ways p)
        · exact strayed (here s)
        · refine triple_bind _ _ _ _ _ _ goes fun turn => ?_
          cases turn with
          | stop code =>
              rintro fs ⟨⟨s', next⟩, -⟩
              cases next
          | next s' =>
              refine triple_weaken _ (At ways p) _ _ _ _ (ih s' (fun e member => each e (List.mem_cons_of_mem _ member)) ?_)
                (fun fs same => same.2) fun _ _ same => same
              obtain ⟨bad, member, stray⟩ := some
              rcases List.mem_cons.mp member with rfl | later
              · exact absurd stray here
              · exact ⟨bad, later, stray⟩
      · exact strayed stray

def Strays (fuel : Nat) : Prop :=
  ∀ p path, ¬Clean sys t ways.passes p path → t.depth < fuel + p.length → t.IsDir p → sys.opendir p = true →
    Ends (fun fs => ways.frame fs.tree ∧ fs.locate path = some p) (walk sys w fuel path)
      fun code fs => ways.dirty code ∧ Within t ways p fs

section
variable (everywhere : ∀ p, sys.chdir p = true) (fuel : Nat) (p : Place) (path : Bytes) (enough : t.depth < fuel + 1 + p.length)
  (fs : Fs) (frame : ways.frame fs.tree) (e : Name × Kind) (member : e ∈ fs.tree.entries p)

def Stuck : Prop :=
  t.IsDir (e.1 :: p) ∧ sys.opendir (e.1 :: p) = true ∧ ¬Clean sys t ways.passes (e.1 :: p) e.1.val

include enough frame member

theorem stuck_turn (strays : Strays sys w t ways fuel) (dir : t.IsDir p) (stuck : Stuck sys t ways p e) (s : σ) :
    Ends (At ways p) (w.visit (walk sys w fuel) path (dirent e) s) (Strayed t ways p) := by
  obtain ⟨below, unlocked, unclean⟩ := stuck
  refine follows.follows p _ path e s dir ((kind_dir sys w t ways follows p fs e frame member).mpr below) ?_
  exact triple_weaken _ _ _ _ _ _ (strays (e.1 :: p) e.1.val unclean (by rw [List.length_cons]; omega) below unlocked)
    (fun g here => ⟨here.1, located_name sys w t ways follows p e.1 g here below⟩) fun _ _ same => same

include everywhere

theorem unstuck_call (free : ¬Stuck sys t ways p e) (isDir : e.2 = .dir) :
    Ends (At ways p) (walk sys w fuel e.1.val) fun code g =>
      (if sys.opendir (e.1 :: p) = true then ways.fine code else code = w.failed) ∧ At ways p g := by
  have below := (kind_dir sys w t ways follows p fs e frame member).mp isDir
  have room := has_shallow t _ (dir_has t _ below)
  rw [List.length_cons] at room
  by_cases unlocked : sys.opendir (e.1 :: p) = true
  · simp only [if_pos unlocked]
    have clean := not_not.mp fun unclean => free ⟨below, unlocked, unclean⟩
    exact triple_weaken _ _ _ _ _ _ (clean_ends sys w t ways follows (e.1 :: p) e.1.val clean fuel
      (by rw [List.length_cons]; omega) below unlocked (everywhere _))
      (fun g here => ⟨here.1, located_name sys w t ways follows p e.1 g here below⟩) fun _ _ same => same
  · simp only [if_neg unlocked]
    obtain ⟨fuel, rfl⟩ := Nat.exists_eq_add_of_lt (by omega : 0 < fuel)
    rw [Nat.zero_add]
    exact nested_refused sys w t ways follows fuel p e.1 below unlocked

theorem balking_turn (strays : Strays sys w t ways fuel) (dir : t.IsDir p) (bad : ¬ways.passes p path e.1) (s : σ) :
    Ends (At ways p) (w.visit (walk sys w fuel) path (dirent e) s) (Strayed t ways p) := by
  by_cases stuck : Stuck sys t ways p e
  · exact stuck_turn sys w t ways follows fuel p path enough fs frame e member strays dir stuck s
  · refine follows.balks p _ path e s dir bad (kind_dir sys w t ways follows p fs e frame member) ?_
    exact unstuck_call sys w t ways follows everywhere fuel p enough fs frame e member stuck

theorem going_turn (free : ¬Stuck sys t ways p e) (passes : ways.passes p path e.1) (s : σ) :
    Ends (At ways p) (w.visit (walk sys w fuel) path (dirent e) s) fun turn g => (∃ s', turn = .next s') ∧ At ways p g := by
  refine follows.goes p _ path e s ⟨fs.tree, frame, member⟩ passes fun isDir => ?_
  have below := (kind_dir sys w t ways follows p fs e frame member).mp isDir
  refine triple_weaken _ _ _ _ _ _ (unstuck_call sys w t ways follows everywhere fuel p enough fs frame e member free isDir)
    (fun _ same => same) fun code g done => ⟨?_, done.2⟩
  have answer := done.1
  by_cases unlocked : sys.opendir (e.1 :: p) = true
  · rwa [if_pos unlocked] at answer
  · rw [if_neg unlocked] at answer
    rw [answer]
    exact (follows.opens p path e.1 passes below).resolve_left unlocked

end

-- By induction on the fuel: the first entry that does not let the walk go on is one of this
-- directory, or is below one of its directories.
theorem stray_ends (everywhere : ∀ p, sys.chdir p = true) (fuel : Nat) : Strays sys w t ways fuel := by
  induction fuel with
  | zero =>
      intro p path stops enough dir opens
      have inside := has_shallow t p (dir_has t p dir)
      omega
  | succ fuel strays =>
      rintro p path stops enough dir opens fs ⟨frame, found⟩
      rw [walk_opened sys w fuel path fs p found ((follows.dirs fs.tree frame p).mpr dir) opens]
      have each : ∀ e ∈ fs.tree.entries p, ∀ s, Ends (At ways p) (w.visit (walk sys w fuel) path (dirent e) s)
            (fun turn g => (∃ s', turn = .next s') ∧ At ways p g) ∨
          Ends (At ways p) (w.visit (walk sys w fuel) path (dirent e) s) (Strayed t ways p) := by
        intro e member s
        by_cases stuck : Stuck sys t ways p e
        · exact .inr (stuck_turn sys w t ways follows fuel p path enough fs frame e member strays dir stuck s)
        · by_cases passes : ways.passes p path e.1
          · exact .inl (going_turn sys w t ways follows everywhere fuel p path enough fs frame e member stuck passes s)
          · exact .inr (balking_turn sys w t ways follows everywhere fuel p path enough fs frame e member strays dir passes s)
      have one : ∃ e ∈ fs.tree.entries p, ∀ s,
          Ends (At ways p) (w.visit (walk sys w fuel) path (dirent e) s) (Strayed t ways p) := by
        obtain ⟨n, bad | stuck⟩ := not_clean sys t ways.passes p path (everywhere p) stops
        · obtain ⟨kind, here⟩ := Option.ne_none_iff_exists'.mp (follows.seen fs.tree p path n frame bad)
          have member := (mem_entries fs.tree p n kind).mpr here
          exact ⟨(n, kind), member,
            balking_turn sys w t ways follows everywhere fuel p path enough fs frame (n, kind) member strays dir bad⟩
        · have here : fs.tree.kindAt (n :: p) = some .dir := (follows.dirs fs.tree frame _).mpr stuck.1
          have member := (mem_entries fs.tree p n .dir).mpr here
          exact ⟨(n, .dir), member,
            stuck_turn sys w t ways follows fuel p path enough fs frame (n, .dir) member strays dir stuck⟩
      have whole : Ends (fun g => ways.frame g.tree ∧ g.locate path = some p)
          (walkOpened sys w fuel path (fs.tree.entries p)) fun code g => ways.dirty code ∧ Within t ways p g := by
        refine triple_bind _ _ _ _ _ _ (follows.enter p path dir (everywhere p)) fun _ => ?_
        refine triple_bind _ _ _ _ _ _ (stray_entries sys w t ways follows everywhere fuel p path (by omega)
          (fs.tree.entries p) w.start each one) fun turn => ?_
        cases turn with
        | stop code => exact triple_pure _ _ _ _ fun _ same => same
        | next s =>
            rintro g ⟨all, n, deep⟩
            have up := leave_up sys w t ways follows everywhere p n
            exact triple_bind _ _ _ _ _ _ up (fun _ => triple_pure _ _ _ _ fun _ same => ⟨all _, same⟩) g deep
      exact whole fs ⟨frame, found⟩

end

end Yaup.Busybox
