import Yaup.ChangerWalks

set_option autoImplicit false

namespace Yaup.Busybox

open Lib

section
variable (sys : System) (t : Tree Name Stat) (names : Bytes → Bytes → Bytes) (f : Kind → Stat → Stat)

inductive Target : Place → Bytes → Place → Prop where
  | here (p : Place) (path : Bytes) (n : Name) (q : Place) (has : t.Has (n :: p))
      (found : (⟨t, p⟩ : Fs).locate (names path n.val) = some q) : Target p path q
  | deeper (p : Place) (path : Bytes) (n : Name) (q : Place) (dir : t.IsDir (n :: p))
      (target : Target (n :: p) n.val q) : Target p path q

def Reached (p : Place) (path : Bytes) (es : List (Name × Kind)) (q : Place) : Prop :=
  ∃ e ∈ es, (e.2 = .dir ∧ Target t names (e.1 :: p) e.1.val q) ∨ (⟨t, p⟩ : Fs).locate (names path e.1.val) = some q

theorem target_reached (p : Place) (path : Bytes) (q : Place) :
    Target t names p path q ↔ Reached t names p path (t.entries p) q := by
  constructor
  · intro target
    cases target with
    | here _ _ n _ has found =>
        obtain ⟨kind, member⟩ := has_entry t p n has
        exact ⟨(n, kind), member, .inr found⟩
    | deeper _ _ n _ dir target => exact ⟨(n, .dir), (mem_entries t p n .dir).mpr dir, .inl ⟨rfl, target⟩⟩
  · rintro ⟨e, member, ⟨dir, deeper⟩ | found⟩
    · exact .deeper p path e.1 q ((entry_dir_iff t p e member).mpr dir) deeper
    · exact .here p path e.1 q (has_of_entry t t (same_shape_refl t) p e member) found

theorem reached_cons (p : Place) (path : Bytes) (e : Name × Kind) (rest : List (Name × Kind)) (q target : Place)
    (found : (⟨t, p⟩ : Fs).locate (names path e.1.val) = some target) :
    Reached t names p path (e :: rest) q ↔
      ((e.2 = .dir ∧ Target t names (e.1 :: p) e.1.val q) ∨ q = target) ∨ Reached t names p path rest q := by
  have located : (⟨t, p⟩ : Fs).locate (names path e.1.val) = some q ↔ q = target := by
    rw [found, Option.some.injEq]
    exact eq_comm
  simp only [Reached, List.mem_cons, exists_eq_or_imp, located]

theorem target_climbs (p r : Place) (path : Bytes) (n : Name) (q : Place) (under : p <:+ r) (dir : t.IsDir (n :: r))
    (target : Target t names (n :: r) n.val q) : Target t names p path q := by
  obtain ⟨front, rfl⟩ := under
  induction front generalizing n with
  | nil => exact .deeper p path n q dir target
  | cons m front ih =>
      have above : t.IsDir (m :: (front ++ p)) := tail_dir t _ dir
      exact ih m above (.deeper _ _ n q dir target)

def Changed (places : Place → Prop) (p : Place) (fs : Fs) : Prop := Applied f places t fs.tree ∧ fs.cwd = p

theorem changed_congr (places others : Place → Prop) (p : Place) (fs : Fs) (same : ∀ q, places q ↔ others q)
    (changed : Changed t f places p fs) : Changed t f others p fs :=
  ⟨applied_congr f places others t fs.tree same changed.1, changed.2⟩

variable (twice : ∀ kind a, f kind (f kind a) = f kind a)
include twice

theorem change_call_sure (places : Place → Prop) (p : Place) (path : Bytes) (e : Name × Kind) (q : Place)
    (found : (⟨t, p⟩ : Fs).locate (names path e.1.val) = some q) (permitted : sys.change q = true) :
    Triple (Changed t f places p) (changeCall sys names f path (dirent e))
      (fun code fs => code = 0 ∧ Changed t f (fun r => places r ∨ r = q) p fs) fun _ _ => False := by
  refine triple_returns _ _ _ _ ?_
  rintro ⟨tree, cwd⟩ ⟨applied, rfl⟩
  have located : (⟨tree, cwd⟩ : Fs).locate (names path e.1.val) = some q :=
    (same_shape_locate ⟨t, cwd⟩ tree _ applied.shape).trans found
  exact ⟨0, _, change_attr_ok sys _ f _ q located permitted, rfl, applied_change f twice places t tree q applied, rfl⟩

theorem changer_entry (nested : Bytes → Cmd Int) (p : Place) (path : Bytes) (e : Name × Kind) (s : Unit) (places : Place → Prop)
    (target : Place) (found : (⟨t, p⟩ : Fs).locate (names path e.1.val) = some target) (permitted : sys.change target = true)
    (below : e.2 = .dir → Triple (Changed t f places p) (nested e.1.val)
      (fun code fs => code = 0 ∧ Changed t f (fun q => places q ∨ Target t names (e.1 :: p) e.1.val q) p fs) fun _ _ => False) :
    Triple (Changed t f places p) ((changer sys (changeCall sys names f)).visit nested path (dirent e) s)
      (fun turn fs => (∃ s', turn = .next s') ∧
        Changed t f (fun q => (places q ∨ e.2 = .dir ∧ Target t names (e.1 :: p) e.1.val q) ∨ q = target) p fs)
      fun _ _ => False := by
  refine changer_branch _ sys _ nested path e s _
    (Changed t f (fun q => places q ∨ e.2 = .dir ∧ Target t names (e.1 :: p) e.1.val q) p) _ (fun dir => ?_) ?_ ?_
  · refine triple_weaken _ _ _ _ _ _ (below dir) (fun _ same => same) fun code fs done => ?_
    obtain ⟨rfl, changed⟩ := done
    refine changed_congr t f _ _ p fs (fun q => ?_) changed
    rw [and_iff_right dir]
  · exact fun file fs changed => changed_congr t f _ _ p fs (fun q => (or_iff_left fun dir => file dir.1).symm) changed
  · refine triple_weaken _ _ _ _ _ _ (change_call_sure sys t names f twice _ p path e target found permitted)
      (fun _ same => same) fun code fs done => ?_
    obtain ⟨rfl, changed⟩ := done
    exact ⟨⟨(), rfl⟩, changed⟩

-- By induction on the entries; `each` is what the calls for the directories among them do.
theorem changer_entries (nested : Bytes → Cmd Int) (p : Place) (path : Bytes) (es : List (Name × Kind)) (s : Unit)
    (places : Place → Prop)
    (able : ∀ e ∈ es, ∃ q, (⟨t, p⟩ : Fs).locate (names path e.1.val) = some q ∧ sys.change q = true)
    (each : ∀ e ∈ es, e.2 = .dir → ∀ places, Triple (Changed t f places p) (nested e.1.val)
      (fun code fs => code = 0 ∧ Changed t f (fun q => places q ∨ Target t names (e.1 :: p) e.1.val q) p fs) fun _ _ => False) :
    Triple (Changed t f places p)
      (walkEntries ((changer sys (changeCall sys names f)).visit nested path) (es.map dirent) s)
      (fun turn fs => (∃ s', turn = .next s') ∧ Changed t f (fun q => places q ∨ Reached t names p path es q) p fs)
      fun _ _ => False := by
  induction es generalizing s places with
  | nil =>
      refine triple_pure _ _ _ _ fun fs changed => ⟨⟨s, rfl⟩, changed_congr t f _ _ p fs (fun q => ?_) changed⟩
      simp [Reached]
  | cons e rest ih =>
      rw [walk_entries_cons]
      obtain ⟨target, found, permitted⟩ := able e List.mem_cons_self
      have turn := changer_entry sys t names f twice nested p path e s places target found permitted fun dir =>
        each e List.mem_cons_self dir places
      refine triple_bind _ _ _ _ _ _ turn fun answer => ?_
      cases answer with
      | stop code =>
          rintro fs ⟨⟨s', goes⟩, -⟩
          cases goes
      | next s' =>
          refine triple_weaken _ _ _ _ _ _ (ih s' _ (fun e member => able e (List.mem_cons_of_mem _ member))
            fun e member => each e (List.mem_cons_of_mem _ member)) (fun _ same => same.2) fun turn fs done =>
              ⟨done.1, changed_congr t f _ _ p fs (fun q => ?_) done.2⟩
          rw [reached_cons t names p path e rest q target found, or_assoc, or_assoc, or_assoc]

-- By induction on the walk, which meets no early return.
theorem changer_applies (p : Place) (path : Bytes) (clean : Clean sys t (changerWays sys t names).passes p path)
    (fuel : Nat) (enough : t.depth < fuel + p.length) (dir : t.IsDir p) (opens : sys.opendir p = true)
    (back : sys.chdir p.tail = true) (places : Place → Prop) :
    Triple (fun fs => Applied f places t fs.tree ∧ fs.locate path = some p)
      (walk sys (changer sys (changeCall sys names f)) fuel path)
      (fun code fs => code = 0 ∧ Changed t f (fun q => places q ∨ Target t names p path q) p.tail fs) fun _ _ => False := by
  induction clean generalizing fuel places with
  | intro p path enters each deeper ih =>
      have inside := has_shallow t p (dir_has t p dir)
      obtain ⟨fuel, rfl⟩ := Nat.exists_eq_add_of_lt (by omega : 0 < fuel)
      rw [Nat.zero_add] at enough ⊢
      rintro fs ⟨applied, found⟩
      rw [walk_opened sys _ fuel path fs p found ((same_shape_dir t fs.tree applied.shape p).mpr dir) opens,
        same_shape_entries t fs.tree applied.shape]
      have whole : Triple (fun g => Applied f places t g.tree ∧ g.locate path = some p)
          (walkOpened sys (changer sys (changeCall sys names f)) fuel path (t.entries p))
          (fun code g => code = 0 ∧ Changed t f (fun q => places q ∨ Target t names p path q) p.tail g) fun _ _ => False := by
        have entered : Triple (fun g => Applied f places t g.tree ∧ g.locate path = some p) (chdir sys path)
            (fun _ => Changed t f places p) fun _ _ => False :=
          triple_modify _ _ _ _ fun g here => (chdir_locate sys path g p here.2
            ((same_shape_dir t g.tree here.1.shape p).mpr dir) enters) ▸ ⟨here.1, rfl⟩
        refine triple_bind _ _ _ _ _ _ entered fun _ => ?_
        refine triple_bind _ _ _ _ _ _ (changer_entries sys t names f twice _ p path (t.entries p) () places ?_ ?_) fun turn => ?_
        · exact fun e member => (each e.1 (has_of_entry t t (same_shape_refl t) p e member)).1
        · intro e member isDir places
          have below := (entry_dir_iff t p e member).mpr isDir
          have unlocked := (each e.1 (dir_has t _ below)).2 below
          refine triple_weaken _ _ _ _ _ _ (ih e.1 below unlocked fuel (by rw [List.length_cons]; omega) below unlocked
            enters places) (fun g changed => ⟨changed.1, ?_⟩) fun _ _ same => same
          rw [locate_name, changed.2]
          exact if_pos (dir_has _ _ ((same_shape_dir t g.tree changed.1.shape _).mpr below))
        · cases turn with
          | stop code =>
              rintro g ⟨⟨s, goes⟩, -⟩
              cases goes
          | next s =>
              refine triple_bind _ _ _ (fun _ => Changed t f (fun q => places q ∨ Target t names p path q) p.tail) _ _ ?_
                fun _ => triple_pure _ _ _ _ fun _ same => ⟨rfl, same⟩
              refine triple_modify _ _ _ _ ?_
              rintro g ⟨-, changed, cwd⟩
              subst cwd
              rw [chdir_up sys g ((same_shape_dir t g.tree changed.shape g.cwd).mpr dir) back]
              exact ⟨applied_congr f _ _ t g.tree (fun q => or_congr_right (target_reached t names g.cwd path q).symm) changed, rfl⟩
      exact whole fs ⟨applied, found⟩

end

section
variable (t : Tree Name Stat)

theorem target_name_iff (p : Place) (path : Bytes) (q : Place) :
    Target t (fun _ d => d) p path q ↔ Beneath p q ∧ t.Has q := by
  constructor
  · intro target
    induction target with
    | here p path n q has found =>
        rw [locate_name, if_pos has] at found
        cases found
        exact ⟨⟨n, List.suffix_rfl⟩, has⟩
    | deeper p path n q dir target ih =>
        obtain ⟨⟨m, under⟩, has⟩ := ih
        exact ⟨⟨n, (List.suffix_cons m _).trans under⟩, has⟩
  · rintro ⟨below, has⟩
    obtain ⟨n, r, rfl, under⟩ := below_place p q below
    have named : (⟨t, r⟩ : Fs).locate n.val = some (n :: r) := by rw [locate_name, if_pos has]
    cases r with
    | nil =>
        rw [List.suffix_nil.mp under]
        exact .here _ path n _ has named
    | cons m r =>
        rcases List.suffix_cons_iff.mp under with rfl | higher
        · exact .here _ path n _ has named
        · exact target_climbs t _ p r path m _ higher (parent_dir t n _ has) (.here _ m.val n _ has named)

theorem target_path_iff (p : Place) (path : Bytes) (q : Place) : Target t (fun path _ => path) p path q ↔
    ((∃ n, t.Has (n :: p)) ∧ (⟨t, p⟩ : Fs).locate path = some q) ∨ ∃ n r, p <:+ r ∧ t.Has q ∧ q = n :: n :: r := by
  constructor
  · intro target
    induction target with
    | here p path n q has found => exact .inl ⟨⟨n, has⟩, found⟩
    | deeper p path n q dir target ih =>
        refine .inr ?_
        rcases ih with ⟨-, found⟩ | ⟨m, r, under, has, same⟩
        · rw [locate_name] at found
          split at found
          · rename_i has
            cases found
            exact ⟨n, p, List.suffix_rfl, has, rfl⟩
          · cases found
        · exact ⟨m, r, (List.suffix_cons n p).trans under, has, same⟩
  · rintro (⟨⟨n, has⟩, found⟩ | ⟨n, r, under, has, rfl⟩)
    · exact .here p path n q has found
    · refine target_climbs t _ p r path n _ under (parent_dir t n _ has) (.here _ _ n _ has ?_)
      rw [locate_name]
      exact if_pos has

end

theorem changer_run (sys : System) (names : Bytes → Bytes → Bytes) (f : Kind → Stat → Stat)
    (twice : ∀ kind a, f kind (f kind a) = f kind a) (fs : Fs)
    (path : Bytes) (p : Place) (fuel : Nat) (enough : fs.tree.depth < fuel) (permits : Permits sys)
    (found : fs.locate path = some p) (dir : fs.tree.IsDir p)
    (clean : Clean sys fs.tree (changerWays sys fs.tree names).passes p path) :
    ∃ fs', (walk sys (changer sys (changeCall sys names f)) fuel path).run fs = .ok 0 fs' ∧
      Changed fs.tree f (Target fs.tree names p path) p.tail fs' := by
  have applies := changer_applies sys fs.tree names f twice p path clean fuel (by omega) dir (permits.opens p)
    (permits.enters _) (fun _ => False)
  obtain ⟨code, fs', done, rfl, changed⟩ := triple_total _ _ _ applies fs ⟨applied_nowhere f fs.tree, found⟩
  exact ⟨fs', done, changed_congr _ f _ _ _ fs' (fun q => or_iff_right id) changed⟩

theorem chgrp_rec_sets_group (sys : System) (permits : Permits sys) (fs : Fs) (gid : Nat) (n : Name)
    (dir : fs.tree.IsDir (n :: fs.cwd)) (fuel : Nat) (enough : fs.tree.depth < fuel) :
    ∃ fs', (chgrpRec sys gid fuel n.val).run fs = .ok 0 fs' ∧ fs'.cwd = fs.cwd ∧
      (∀ q, Beneath (n :: fs.cwd) q → fs'.tree.node q = (fs.tree.node q).map fun entry =>
        { entry with attr := { entry.attr with mode := sys.chowned.mode entry.kind entry.attr.mode, group := gid } }) ∧
      ∀ q, ¬Beneath (n :: fs.cwd) q → fs'.tree.node q = fs.tree.node q := by
  have found := locate_dir fs n dir
  have passes : ∀ p path (m : Name), (changerWays sys fs.tree fun _ d => d).passes p path m := by
    intro p path m has
    refine ⟨⟨m :: p, ?_, permits.changes _⟩, fun _ => permits.opens _⟩
    rw [locate_name]
    exact if_pos has
  have clean := clean_all sys fs.tree _ (fun _ _ => True) permits.enters (fun p path _ => passes p path)
    (fun _ _ _ _ _ => trivial) (n :: fs.cwd) n.val trivial
  have twice : ∀ (kind : Kind) (attr : Stat), ({ attr with
      mode := sys.chowned.mode kind (sys.chowned.mode kind attr.mode)
      group := gid } : Stat) = { attr with mode := sys.chowned.mode kind attr.mode, group := gid } := by
    intro kind attr
    rw [sys.chowned.twice]
  obtain ⟨fs', done, changed, cwd⟩ := changer_run sys (fun _ d => d)
    (fun kind attr => { attr with mode := sys.chowned.mode kind attr.mode, group := gid }) twice fs n.val (n :: fs.cwd) fuel
    enough permits found dir clean
  refine ⟨fs', done, cwd, fun q below => ?_, fun q apart => ?_⟩
  · by_cases has : fs.tree.Has q
    · exact changed.changed q ((target_name_iff _ _ _ q).mpr ⟨below, has⟩)
    · rw [changed.kept q fun target => has ((target_name_iff _ _ _ q).mp target).2,
        not_not.mp fun there => has ((has_iff _ q).mpr there), Option.map_none]
  · exact changed.kept q fun target => apart ((target_name_iff _ _ _ q).mp target).1

def dropped (m : Nat) : Nat := m ^^^ (m &&& setIds)

theorem dropped_cleared (m : Nat) : Cleared m (dropped m) where
  others := fun i other => by simp [dropped, other]
  fewer := by
    intro i set
    rw [dropped, Nat.testBit_xor, Nat.testBit_and] at set
    cases here : m.testBit i with
    | true => rfl
    | false => simp [here] at set

theorem dropped_twice (m : Nat) : dropped (dropped m) = dropped m := by
  refine Nat.eq_of_testBit_eq fun i => ?_
  simp only [dropped, Nat.testBit_xor, Nat.testBit_and]
  cases m.testBit i <;> cases setIds.testBit i <;> rfl

-- A chown that clears both bits of everything but directories.
def dropsIds : ModeLeft where
  mode := fun kind m => if kind = .dir then m else dropped m
  cleared := by
    intro kind m
    split
    · exact cleared_refl m
    · exact dropped_cleared m
  twice := by
    intro kind m
    by_cases dir : kind = .dir
    · simp [dir]
    · simp [dir, dropped_twice]

def guarded : System := { allowed with chowned := dropsIds }

-- /a/f runs with the rights of its group.
def setGroupF : Tree Name Stat := twins.change [nameF, nameA] fun _ attr => { attr with mode := 1517 }

theorem chgrp_rec_twins : ∃ fs', (chgrpRec guarded 5 3 [97]).run ⟨setGroupF, []⟩ = .ok 0 fs' ∧ fs'.cwd = [] ∧
    fs'.tree.node [nameF, nameA] = some ⟨.reg, ⟨493, 0, 5, []⟩⟩ ∧
    fs'.tree.node [nameF] = some ⟨.reg, ⟨420, 0, 0, []⟩⟩ := by
  obtain ⟨fs', done, cwd, inside, outside⟩ := chgrp_rec_sets_group guarded
    ⟨fun _ => rfl, fun _ => rfl, fun _ => rfl, fun _ => rfl⟩ ⟨setGroupF, []⟩ 5 nameA (by decide) 3 (by decide)
  refine ⟨fs', done, cwd, ?_, ?_⟩
  · rw [inside [nameF, nameA] ⟨nameF, List.suffix_rfl⟩]
    rfl
  · rw [outside [nameF] fun ⟨n, under⟩ => absurd under.length_le (by simp)]
    rfl

theorem chgrp_rec_drops_bit :
    ¬∀ (sys : System) (_ : Permits sys) (fs : Fs) (gid : Nat) (n : Name) (_ : fs.tree.IsDir (n :: fs.cwd)) (fuel : Nat)
      (_ : fs.tree.depth < fuel), ∃ fs', (chgrpRec sys gid fuel n.val).run fs = .ok 0 fs' ∧ fs'.cwd = fs.cwd ∧
        (∀ q, Beneath (n :: fs.cwd) q → fs'.tree.node q =
          (fs.tree.node q).map fun entry => { entry with attr := { entry.attr with group := gid } }) ∧
        ∀ q, ¬Beneath (n :: fs.cwd) q → fs'.tree.node q = fs.tree.node q := by
  intro claim
  obtain ⟨fs', done, -, inside, -⟩ := claim guarded ⟨fun _ => rfl, fun _ => rfl, fun _ => rfl, fun _ => rfl⟩ ⟨setGroupF, []⟩ 5
    nameA (by decide) 3 (by decide)
  have below := inside [nameF, nameA] ⟨nameF, List.suffix_rfl⟩
  have kept : ∃ after, (chgrpRec guarded 5 3 nameA.val).run ⟨setGroupF, []⟩ = .ok 0 after ∧
      after.tree.node [nameF, nameA] = some ⟨.reg, ⟨493, 0, 5, []⟩⟩ := ⟨_, rfl, rfl⟩
  obtain ⟨after, ran, left⟩ := kept
  cases ran.symm.trans done
  rw [left] at below
  have modes := congrArg (Option.map fun entry => entry.attr.mode) below
  revert modes
  decide

inductive Change where
  | mode (bits : Nat)
  | owner (uid : Nat)

def Change.run (sys : System) : Change → Nat → Bytes → Cmd Int
  | .mode bits => chmodRec sys bits
  | .owner uid => chownRec sys uid

def Change.Is : Change → Stat → Prop
  | .mode bits, attr => attr.mode = bits
  | .owner uid, attr => attr.owner = uid

def Change.set (sys : System) : Change → Kind → Stat → Stat
  | .mode bits, _, attr => { attr with mode := bits }
  | .owner uid, kind, attr => { attr with mode := sys.chowned.mode kind attr.mode, owner := uid }

-- A recursive change by the path of the walk does what it is for in a directory `p` where the
-- path, looked up in `p`, and each directory's own name, looked up in that directory, happen
-- to name all the entries that the change is to reach, and no others that it makes different.
structure Lucky (sys : System) (change : Change) (t : Tree Name Stat) (path : Bytes) (p : Place) : Prop where
  top : ∀ n, t.Has (n :: p) → ∃ q, (⟨t, p⟩ : Fs).locate path = some q
  own : ∀ m n r, p <:+ r → t.Has (m :: n :: r) → t.Has (n :: n :: r)
  rest : ∀ n r entry, p <:+ r → t.node (n :: r) = some entry → change.Is entry.attr ∨
    (⟨t, p⟩ : Fs).locate path = some (n :: r) ∨ ∃ s, r = n :: s ∧ p <:+ s
  outside : ∀ n q entry, t.Has (n :: p) → (⟨t, p⟩ : Fs).locate path = some q → ¬p <:+ q → t.node q = some entry →
    change.set sys entry.kind entry.attr = entry.attr

theorem set_is (sys : System) (change : Change) (kind : Kind) (attr : Stat) : change.Is (change.set sys kind attr) := by
  cases change with
  | mode bits => rfl
  | owner uid => rfl

theorem set_twice (sys : System) (change : Change) (kind : Kind) (attr : Stat) :
    change.set sys kind (change.set sys kind attr) = change.set sys kind attr := by
  cases change with
  | mode bits => rfl
  | owner uid => simp [Change.set, sys.chowned.twice]

theorem change_run_eq (sys : System) (change : Change) :
    change.run sys = walk sys (changer sys (changeCall sys (fun path _ => path) (change.set sys))) := by
  cases change with
  | mode bits => rfl
  | owner uid => rfl

structure Made (change : Change) (p : Place) (t t' : Tree Name Stat) : Prop where
  below : ∀ q entry, Beneath p q → t'.node q = some entry → change.Is entry.attr
  outside : ∀ q, ¬p <:+ q → t'.node q = t.node q

section
variable (sys : System) (permits : Permits sys) (change : Change) (t : Tree Name Stat) (path : Bytes) (p : Place)
include permits

theorem lucky_clean (lucky : Lucky sys change t path p) : Clean sys t (changerWays sys t fun path _ => path).passes p path := by
  refine clean_all sys t _ (fun q text => (q = p ∧ text = path) ∨ ∃ n r, q = n :: r ∧ text = n.val ∧ p <:+ r)
    permits.enters ?_ ?_ p path (.inl ⟨rfl, rfl⟩)
  · rintro q text (⟨rfl, rfl⟩ | ⟨n, r, rfl, rfl, under⟩) m has
    · obtain ⟨target, found⟩ := lucky.top m has
      exact ⟨⟨target, found, permits.changes _⟩, fun _ => permits.opens _⟩
    · refine ⟨⟨n :: n :: r, ?_, permits.changes _⟩, fun _ => permits.opens _⟩
      rw [locate_name]
      exact if_pos (lucky.own m n r under has)
  · rintro q text m (⟨rfl, rfl⟩ | ⟨n, r, rfl, rfl, under⟩) dir
    · exact .inr ⟨m, q, rfl, rfl, List.suffix_rfl⟩
    · exact .inr ⟨m, n :: r, rfl, rfl, under.trans (List.suffix_cons n r)⟩

theorem clean_lucky (t' : Tree Name Stat) (clean : Clean sys t (changerWays sys t fun path _ => path).passes p path)
    (applied : Applied (change.set sys) (Target t (fun path _ => path) p path) t t') (made : Made change p t t') :
    Lucky sys change t path p where
  top := by
    intro n has
    cases clean with
    | intro _ _ enters each deeper =>
        obtain ⟨q, found, -⟩ := (each n has).1
        exact ⟨q, found⟩
  own := by
    intro m n r under has
    have below := clean_below sys t _ p r path clean permits.opens under n (parent_dir t m _ has)
    cases below with
    | intro _ _ enters each deeper =>
        obtain ⟨q, found, -⟩ := (each m has).1
        rw [locate_name] at found
        by_contra gone
        rw [if_neg gone] at found
        cases found
  rest := by
    intro n r entry under here
    by_cases target : Target t (fun path _ => path) p path (n :: r)
    · rcases (target_path_iff t p path _).mp target with ⟨-, found⟩ | ⟨m, s, higher, -, same⟩
      · exact .inr (.inl found)
      · obtain ⟨rfl, rfl⟩ := List.cons.inj same
        exact .inr (.inr ⟨s, rfl, higher⟩)
    · exact .inl (made.below (n :: r) entry ((below_cons n p r).mpr under) ((applied.kept _ target).trans here))
  outside := by
    intro n q entry has found apart here
    have now := applied.changed q ((target_path_iff t p path q).mpr (.inl ⟨⟨n, has⟩, found⟩))
    rw [made.outside q apart, here, Option.map_some, Option.some.injEq] at now
    exact (congrArg Node.attr now).symm

omit permits in
theorem lucky_made (t' : Tree Name Stat) (lucky : Lucky sys change t path p)
    (applied : Applied (change.set sys) (Target t (fun path _ => path) p path) t t') : Made change p t t' where
  below := by
    intro q entry below here
    by_cases target : Target t (fun path _ => path) p path q
    · rw [applied.changed q target] at here
      obtain ⟨old, -, same⟩ := Option.map_eq_some_iff.mp here
      rw [← same]
      exact set_is sys change old.kind old.attr
    · rw [applied.kept q target] at here
      have has : t.Has q := (has_iff t q).mpr (here ▸ Option.some_ne_none _)
      obtain ⟨n, r, rfl, under⟩ := below_place p q below
      rcases lucky.rest n r entry under here with is | found | ⟨s, rfl, higher⟩
      · exact is
      · obtain ⟨m, child⟩ := below
        exact absurd ((target_path_iff t p path _).mpr (.inl ⟨⟨m, above_has t _ _ child has⟩, found⟩)) target
      · exact absurd ((target_path_iff t p path _).mpr (.inr ⟨n, s, higher, has, rfl⟩)) target
  outside := by
    intro q apart
    by_cases target : Target t (fun path _ => path) p path q
    · rcases (target_path_iff t p path q).mp target with ⟨⟨n, has⟩, found⟩ | ⟨n, r, under, has, rfl⟩
      · rw [applied.changed q target]
        cases here : t.node q with
        | none => rfl
        | some entry =>
            rw [Option.map_some, lucky.outside n q entry has found apart here]
      · exact absurd (under.trans ((List.suffix_cons n r).trans (List.suffix_cons n _))) apart
    · exact applied.kept q target

end

theorem recursive_change_iff (sys : System) (permits : Permits sys) (change : Change) (fs : Fs) (path : Bytes) (p : Place)
    (found : fs.locate path = some p) (dir : fs.tree.IsDir p) (fuel : Nat) (enough : fs.tree.depth < fuel) :
    (∃ fs', (change.run sys fuel path).run fs = .ok 0 fs' ∧ Made change p fs.tree fs'.tree) ↔
      Lucky sys change fs.tree path p := by
  have twice := set_twice sys change
  rw [change_run_eq]
  constructor
  · rintro ⟨fs', done, made⟩
    by_cases clean : Clean sys fs.tree (changerWays sys fs.tree fun path _ => path).passes p path
    · obtain ⟨fs'', again, changed⟩ := changer_run sys _ (change.set sys) twice fs path p fuel enough permits found dir clean
      rw [done] at again
      cases again
      exact clean_lucky sys permits change fs.tree path p fs'.tree clean changed.1 made
    · have follows := changer_follows sys fs.tree (fun path _ => path) (change.set sys)
      have stray := (stray_ends sys _ fs.tree _ follows permits.enters fuel p path clean (by omega) dir (permits.opens p)
        fs ⟨same_shape_refl fs.tree, found⟩).1 0 fs' done
      exact absurd stray.1 (show ¬(0 : Int) < 0 by decide)
  · intro lucky
    obtain ⟨fs', done, changed⟩ := changer_run sys _ (change.set sys) twice fs path p fuel enough permits found dir
      (lucky_clean sys permits change fs.tree path p lucky)
    exact ⟨fs', done, lucky_made sys change fs.tree path p fs'.tree lucky changed.1⟩

-- "/a/a" besides "/a/f", which has the mode 0644.
def nestedA : Tree Name Stat := twins.write nameA [nameA] (fun _ => ⟨0, 0, 0, []⟩) twins_a_dir (twins_flat nameA)

theorem nested_a_lucky : Lucky allowed (.mode 420) nestedA [97] [nameA] where
  top := fun _ _ => ⟨[nameA, nameA], by decide⟩
  own := by
    intro m n r under has
    have low : (m :: n :: r).length ≤ 2 := has_shallow nestedA _ has
    have deep := under.length_le
    simp only [List.length_cons, List.length_nil] at low deep
    omega
  rest := by
    intro n r entry under here
    have has : nestedA.Has (n :: r) := (has_iff nestedA _).mpr (here ▸ Option.some_ne_none entry)
    have low : (n :: r).length ≤ 2 := has_shallow nestedA _ has
    have deep := under.length_le
    simp only [List.length_cons, List.length_nil] at low deep
    have place : r = [nameA] := (under.eq_of_length (by simp; omega)).symm
    subst place
    by_cases own : n = nameA
    · subst own
      exact .inr (.inl (by decide))
    · have other : [n, nameA] ≠ [nameA, nameA] := fun same => own (List.cons.inj same).1
      have twin : twinsNode [n, nameA] = some entry := by
        rw [nestedA, write_node, if_neg other] at here
        exact here
      rcases twins_places [n, nameA] (twin ▸ Option.some_ne_none entry) with place | place | place | place
      · cases place
      · cases place
      · cases place
      · cases place
        cases twin
        exact .inl rfl
  outside := by
    intro n q entry _ found apart
    have target : (⟨nestedA, [nameA]⟩ : Fs).locate [97] = some [nameA, nameA] := by decide
    cases target.symm.trans found
    exact absurd ⟨[nameA], rfl⟩ apart

-- "chmod -r 644 a" from the root.
theorem recursive_change_nested : ∃ fs', (Change.run allowed (.mode 420) 3 [97]).run ⟨nestedA, []⟩ = .ok 0 fs' ∧
    Made (.mode 420) [nameA] nestedA fs'.tree :=
  (recursive_change_iff allowed allowed_permits (.mode 420) ⟨nestedA, []⟩ [97] [nameA] (by decide) (by decide) 3
    (by decide)).mpr nested_a_lucky

-- "chmod -r 700 a" from the root fails at the file "/a/f": it looks for "a" in "/a".
theorem chmod_rec_fails : ¬∀ (sys : System) (change : Change) (fs : Fs) (path : Bytes) (p : Place) (fuel : Nat), Permits sys →
    fs.locate path = some p → fs.tree.IsDir p → fs.tree.depth < fuel →
      ∃ fs', (change.run sys fuel path).run fs = .ok 0 fs' ∧ Made change p fs.tree fs'.tree := by
  intro works
  obtain ⟨fs', done, -⟩ := works allowed (.mode 448) ⟨twins, []⟩ [97] [nameA] 3 allowed_permits (by decide) (by decide) (by decide)
  have fails : (Change.run allowed (.mode 448) 3 [97]).run ⟨twins, []⟩ = .ok (-1) ⟨twins, [nameA]⟩ := rfl
  rw [fails] at done
  cases done

end Yaup.Busybox
