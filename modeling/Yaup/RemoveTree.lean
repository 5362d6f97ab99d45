import Yaup.ChangerWalks

set_option autoImplicit false

namespace Yaup.Busybox

open Lib

section
variable (sys : System) (n : Name) (fs : Fs)

theorem remove_ok (leaf : fs.tree.Leaf (n :: fs.cwd)) (permitted : sys.remove (n :: fs.cwd) = true) :
    (remove sys n.val).run fs = .ok 0 { fs with tree := fs.tree.erase (n :: fs.cwd) leaf } := by
  rw [remove, run_get_bind, locate_name, if_pos leaf.2.1]
  dsimp only
  rw [dif_pos ⟨leaf, permitted⟩]
  rfl

theorem remove_refused (refused : ¬(fs.tree.Leaf (n :: fs.cwd) ∧ sys.remove (n :: fs.cwd) = true)) :
    (remove sys n.val).run fs = .ok (-1) fs := by
  rw [remove, run_get_bind, locate_name]
  by_cases has : fs.tree.Has (n :: fs.cwd)
  · rw [if_pos has]
    dsimp only
    rw [dif_neg refused]
    rfl
  · rw [if_neg has]
    rfl

end

theorem remover_turn (sys : System) (halt : Halt → Fs → Prop) (nested : Bytes → Cmd Int) (path : Bytes) (e : Name × Kind)
    (s : Unit) (pre middle : Fs → Prop) (post : Turn Unit → Fs → Prop)
    (dir : e.2 = .dir → Triple pre (nested e.1.val) (fun code => if 0 ≤ code then middle else post (.stop (-1))) halt)
    (file : e.2 ≠ .dir → ∀ fs, pre fs → middle fs)
    (goes : Triple middle (remove sys e.1.val) (fun code => post (if code < 0 then .stop (-1) else .next ())) halt) :
    Triple pre ((remover sys).visit nested path (dirent e) s) post halt :=
  changer_branch halt sys (fun _ d => remove sys d.name) nested path e s pre middle post dir file goes

def Lasting (holds : Fs → Prop) : Prop :=
  ∀ fs n (leaf : fs.tree.Leaf (n :: fs.cwd)), holds fs → holds { fs with tree := fs.tree.erase (n :: fs.cwd) leaf }

section
variable (sys : System) (holds : Fs → Prop) (lasting : Lasting holds)
include lasting

theorem remove_keeps (n : Name) : Keeps holds (remove sys n.val) := by
  refine triple_returns _ _ _ _ ?_
  intro fs held
  by_cases able : fs.tree.Leaf (n :: fs.cwd) ∧ sys.remove (n :: fs.cwd) = true
  · exact ⟨_, _, remove_ok sys n fs able.1 able.2, lasting fs n able.1 held⟩
  · exact ⟨_, _, remove_refused sys n fs able, held⟩

theorem remover_entries_keep (nested : Bytes → Cmd Int) (path : Bytes) (es : List (Name × Kind)) (s : Unit)
    (below : ∀ n : Name, Keeps holds (nested n.val)) :
    Keeps holds (walkEntries ((remover sys).visit nested path) (es.map dirent) s) := by
  induction es generalizing s with
  | nil => exact keeps_pure _ _
  | cons e rest ih =>
      rw [walk_entries_cons]
      have kept : Keeps holds ((remover sys).visit nested path (dirent e) s) := by
        refine remover_turn sys _ nested path e s _ holds _ (fun _ => ?_) (fun _ _ same => same) (remove_keeps sys holds lasting e.1)
        simp only [ite_self]
        exact below e.1
      refine keeps_bind _ _ _ kept fun turn => ?_
      cases turn with
      | stop code => exact keeps_pure _ _
      | next s => exact ih s

theorem rm_dir_keeps (fuel : Nat) (path : Bytes) : Keeps holds (rmDir sys fuel path) := by
  induction fuel generalizing path with
  | zero => exact keeps_throw _ _
  | succ fuel ih =>
      intro fs held
      rw [rmDir]
      by_cases refused : fs.opendir sys path = none
      · rw [walk_refused sys _ fuel path fs refused]
        exact keeps_pure holds (-1 : Int) fs held
      · obtain ⟨p, found, dir, opens⟩ := opendir_opened sys path fs refused
        rw [walk_opened sys _ fuel path fs p found dir opens]
        have whole : Keeps holds (walkOpened sys (remover sys) fuel path (fs.tree.entries p)) := by
          refine keeps_bind _ _ _ (keeps_pure _ _) fun _ => ?_
          refine keeps_bind _ _ _ (remover_entries_keep sys holds lasting _ path _ () fun n => ih n.val) fun turn => ?_
          cases turn with
          | stop code => exact keeps_pure _ _
          | next s => exact keeps_bind _ _ _ (keeps_pure _ _) fun _ => keeps_pure _ _
        exact whole fs held

end

structure Pruned (fs fs' : Fs) : Prop where
  cwd : fs'.cwd = fs.cwd
  kept : ∀ q, (∀ n, q ≠ n :: fs.cwd) → fs'.tree.node q = fs.tree.node q
  fewer : ∀ q, fs'.tree.node q = fs.tree.node q ∨ fs'.tree.node q = none

def Gone (fs : Fs) (n : Name) (fs' : Fs) : Prop := fs'.cwd = fs.cwd ∧ ¬fs'.tree.Has (n :: fs.cwd)

section
variable (fs : Fs)

theorem pruned_refl : Pruned fs fs := ⟨rfl, fun _ _ => rfl, fun _ => .inl rfl⟩

theorem pruned_lasting : Lasting (Pruned fs) := by
  intro fs' n leaf pruned
  refine ⟨pruned.cwd, fun q apart => ?_, fun q => ?_⟩
  · rw [erase_node, if_neg (pruned.cwd ▸ apart n)]
    exact pruned.kept q apart
  · rw [erase_node]
    split
    · exact .inr rfl
    · exact pruned.fewer q

theorem gone_lasting (n : Name) : Lasting (Gone fs n) := by
  rintro fs' m leaf ⟨cwd, gone⟩
  exact ⟨cwd, fun has => gone (erase_has fs'.tree _ _ leaf has)⟩

variable (fs' : Fs) (pruned : Pruned fs fs')
include pruned

theorem pruned_kind (q : Place) (kind : Kind) (now : fs'.tree.kindAt q = some kind) : fs.tree.kindAt q = some kind := by
  rcases pruned.fewer q with same | none
  · rw [← now, Tree.kindAt, Tree.kindAt, same]
  · rw [Tree.kindAt, none] at now
    cases now

theorem pruned_has (q : Place) (now : fs'.tree.Has q) : fs.tree.Has q := by
  obtain ⟨kind, here⟩ := Option.ne_none_iff_exists'.mp now
  exact kind_has fs.tree q kind (pruned_kind fs fs' pruned q kind here)

theorem pruned_leaf (n : Name) (leaf : fs'.tree.Leaf (n :: fs.cwd)) : fs.tree.Leaf (n :: fs.cwd) := by
  refine ⟨leaf.1, pruned_has fs fs' pruned _ leaf.2.1, ?_⟩
  rw [entries_nil]
  intro m has
  refine (entries_nil fs'.tree _).mp leaf.2.2 m ?_
  rw [has_iff] at has ⊢
  rwa [pruned.kept _ fun k same => List.cons_ne_self n fs.cwd (List.cons.inj same).2]

end

def Matched (fs : Fs) (e : Name × Kind) : Prop := fs.tree.Leaf (e.1 :: fs.cwd) ∧ (e.2 = .dir → fs.tree.IsDir (e.1 :: fs.cwd))

def Matches (fs : Fs) (p : Place) : Prop := ∀ e ∈ fs.tree.entries p, Matched fs e

section
variable (sys : System) (fs : Fs)

theorem remove_gone (n : Name) : Triple (Pruned fs) (remove sys n.val)
    (fun code fs' => Pruned fs fs' ∧ (0 ≤ code → Gone fs n fs' ∧ fs.tree.Leaf (n :: fs.cwd))) fun _ _ => True := by
  refine triple_returns _ _ _ _ ?_
  intro fs' pruned
  by_cases able : fs'.tree.Leaf (n :: fs'.cwd) ∧ sys.remove (n :: fs'.cwd) = true
  · refine ⟨_, _, remove_ok sys n fs' able.1 able.2, pruned_lasting fs fs' n able.1 pruned, fun _ => ⟨⟨pruned.cwd, ?_⟩, ?_⟩⟩
    · rw [has_iff, erase_node, if_pos (by rw [pruned.cwd])]
      exact not_not.mpr rfl
    · exact pruned_leaf fs fs' pruned n (pruned.cwd ▸ able.1)
  · exact ⟨_, _, remove_refused sys n fs' able, pruned, fun success => absurd success (by decide)⟩

theorem nested_opened (fuel : Nat) (n : Name) : Triple (Pruned fs) (rmDir sys fuel n.val)
    (fun code fs' => Pruned fs fs' ∧ (0 ≤ code → fs.tree.IsDir (n :: fs.cwd))) fun _ _ => True := by
  intro fs' pruned
  refine ⟨fun code g done => ⟨(rm_dir_keeps sys _ (pruned_lasting fs) fuel n.val fs' pruned).1 code g done, fun success => ?_⟩,
    fun _ _ _ => trivial⟩
  by_contra file
  cases fuel with
  | zero => cases done
  | succ fuel =>
      have refused : fs'.opendir sys n.val = none := by
        by_contra opened
        obtain ⟨p, found, dir, -⟩ := opendir_opened sys n.val fs' opened
        rw [locate_name] at found
        split at found
        · cases found
          exact file (pruned_kind fs fs' pruned _ .dir (pruned.cwd ▸ dir))
        · cases found
      rw [rmDir, walk_refused sys _ fuel n.val fs' refused] at done
      cases done
      exact absurd success (show ¬(0 : Int) ≤ -1 by decide)

-- A loop that ends without a return has removed an entry of the working directory for each
-- entry read.
def Swept (fs : Fs) (es : List (Name × Kind)) (turn : Turn Unit) (fs' : Fs) : Prop :=
  match turn with
  | .stop code => code < 0
  | .next _ => ∀ e ∈ es, Gone fs e.1 fs' ∧ Matched fs e

theorem turn_swept (fuel : Nat) (path : Bytes) (e : Name × Kind) (s : Unit) :
    Triple (Pruned fs) ((remover sys).visit (rmDir sys fuel) path (dirent e) s)
      (fun turn fs' => Pruned fs fs' ∧ Swept fs [e] turn fs') fun _ _ => True := by
  have minus : (-1 : Int) < 0 := by decide
  refine remover_turn sys _ _ path e s _ (fun fs' => Pruned fs fs' ∧ (e.2 = .dir → fs.tree.IsDir (e.1 :: fs.cwd))) _
    (fun dir => ?_) (fun file fs' pruned => ⟨pruned, fun dir => absurd dir file⟩) ?_
  · refine triple_weaken _ _ _ _ _ _ (nested_opened sys fs fuel e.1) (fun _ same => same) fun code fs' done => ?_
    by_cases success : 0 ≤ code
    · rw [if_pos success]
      exact ⟨done.1, fun _ => done.2 success⟩
    · rw [if_neg success]
      exact ⟨done.1, minus⟩
  · rintro fs' ⟨pruned, dirs⟩
    obtain ⟨returned, -⟩ := remove_gone sys fs e.1 fs' pruned
    refine ⟨fun code g done => ?_, fun _ _ _ => trivial⟩
    obtain ⟨kept, gone⟩ := returned code g done
    by_cases fails : code < 0
    · rw [if_pos fails]
      exact ⟨kept, minus⟩
    · rw [if_neg fails]
      obtain ⟨gone, leaf⟩ := gone (by omega)
      refine ⟨kept, fun e' member => ?_⟩
      rw [List.mem_singleton.mp member]
      exact ⟨gone, leaf, dirs⟩

theorem entries_swept (fuel : Nat) (path : Bytes) (es : List (Name × Kind)) (s : Unit) :
    Triple (Pruned fs) (walkEntries ((remover sys).visit (rmDir sys fuel) path) (es.map dirent) s)
      (Swept fs es) fun _ _ => True := by
  induction es generalizing s with
  | nil => exact triple_pure _ _ _ _ fun fs' _ e member => absurd member List.not_mem_nil
  | cons e rest ih =>
      rw [walk_entries_cons]
      refine triple_bind _ _ _ _ _ _ (turn_swept sys fs fuel path e s) fun answer => ?_
      cases answer with
      | stop code => exact triple_pure _ _ _ _ fun _ done => done.2
      | next s' =>
          rintro fs' ⟨pruned, swept⟩
          obtain ⟨gone, matched⟩ := swept e List.mem_cons_self
          have stays := remover_entries_keep sys _ (gone_lasting fs e.1) (rmDir sys fuel) path rest s'
            fun n => rm_dir_keeps sys _ (gone_lasting fs e.1) fuel n.val
          obtain ⟨returned, -⟩ := triple_and _ _ _ _ _ _ _ (ih s') stays fs' ⟨pruned, gone⟩
          refine ⟨fun turn g done => ?_, fun _ _ _ => trivial⟩
          obtain ⟨others, still⟩ := returned turn g done
          cases turn with
          | stop code => exact others
          | next s'' =>
              intro e' member
              rcases List.mem_cons.mp member with rfl | later
              · exact ⟨still, matched⟩
              · exact others e' later

theorem rm_dir_gone (fuel : Nat) (path : Bytes) (p : Place) (found : fs.locate path = some p) (dir : fs.tree.IsDir p)
    (opens : sys.opendir p = true) (code : Int) (fs' : Fs) (done : (rmDir sys fuel path).run fs = .ok code fs')
    (success : 0 ≤ code) : ∀ e ∈ fs.tree.entries p, Gone fs e.1 fs' ∧ Matched fs e := by
  cases fuel with
  | zero => cases done
  | succ fuel =>
      rw [rmDir, walk_opened sys _ fuel path fs p found dir opens] at done
      have whole : Triple (Pruned fs) (walkOpened sys (remover sys) fuel path (fs.tree.entries p))
          (fun code fs' => 0 ≤ code → ∀ e ∈ fs.tree.entries p, Gone fs e.1 fs' ∧ Matched fs e) fun _ _ => True := by
        refine triple_bind _ _ _ (fun _ => Pruned fs) _ _ (triple_pure _ _ _ _ fun _ same => same) fun _ => ?_
        refine triple_bind _ _ _ _ _ _ (entries_swept sys fs fuel path (fs.tree.entries p) ()) fun turn => ?_
        cases turn with
        | stop code =>
            refine triple_pure _ _ _ _ fun _ stopped success => ?_
            have negative : code < 0 := stopped
            omega
        | next s =>
            refine triple_bind _ _ _ (fun _ fs' => ∀ e ∈ fs.tree.entries p, Gone fs e.1 fs' ∧ Matched fs e) _ _ ?_
              fun _ => triple_pure _ _ _ _ fun _ gone _ => gone
            exact triple_pure _ _ _ _ fun _ swept => swept
      exact (whole fs (pruned_refl fs)).1 code fs' done success

end

theorem matched_erase (fs : Fs) (n : Name) (leaf : fs.tree.Leaf (n :: fs.cwd)) (e : Name × Kind) (apart : e.1 ≠ n)
    (matched : Matched fs e) : Matched { fs with tree := fs.tree.erase (n :: fs.cwd) leaf } e := by
  have other : e.1 :: fs.cwd ≠ n :: fs.cwd := fun same => apart (List.cons.inj same).1
  refine ⟨erase_leaf fs.tree _ _ leaf matched.1 other, fun dir => ?_⟩
  rw [Tree.IsDir, erase_kind fs.tree _ _ leaf other]
  exact matched.2 dir

section
variable (sys : System) (permits : Permits sys)
include permits

theorem nested_empty (fuel : Nat) (n : Name) (fs : Fs) (dir : fs.tree.IsDir (n :: fs.cwd)) (leaf : fs.tree.Leaf (n :: fs.cwd)) :
    (rmDir sys (fuel + 1) n.val).run fs = .ok 0 fs := by
  have found : fs.locate n.val = some (n :: fs.cwd) := by
    rw [locate_name]
    exact if_pos leaf.2.1
  rw [rmDir, walk_opened sys _ fuel n.val fs _ found dir (permits.opens _), leaf.2.2]
  rfl

theorem matched_turn (fuel : Nat) (path : Bytes) (e : Name × Kind) (rest : List (Name × Kind)) (s : Unit)
    (fresh : ∀ e' ∈ rest, e'.1 ≠ e.1) :
    Triple (fun fs => ∀ e' ∈ e :: rest, Matched fs e') ((remover sys).visit (rmDir sys (fuel + 1)) path (dirent e) s)
      (fun turn fs => (∃ s', turn = .next s') ∧ ∀ e' ∈ rest, Matched fs e') fun _ _ => False := by
  refine remover_turn sys _ _ path e s _ (fun fs => ∀ e' ∈ e :: rest, Matched fs e') _ (fun dir => ?_) (fun _ _ same => same) ?_
  · refine triple_returns _ _ _ _ fun fs matched => ?_
    obtain ⟨leaf, isDir⟩ := matched e List.mem_cons_self
    exact ⟨0, fs, nested_empty sys permits fuel e.1 fs (isDir dir) leaf, matched⟩
  · refine triple_returns _ _ _ _ fun fs matched => ?_
    obtain ⟨leaf, -⟩ := matched e List.mem_cons_self
    exact ⟨0, _, remove_ok sys e.1 fs leaf (permits.removes _), ⟨(), rfl⟩, fun e' later =>
      matched_erase fs e.1 leaf e' (fresh e' later) (matched e' (List.mem_cons_of_mem _ later))⟩

theorem matched_entries (fuel : Nat) (path : Bytes) (es : List (Name × Kind)) (s : Unit) (once : (es.map Prod.fst).Nodup) :
    Triple (fun fs => ∀ e ∈ es, Matched fs e) (walkEntries ((remover sys).visit (rmDir sys (fuel + 1)) path) (es.map dirent) s)
      (fun turn _ => ∃ s', turn = .next s') fun _ _ => False := by
  induction es generalizing s with
  | nil => exact triple_pure _ _ _ _ fun _ _ => ⟨s, rfl⟩
  | cons e rest ih =>
      rw [walk_entries_cons]
      rw [List.map_cons, List.nodup_cons] at once
      have fresh : ∀ e' ∈ rest, e'.1 ≠ e.1 := fun e' later same => once.1 (same ▸ List.mem_map_of_mem later)
      refine triple_bind _ _ _ _ _ _ (matched_turn sys permits fuel path e rest s fresh) fun answer => ?_
      cases answer with
      | stop code =>
          rintro fs ⟨⟨s', goes⟩, -⟩
          cases goes
      | next s' => exact triple_weaken _ _ _ _ _ _ (ih s' once.2) (fun _ done => done.2) fun _ _ same => same

theorem rm_dir_matched (fuel : Nat) (fs : Fs) (path : Bytes) (p : Place) (found : fs.locate path = some p)
    (dir : fs.tree.IsDir p) (all : Matches fs p) : ∃ fs', (rmDir sys (fuel + 2) path).run fs = .ok 0 fs' := by
  rw [rmDir, walk_opened sys _ (fuel + 1) path fs p found dir (permits.opens p)]
  have whole : Triple (fun fs' => ∀ e ∈ fs.tree.entries p, Matched fs' e)
      (walkOpened sys (remover sys) (fuel + 1) path (fs.tree.entries p)) (fun code _ => code = 0) fun _ _ => False := by
    refine triple_bind _ _ _ (fun _ fs' => ∀ e ∈ fs.tree.entries p, Matched fs' e) _ _ (triple_pure _ _ _ _ fun _ same => same) fun _ => ?_
    refine triple_bind _ _ _ _ _ _ (matched_entries sys permits fuel path _ () (entries_names fs.tree p)) fun turn => ?_
    cases turn with
    | stop code =>
        rintro fs' ⟨s, goes⟩
        cases goes
    | next s =>
        refine triple_bind _ _ _ (fun _ _ => True) _ _ (triple_pure _ _ _ _ fun _ _ => trivial) fun _ => ?_
        exact triple_pure _ _ _ _ fun _ _ => rfl
  obtain ⟨code, fs', done, rfl⟩ := triple_total _ _ _ whole fs all
  exact ⟨fs', done⟩

end

inductive FirstHit (fs : Fs) : Place → Prop where
  | now (p : Place) (e : Name × Kind) (rest : List (Name × Kind)) (first : fs.tree.entries p = e :: rest)
      (matched : Matched fs e) : FirstHit fs p
  | deeper (p : Place) (n : Name) (rest : List (Name × Kind)) (first : fs.tree.entries p = (n, .dir) :: rest)
      (hit : FirstHit fs (n :: fs.cwd)) : FirstHit fs p

def Hit (fs fs' : Fs) : Prop := ∃ n, fs.tree.Has (n :: fs.cwd) ∧ Gone fs n fs'

theorem hit_lasting (fs : Fs) : Lasting (Hit fs) := by
  rintro fs' n leaf ⟨m, has, gone⟩
  exact ⟨m, has, gone_lasting fs m fs' n leaf gone⟩

theorem first_hit_dir (fs : Fs) (p : Place) (hit : FirstHit fs p) : fs.tree.IsDir p := by
  have child : ∀ e rest, fs.tree.entries p = e :: rest → fs.tree.IsDir p := by
    intro e rest first
    have member : e ∈ fs.tree.entries p := first ▸ List.mem_cons_self
    exact parent_dir fs.tree e.1 p (entry_has fs.tree p e member)
  cases hit with
  | now _ e rest first matched => exact child e rest first
  | deeper _ n rest first hit => exact child (n, .dir) rest first

section
variable (sys : System) (permits : Permits sys) (fs : Fs)
include permits

theorem hit_first (fuel : Nat) (path : Bytes) (p : Place) (found : fs.locate path = some p) (dir : fs.tree.IsDir p)
    (e : Name × Kind) (rest : List (Name × Kind)) (first : fs.tree.entries p = e :: rest)
    (turn : Triple (fun s => s = fs) ((remover sys).visit (rmDir sys fuel) path (dirent e) ()) (fun _ => Hit fs) fun _ => Hit fs) :
    Triple (fun s => s = fs) (rmDir sys (fuel + 1) path) (fun _ => Hit fs) fun _ => Hit fs := by
  rintro _ rfl
  rename_i fs
  rw [rmDir, walk_opened sys _ fuel path fs p found dir (permits.opens p), first]
  have loop : Triple (fun s => s = fs) (walkEntries ((remover sys).visit (rmDir sys fuel) path) ((e :: rest).map dirent) ())
      (fun _ => Hit fs) fun _ => Hit fs := by
    rw [walk_entries_cons]
    refine triple_bind _ _ _ _ _ _ turn fun answer => ?_
    cases answer with
    | stop code => exact triple_pure _ _ _ _ fun _ same => same
    | next s =>
        exact remover_entries_keep sys _ (hit_lasting fs) (rmDir sys fuel) path rest s
          fun n => rm_dir_keeps sys _ (hit_lasting fs) fuel n.val
  have whole : Triple (fun s => s = fs) (walkOpened sys (remover sys) fuel path (e :: rest)) (fun _ => Hit fs) fun _ => Hit fs := by
    refine triple_bind _ _ _ (fun _ s => s = fs) _ _ (triple_pure _ _ _ _ fun _ same => same) fun _ => ?_
    refine triple_bind _ _ _ _ _ _ loop fun turn => ?_
    cases turn with
    | stop code => exact triple_pure _ _ _ _ fun _ same => same
    | next s => exact keeps_bind _ _ _ (keeps_pure _ _) fun _ => keeps_pure _ _
  exact whole fs rfl

theorem first_hit_hits (p : Place) (hit : FirstHit fs p) : ∃ fuel, ∀ path, fs.locate path = some p →
    Triple (fun s => s = fs) (rmDir sys fuel path) (fun _ => Hit fs) fun _ => Hit fs := by
  induction hit with
  | now p e rest first matched =>
      refine ⟨2, fun path found => hit_first sys permits fs 1 path p found ?_ e rest first ?_⟩
      · exact first_hit_dir fs p (.now p e rest first matched)
      · refine remover_turn sys _ _ path e () _ (fun s => s = fs) _ (fun dir => ?_) (fun _ _ same => same) ?_
        · refine triple_returns _ _ _ _ ?_
          rintro _ rfl
          exact ⟨0, _, nested_empty sys permits 0 e.1 _ (matched.2 dir) matched.1, rfl⟩
        · refine triple_returns _ _ _ _ ?_
          rintro _ rfl
          refine ⟨0, _, remove_ok sys e.1 _ matched.1 (permits.removes _), e.1, matched.1.2.1, rfl, ?_⟩
          rw [has_iff, erase_node, if_pos rfl]
          exact not_not.mpr rfl
  | deeper p n rest first hit ih =>
      obtain ⟨fuel, hits⟩ := ih
      refine ⟨fuel + 1, fun path found => hit_first sys permits fs fuel path p found ?_ (n, .dir) rest first ?_⟩
      · exact first_hit_dir fs p (.deeper p n rest first hit)
      · refine remover_turn sys _ _ path (n, .dir) () _ (Hit fs) _ (fun _ => ?_) (fun file => absurd rfl file)
          (remove_keeps sys _ (hit_lasting fs) n)
        simp only [ite_self]
        exact hits n.val (locate_dir _ n (first_hit_dir fs _ hit))

omit permits in
theorem nested_shut (fuel : Nat) (n : Name) (file : ¬fs.tree.IsDir (n :: fs.cwd)) :
    Triple (fun s => s = fs) (rmDir sys fuel n.val) (fun code fs' => code = -1 ∧ fs' = fs) fun _ fs' => fs' = fs := by
  cases fuel with
  | zero => exact triple_throw _ _ _ _ fun _ same => same
  | succ fuel =>
      refine triple_returns _ _ _ _ ?_
      rintro _ rfl
      rename_i fs
      have refused : fs.opendir sys n.val = none := by
        by_contra opened
        obtain ⟨p, found, dir, -⟩ := opendir_opened sys n.val fs opened
        rw [locate_name] at found
        split at found
        · cases found
          exact file dir
        · cases found
      exact ⟨-1, fs, walk_refused sys _ fuel n.val fs refused, rfl, rfl⟩

omit permits in
theorem missed_turn (fuel : Nat) (path : Bytes) (e : Name × Kind) (unmatched : ¬Matched fs e)
    (below : e.2 = .dir → fs.tree.IsDir (e.1 :: fs.cwd) → Triple (fun s => s = fs) (rmDir sys fuel e.1.val)
      (fun code fs' => fs' = fs ∧ (0 ≤ code → fs.tree.entries (e.1 :: fs.cwd) = [])) fun _ fs' => fs' = fs) :
    Triple (fun s => s = fs) ((remover sys).visit (rmDir sys fuel) path (dirent e) ())
      (fun turn fs' => fs' = fs ∧ turn = .stop (-1)) fun _ fs' => fs' = fs := by
  refine remover_turn sys _ _ path e () _ (fun s => s = fs ∧ ¬fs.tree.Leaf (e.1 :: fs.cwd)) _ (fun dir => ?_)
    (fun file _ same => ⟨same, fun leaf => unmatched ⟨leaf, fun dir => absurd dir file⟩⟩) ?_
  · by_cases isDir : fs.tree.IsDir (e.1 :: fs.cwd)
    · refine triple_weaken _ _ _ _ _ _ (below dir isDir) (fun _ same => same) fun code fs' done => ?_
      have fails : ¬0 ≤ code := fun success =>
        unmatched ⟨⟨List.cons_ne_nil _ _, dir_has _ _ isDir, done.2 success⟩, fun _ => isDir⟩
      rw [if_neg fails]
      exact ⟨done.1, rfl⟩
    · refine triple_weaken _ _ _ _ _ _ (nested_shut sys fs fuel e.1 isDir) (fun _ same => same) ?_
      rintro _ fs' ⟨rfl, same⟩
      exact ⟨same, rfl⟩
  · refine triple_returns _ _ _ _ ?_
    rintro _ ⟨rfl, kept⟩
    exact ⟨-1, _, remove_refused sys e.1 _ fun able => kept able.1, rfl, rfl⟩

-- By induction on the fuel: the walk goes down, or back up with -1, and removes nothing.
theorem no_hit_keeps (fuel : Nat) (path : Bytes) (p : Place) (found : fs.locate path = some p) (dir : fs.tree.IsDir p)
    (missed : ¬FirstHit fs p) : Triple (fun s => s = fs) (rmDir sys fuel path)
      (fun code fs' => fs' = fs ∧ (0 ≤ code → fs.tree.entries p = [])) fun _ fs' => fs' = fs := by
  induction fuel generalizing path p with
  | zero => exact triple_throw _ _ _ _ fun _ same => same
  | succ fuel ih =>
      rintro _ rfl
      rename_i fs
      rw [rmDir, walk_opened sys _ fuel path fs p found dir (permits.opens p)]
      have whole : Triple (fun s => s = fs) (walkOpened sys (remover sys) fuel path (fs.tree.entries p))
          (fun code fs' => fs' = fs ∧ (0 ≤ code → fs.tree.entries p = [])) fun _ fs' => fs' = fs := by
        refine triple_bind _ _ _ (fun _ s => s = fs) _ _ (triple_pure _ _ _ _ fun _ same => same) fun _ => ?_
        cases first : fs.tree.entries p with
        | nil =>
            refine triple_bind _ _ _ (fun _ s => s = fs) _ _ (triple_pure _ _ _ _ fun _ same => same) fun turn => ?_
            cases turn with
            | stop code => exact triple_pure _ _ _ _ fun _ same => ⟨same, fun _ => rfl⟩
            | next s =>
                refine triple_bind _ _ _ (fun _ s => s = fs) _ _ (triple_pure _ _ _ _ fun _ same => same) fun _ => ?_
                exact triple_pure _ _ _ _ fun _ same => ⟨same, fun _ => rfl⟩
        | cons e rest =>
            have unmatched : ¬Matched fs e := fun matched => missed (.now p e rest first matched)
            have loop : Triple (fun s => s = fs) (walkEntries ((remover sys).visit (rmDir sys fuel) path) ((e :: rest).map dirent) ())
                (fun turn fs' => fs' = fs ∧ turn = .stop (-1)) fun _ fs' => fs' = fs := by
              rw [walk_entries_cons]
              refine triple_bind _ _ _ _ _ _ (missed_turn sys fs fuel path e unmatched fun dir isDir => ?_) fun answer => ?_
              · refine ih e.1.val _ (locate_dir _ e.1 isDir) isDir fun hit => missed ?_
                · obtain ⟨n, kind⟩ := e
                  cases dir
                  exact .deeper p n rest first hit
              · cases answer with
                | stop code => exact triple_pure _ _ _ _ fun _ same => same
                | next s =>
                    rintro fs' ⟨-, goes⟩
                    cases goes
            refine triple_bind _ _ _ _ _ _ loop fun turn => ?_
            cases turn with
            | stop code =>
                refine triple_pure _ _ _ _ ?_
                rintro _ ⟨same, stopped⟩
                cases stopped
                exact ⟨same, fun success => absurd success (by decide)⟩
            | next s =>
                rintro fs' ⟨-, goes⟩
                cases goes
      exact whole fs rfl

end

def Spared (p : Place) (fs fs' : Fs) : Prop := ∀ q, ¬Beneath p q → fs'.tree.node q = fs.tree.node q

-- However deep the calls may go before the process runs out of memory, only entries below `p`
-- are removed, and all of them where 0 is returned.
def RemovesBelow (sys : System) (fs : Fs) (path : Bytes) (p : Place) : Prop :=
  ∀ fuel, Triple (fun s => s = fs) (rmDir sys fuel path)
    (fun code fs' => Spared p fs fs' ∧ (code = 0 → ∀ q, Beneath p q → ¬fs'.tree.Has q)) fun _ fs' => Spared p fs fs'

theorem pruned_spared (fs fs' : Fs) (p : Place) (under : p <:+ fs.cwd) (pruned : Pruned fs fs') : Spared p fs fs' := by
  intro q apart
  refine pruned.kept q fun n same => apart ?_
  rw [same]
  exact (below_cons n p fs.cwd).mpr under

theorem below_child (t : Tree Name Stat) (p q : Place) (below : Beneath p q) (has : t.Has q) : ∃ n, t.Has (n :: p) := by
  obtain ⟨n, under⟩ := below
  exact ⟨n, above_has t q _ under has⟩

section
variable (sys : System) (permits : Permits sys) (fs : Fs) (path : Bytes) (p : Place) (found : fs.locate path = some p)
  (dir : fs.tree.IsDir p)
include permits found dir

theorem removes_inside (under : p <:+ fs.cwd) (partly : p = fs.cwd ∨ ¬Matches fs p) : RemovesBelow sys fs path p := by
  intro fuel
  rintro _ rfl
  rename_i fs
  obtain ⟨returned, stopped⟩ := rm_dir_keeps sys _ (pruned_lasting fs) fuel path fs (pruned_refl fs)
  refine ⟨fun code fs' done => ⟨pruned_spared fs fs' p under (returned code fs' done), fun zero q below has => ?_⟩,
    fun e fs' halted => pruned_spared fs fs' p under (stopped e fs' halted)⟩
  have gone := rm_dir_gone sys fs fuel path p found dir (permits.opens p) code fs' done (by omega)
  rcases partly with rfl | some
  · obtain ⟨n, left⟩ := below_child fs'.tree _ q below has
    obtain ⟨kind, member⟩ := has_entry fs.tree _ n (pruned_has fs fs' (returned code fs' done) _ left)
    exact (gone (n, kind) member).1.2 left
  · exact some fun e member => (gone e member).2

theorem removes_nothing (missed : ¬FirstHit fs p) : RemovesBelow sys fs path p := by
  intro fuel
  rintro _ rfl
  rename_i fs
  obtain ⟨returned, stopped⟩ := no_hit_keeps sys permits fs fuel path p found dir missed fs rfl
  refine ⟨fun code fs' done => ?_, fun e fs' halted => ?_⟩
  · obtain ⟨rfl, empty⟩ := returned code fs' done
    refine ⟨fun _ _ => rfl, fun zero q below has => ?_⟩
    obtain ⟨n, child⟩ := below_child _ p q below has
    exact (entries_nil _ p).mp (empty (by omega)) n child
  · rw [stopped e fs' halted]
    exact fun _ _ => rfl

theorem removes_all_wrong (home : fs.tree.IsDir fs.cwd) (under : p <:+ fs.cwd) (apart : p ≠ fs.cwd) (all : Matches fs p) :
    ¬RemovesBelow sys fs path p := by
  intro removes
  obtain ⟨fs', done⟩ := rm_dir_matched sys permits 0 fs path p found dir all
  have cleared := ((removes 2 fs rfl).1 0 fs' done).2 rfl
  have pruned := (rm_dir_keeps sys _ (pruned_lasting fs) 2 path fs (pruned_refl fs)).1 0 fs' done
  refine cleared fs.cwd ?_ ?_
  · cases cwd : fs.cwd with
    | nil =>
        rw [cwd] at under apart
        exact absurd (List.suffix_nil.mp under) apart
    | cons n c =>
        rw [cwd] at under apart
        exact (below_cons n p c).mpr ((List.suffix_cons_iff.mp under).resolve_left apart)
  · rw [has_iff, pruned.kept fs.cwd fun n same => List.cons_ne_self n fs.cwd same.symm]
    exact (has_iff _ _).mp (dir_has _ _ home)

omit dir in
theorem removes_elsewhere (above : ¬p <:+ fs.cwd) (hit : FirstHit fs p) : ¬RemovesBelow sys fs path p := by
  intro removes
  obtain ⟨fuel, hits⟩ := first_hit_hits sys permits fs p hit
  have wrong : ∀ fs', Hit fs fs' → ¬Spared p fs fs' := by
    rintro fs' ⟨n, has, gone⟩ spared
    refine gone.2 ?_
    rw [has_iff] at has ⊢
    rwa [spared (n :: fs.cwd) fun below => above ((below_cons n p fs.cwd).mp below)]
  obtain ⟨returned, stopped⟩ := hits path found fs rfl
  cases run : (rmDir sys fuel path).run fs with
  | ok code fs' => exact wrong fs' (returned code fs' run) ((removes fuel fs rfl).1 code fs' run).1
  | error e fs' => exact wrong fs' (stopped e fs' run) ((removes fuel fs rfl).2 e fs' run)

end

theorem rm_dir_iff (sys : System) (permits : Permits sys) (fs : Fs) (home : fs.tree.IsDir fs.cwd) (path : Bytes) (p : Place)
    (found : fs.locate path = some p) (dir : fs.tree.IsDir p) :
    RemovesBelow sys fs path p ↔
      p = fs.cwd ∨ (p <:+ fs.cwd ∧ p ≠ fs.cwd ∧ ¬Matches fs p) ∨ (¬p <:+ fs.cwd ∧ ¬FirstHit fs p) := by
  constructor
  · intro removes
    by_cases own : p = fs.cwd
    · exact .inl own
    · by_cases under : p <:+ fs.cwd
      · exact .inr (.inl ⟨under, own, fun all => removes_all_wrong sys permits fs path p found dir home under own all removes⟩)
      · exact .inr (.inr ⟨under, fun hit => removes_elsewhere sys permits fs path p found under hit removes⟩)
  · rintro (own | ⟨under, -, some⟩ | ⟨-, missed⟩)
    · exact removes_inside sys permits fs path p found dir (own ▸ List.suffix_rfl) (.inl own)
    · exact removes_inside sys permits fs path p found dir under (.inr some)
    · exact removes_nothing sys permits fs path p found dir missed

theorem rm_dir_twins : RemovesBelow allowed ⟨twins, [nameA]⟩ [46] [nameA] :=
  (rm_dir_iff allowed allowed_permits ⟨twins, [nameA]⟩ (by decide) [46] [nameA] (by decide) (by decide)).mpr (.inl rfl)

-- "rm -r a" from the root removes the file "/f" in place of "/a/f".
theorem rm_dir_removes_other : ¬∀ (sys : System) (fs : Fs) (path : Bytes) (p : Place), Permits sys → fs.tree.IsDir fs.cwd →
    fs.locate path = some p → fs.tree.IsDir p → RemovesBelow sys fs path p := by
  intro works
  have removes := works allowed ⟨twins, []⟩ [97] [nameA] allowed_permits (by decide) (by decide) (by decide) 2 _ rfl
  have leaf : twins.Leaf [nameF] := by decide
  have runs : (rmDir allowed 2 [97]).run ⟨twins, []⟩ = .ok 0 ⟨twins.erase [nameF] leaf, []⟩ := rfl
  have spared := (removes.1 0 _ runs).1 [nameF] fun ⟨n, under⟩ => absurd under.length_le (by simp)
  cases spared

end Yaup.Busybox
