import Yaup.WalkRuns

set_option autoImplicit false

namespace Yaup.Busybox

open Lib

section
variable (sys : System) (t : Tree Name Stat)

-- What chmod_rec, chown_rec and chgrp_rec call for an entry: `names` is the path they give,
-- from the path of the walk and the name of the entry, and `f` what the call changes.
def changeCall (names : Bytes → Bytes → Bytes) (f : Kind → Stat → Stat) (path : Bytes) (d : Dirent) : Cmd Int :=
  changeAttr sys (names path d.name) f

def changerWays (names : Bytes → Bytes → Bytes) : Ways where
  frame := SameShape t
  passes := fun p path n => t.Has (n :: p) →
    (∃ q, (⟨t, p⟩ : Fs).locate (names path n.val) = some q ∧ sys.change q = true) ∧
      (t.IsDir (n :: p) → sys.opendir (n :: p) = true)
  fine := fun code => code = 0
  dirty := fun code => code < 0

end

theorem ends_pure {α : Type} (pre : Fs → Prop) (a : α) (post : α → Fs → Prop) (entails : ∀ fs, pre fs → post a fs) :
    Ends pre (pure a) post :=
  triple_pure pre a _ _ entails

theorem ends_bind {α β : Type} (pre : Fs → Prop) (x : Cmd α) (f : α → Cmd β) (middle : α → Fs → Prop)
    (post : β → Fs → Prop) (first : Ends pre x middle) (rest : ∀ a, Ends (middle a) (f a) post) :
    Ends pre (x >>= f) post :=
  triple_bind pre x f middle post _ first rest

theorem chdir_enters (sys : System) (frame : Tree Name Stat → Prop) (path : Bytes) (p : Place)
    (dir : ∀ t, frame t → t.IsDir p) (permitted : sys.chdir p = true) :
    Ends (fun fs => frame fs.tree ∧ fs.locate path = some p) (chdir sys path) fun _ fs => frame fs.tree ∧ fs.cwd = p := by
  refine triple_modify _ _ _ _ ?_
  rintro fs ⟨held, found⟩
  rw [chdir_locate sys path fs p found (dir fs.tree held) permitted]
  exact ⟨held, rfl⟩

section
variable (sys : System) (path : Bytes) (f : Kind → Stat → Stat) (fs : Fs)

theorem change_attr_ok (p : Place) (found : fs.locate path = some p) (permitted : sys.change p = true) :
    (changeAttr sys path f).run fs = .ok 0 { fs with tree := fs.tree.change p f } := by
  rw [changeAttr, run_get_bind, found]
  simp only [if_pos permitted]
  rfl

theorem change_attr_refused (refused : ¬∃ p, fs.locate path = some p ∧ sys.change p = true) :
    (changeAttr sys path f).run fs = .ok (-1) fs := by
  rw [changeAttr, run_get_bind]
  cases found : fs.locate path with
  | none => rfl
  | some p =>
      have denied : ¬sys.change p = true := fun permitted => refused ⟨p, found, permitted⟩
      simp only [if_neg denied]
      rfl

end

theorem change_attr_keeps (sys : System) (path : Bytes) (f : Kind → Stat → Stat) (holds : Fs → Prop)
    (stable : ∀ fs tree, SameShape fs.tree tree → holds fs → holds { fs with tree := tree }) :
    Ends holds (changeAttr sys path f) fun _ => holds := by
  intro fs held
  by_cases able : ∃ p, fs.locate path = some p ∧ sys.change p = true
  · obtain ⟨p, found, permitted⟩ := able
    rw [change_attr_ok sys path f fs p found permitted]
    refine ⟨?_, ?_⟩
    · intro code g done
      cases done
      exact stable fs _ (change_shape fs.tree p f) held
    · intro e g halted
      cases halted
  · rw [change_attr_refused sys path f fs able]
    refine ⟨?_, ?_⟩
    · intro code g done
      cases done
      exact held
    · intro e g halted
      cases halted

theorem descend_dir (nested : Bytes → Cmd Int) (e : Name × Kind) (dir : e.2 = .dir) :
    descend nested (dirent e) = (nested e.1.val >>= fun code => pure (decide (0 ≤ code))) := by
  rw [descend]
  exact if_pos dir

theorem descend_file (nested : Bytes → Cmd Int) (e : Name × Kind) (file : ¬e.2 = .dir) :
    descend nested (dirent e) = pure true := by
  rw [descend]
  exact if_neg file

section
variable (halt : Halt → Fs → Prop)

theorem changer_turn (sys : System) (change : Bytes → Dirent → Cmd Int) (nested : Bytes → Cmd Int) (path : Bytes)
    (d : Dirent) (s : Unit) (pre : Fs → Prop) (post : Turn Unit → Fs → Prop) (middle : Bool → Fs → Prop)
    (below : Triple pre (descend nested d) middle halt)
    (goes : Triple (middle true) (change path d) (fun code => post (if code < 0 then .stop (-1) else .next ())) halt)
    (stops : ∀ fs, middle false fs → post (.stop (-1)) fs) :
    Triple pre ((changer sys change).visit nested path d s) post halt := by
  refine triple_bind _ _ _ middle _ _ below fun answer => ?_
  cases answer with
  | true => exact triple_bind _ _ _ _ _ _ goes fun code => triple_pure _ _ _ _ fun _ same => same
  | false => exact triple_pure _ _ _ _ stops

theorem descend_ends (nested : Bytes → Cmd Int) (e : Name × Kind) (pre : Fs → Prop) (post : Bool → Fs → Prop)
    (dir : e.2 = .dir → Triple pre (nested e.1.val) (fun code => post (decide (0 ≤ code))) halt)
    (file : e.2 ≠ .dir → ∀ fs, pre fs → post true fs) : Triple pre (descend nested (dirent e)) post halt := by
  by_cases kind : e.2 = .dir
  · rw [descend_dir nested e kind]
    exact triple_bind _ _ _ _ _ _ (dir kind) fun code => triple_pure _ _ _ _ fun _ same => same
  · rw [descend_file nested e kind]
    exact triple_pure _ _ _ _ (file kind)

theorem changer_branch (sys : System) (change : Bytes → Dirent → Cmd Int) (nested : Bytes → Cmd Int) (path : Bytes)
    (e : Name × Kind) (s : Unit) (pre middle : Fs → Prop) (post : Turn Unit → Fs → Prop)
    (dir : e.2 = .dir → Triple pre (nested e.1.val) (fun code => if 0 ≤ code then middle else post (.stop (-1))) halt)
    (file : e.2 ≠ .dir → ∀ fs, pre fs → middle fs)
    (goes : Triple middle (change path (dirent e)) (fun code => post (if code < 0 then .stop (-1) else .next ())) halt) :
    Triple pre ((changer sys change).visit nested path (dirent e) s) post halt := by
  refine changer_turn halt sys change nested path (dirent e) s pre post
    (fun answer => if answer = true then middle else post (.stop (-1))) ?_ goes fun _ stopped => stopped
  refine descend_ends halt nested e _ _ (fun kind => ?_) file
  simp only [decide_eq_true_eq]
  exact dir kind

end

theorem has_of_entry (t t' : Tree Name Stat) (same : SameShape t t') (p : Place) (e : Name × Kind)
    (member : e ∈ t'.entries p) : t.Has (e.1 :: p) := by
  rw [← same_shape_has t t' same]
  exact entry_has t' p e member

theorem changer_follows (sys : System) (t : Tree Name Stat) (names : Bytes → Bytes → Bytes) (f : Kind → Stat → Stat) :
    Follows sys (changer sys (changeCall sys names f)) t (changerWays sys t names) where
  dirs := fun t' same p => same_shape_dir t t' same p
  seen := by
    intro t' p path n same stops
    by_contra gone
    exact stops fun has => absurd ((same_shape_has t t' same _).mpr has) gone
  opens := fun p path n passes dir => .inl ((passes (dir_has t _ dir)).2 dir)
  enter := fun p path dir permitted =>
    chdir_enters sys (SameShape t) path p (fun t' same => (same_shape_dir t t' same p).mpr dir) permitted
  leave := rfl
  code := fun _ => rfl
  roams := by
    intro p nested path e s below
    refine changer_turn _ sys _ nested path (dirent e) s _ _ (fun _ => Within t (changerWays sys t names) p) ?_ ?_ ?_
    · exact descend_ends _ nested e _ _ (fun _ => below) fun _ _ same => same
    · refine change_attr_keeps sys _ f _ ?_
      rintro fs tree same ⟨frame, under, dir⟩
      exact ⟨same_shape_trans t fs.tree tree frame same, under, dir⟩
    · exact fun _ same => same
  goes := by
    rintro p nested path e s ⟨t', same, member⟩ passes below
    obtain ⟨⟨q, found, permitted⟩, -⟩ := passes (has_of_entry t t' same p e member)
    refine changer_branch _ sys _ nested path e s _ (At (changerWays sys t names) p) _ (fun dir => ?_) (fun _ _ here => here) ?_
    · refine triple_weaken _ _ _ _ _ _ (below dir) (fun _ here => here) fun code fs done => ?_
      rw [if_pos (Int.le_of_eq done.1.symm)]
      exact done.2
    · refine triple_returns _ _ _ _ ?_
      rintro ⟨tree, cwd⟩ ⟨frame, rfl⟩
      have located : (⟨tree, cwd⟩ : Fs).locate (names path e.1.val) = some q :=
        (same_shape_locate ⟨t, cwd⟩ tree _ frame).trans found
      exact ⟨0, _, change_attr_ok sys _ f _ q located permitted, ⟨(), rfl⟩,
        same_shape_trans t tree _ frame (change_shape tree q f), rfl⟩
  balks := by
    intro p nested path e s dir stops kind below
    have within : ∀ fs, At (changerWays sys t names) p fs → Within t (changerWays sys t names) p fs :=
      fun fs here => at_within t _ p fs dir here
    have minus : (changerWays sys t names).dirty (-1) := show (-1 : Int) < 0 by decide
    by_cases locked : e.2 = .dir ∧ ¬sys.opendir (e.1 :: p) = true
    · refine changer_branch _ sys _ nested path e s _ (fun _ => False) _ (fun isDir => ?_) (fun file => absurd locked.1 file)
        (triple_absurd _ _ _)
      refine triple_weaken _ _ _ _ _ _ (below isDir) (fun _ here => here) fun code fs done => ?_
      have failed := done.1
      rw [if_neg locked.2] at failed
      rw [failed]
      exact ⟨minus, within fs done.2⟩
    · have denied : ¬∃ q, (⟨t, p⟩ : Fs).locate (names path e.1.val) = some q ∧ sys.change q = true := by
        intro able
        refine stops fun _ => ⟨able, fun isDir => ?_⟩
        by_contra shut
        exact locked ⟨kind.mpr isDir, shut⟩
      refine changer_branch _ sys _ nested path e s _ (At (changerWays sys t names) p) _ (fun isDir => ?_)
        (fun _ _ here => here) ?_
      · refine triple_weaken _ _ _ _ _ _ (below isDir) (fun _ here => here) fun code fs done => ?_
        have fine := done.1
        rw [if_pos (by_contra fun shut => locked ⟨isDir, shut⟩)] at fine
        rw [if_pos (Int.le_of_eq fine.symm)]
        exact done.2
      · refine triple_returns _ _ _ _ ?_
        rintro ⟨tree, cwd⟩ ⟨frame, rfl⟩
        have refused : ¬∃ q, (⟨tree, cwd⟩ : Fs).locate (names path e.1.val) = some q ∧ sys.change q = true := by
          rwa [same_shape_locate ⟨t, cwd⟩ tree _ frame]
        exact ⟨-1, _, change_attr_refused sys _ f _ refused, minus, within _ ⟨frame, rfl⟩⟩
  follows := by
    intro p nested path e s dir isDir below
    refine changer_branch _ sys _ nested path e s _ (fun _ => False) _ (fun _ => ?_) (fun file => absurd isDir file)
      (triple_absurd _ _ _)
    refine triple_weaken _ _ _ _ _ _ below (fun _ here => here) fun code fs done => ?_
    rw [if_neg (Int.not_le.mpr done.1)]
    exact ⟨show (-1 : Int) < 0 by decide, within_above t _ p e.1 fs done.2⟩

end Yaup.Busybox
