import Yaup.ChangerWalks

set_option autoImplicit false

namespace Yaup.Busybox

open Lib

section
variable (sys : System) (t : Tree Name Stat)

def finderWays (name : Bytes) : Ways where
  frame := fun t' => t' = t
  passes := fun p _ n => t.Has (n :: p) → n.val ≠ name
  fine := fun _ => True
  dirty := fun _ => True

def sizerWays : Ways where
  frame := fun t' => t' = t
  passes := fun _ _ _ => True
  fine := fun _ => True
  dirty := fun _ => False

def copierWays : Ways where
  frame := fun t' => ∀ p, t'.IsDir p ↔ t.IsDir p
  passes := fun p _ n => t.IsDir (n :: p) → sys.opendir (n :: p) = true
  fine := fun code => code = 0
  dirty := fun code => code < 0

end

section
variable (sys : System) (name : Bytes) (nested : Bytes → Cmd Int) (path : Bytes) (e : Name × Kind) (s : Unit)

theorem finder_dir (other : (dirent e).name ≠ name) (dir : e.2 = .dir) :
    (finder sys name).visit nested path (dirent e) s = (nested e.1.val >>= fun _ => pure (.next ())) := by
  change (if (dirent e).name ≠ name then _ else _) = _
  rw [if_pos other]
  exact if_pos dir

theorem finder_file (other : (dirent e).name ≠ name) (file : ¬e.2 = .dir) :
    (finder sys name).visit nested path (dirent e) s = pure (.next ()) := by
  change (if (dirent e).name ≠ name then _ else _) = _
  rw [if_pos other]
  exact if_neg file

theorem finder_found (found : ¬(dirent e).name ≠ name) :
    (finder sys name).visit nested path (dirent e) s = pure (.stop 1) :=
  if_neg found

end

theorem finder_follows (sys : System) (t : Tree Name Stat) (name : Bytes) : Follows sys (finder sys name) t (finderWays t name) where
  dirs := by
    rintro t' rfl p
    rfl
  seen := by
    rintro t' p path n rfl stops
    by_contra gone
    exact stops fun has => absurd has gone
  opens := fun _ _ _ _ _ => .inr trivial
  enter := by
    intro p path dir permitted
    refine chdir_enters sys (fun t' => t' = t) path p ?_ permitted
    rintro t' rfl
    exact dir
  leave := rfl
  code := fun _ => trivial
  roams := by
    intro p nested path e s below
    by_cases same : (dirent e).name ≠ name
    · by_cases dir : e.2 = .dir
      · rw [finder_dir sys name nested path e s same dir]
        exact ends_bind _ _ _ _ _ below fun _ => ends_pure _ _ _ fun _ same => same
      · rw [finder_file sys name nested path e s same dir]
        exact ends_pure _ _ _ fun _ same => same
    · rw [finder_found sys name nested path e s same]
      exact ends_pure _ _ _ fun _ same => same
  goes := by
    rintro p nested path e s ⟨t', rfl, member⟩ passes below
    have other := passes (has_of_entry t' t' (same_shape_refl t') p e member)
    by_cases dir : e.2 = .dir
    · rw [finder_dir sys name nested path e s other dir]
      exact ends_bind _ _ _ _ _ (below dir) fun _ => ends_pure _ _ _ fun _ done => ⟨⟨(), rfl⟩, done.2⟩
    · rw [finder_file sys name nested path e s other dir]
      exact ends_pure _ _ _ fun _ here => ⟨⟨(), rfl⟩, here⟩
  balks := by
    intro p nested path e s dir stops kind below
    have found : ¬(dirent e).name ≠ name := fun other => stops fun _ => other
    rw [finder_found sys name nested path e s found]
    exact ends_pure _ _ _ fun fs here => ⟨trivial, at_within t _ p fs dir here⟩
  follows := by
    intro p nested path e s dir isDir below
    by_cases same : (dirent e).name ≠ name
    · rw [finder_dir sys name nested path e s same isDir]
      exact ends_bind _ _ _ _ _ below fun _ => ends_pure _ _ _ fun _ done => ⟨fun _ => trivial, e.1, done.2⟩
    · rw [finder_found sys name nested path e s same]
      exact ends_pure _ _ _ fun fs here => ⟨trivial, at_within t _ p fs dir here⟩

theorem sizer_turn (sys : System) (junk : Place → Nat) (nested : Bytes → Cmd Int) (path : Bytes) (e : Name × Kind)
    (s : Nat × Option Nat) (pre : Fs → Prop) (post : Turn (Nat × Option Nat) → Fs → Prop) (middle : Fs → Prop)
    (dir : e.2 = .dir → Ends pre (nested e.1.val) fun _ => middle) (file : e.2 ≠ .dir → ∀ fs, pre fs → middle fs)
    (adds : ∀ s' fs, middle fs → post (.next s') fs) :
    Ends pre ((sizer sys junk).visit nested path (dirent e) s) post := by
  have sizes : ∀ below : Int, Ends middle (do
      let fs ← get
      let size := ((fs.stat path).map fun st => st.data.length).or s.2
      return Turn.next ((s.1 + below.toNat + size.getD (junk fs.cwd)) % sizeMod, size)) post :=
    fun below => triple_get _ _ _ _ fun _ _ => ends_pure _ _ _ fun _ held => adds _ _ held
  by_cases kind : e.2 = .dir
  · have enters := ends_bind _ _ _ _ _ (dir kind) sizes
    change Ends pre (if e.2 = .dir then _ else _) post
    rw [if_pos kind]
    exact enters
  · have skips := ends_bind _ _ _ _ _ (ends_pure pre (0 : Int) (fun _ => middle) (file kind)) sizes
    change Ends pre (if e.2 = .dir then _ else _) post
    rw [if_neg kind]
    exact skips

theorem sizer_follows (sys : System) (t : Tree Name Stat) (junk : Place → Nat) : Follows sys (sizer sys junk) t (sizerWays t) where
  dirs := by
    rintro t' rfl p
    rfl
  seen := fun _ _ _ _ _ stops => absurd trivial stops
  opens := fun _ _ _ _ _ => .inr trivial
  enter := by
    intro p path dir permitted
    refine chdir_enters sys (fun t' => t' = t) path p ?_ permitted
    rintro t' rfl
    exact dir
  leave := rfl
  code := fun _ => trivial
  roams := fun p nested path e s below =>
    sizer_turn sys junk nested path e s _ _ _ (fun _ => below) (fun _ _ same => same) fun _ _ same => same
  goes := fun p nested path e s _ _ below =>
    sizer_turn sys junk nested path e s _ _ (At (sizerWays t) p)
      (fun dir => triple_weaken _ _ _ _ _ _ (below dir) (fun _ here => here) fun _ _ done => done.2)
      (fun _ _ here => here) fun s' _ here => ⟨⟨s', rfl⟩, here⟩
  balks := fun _ _ _ _ _ _ stops => absurd trivial stops
  follows := fun p nested path e s dir isDir below =>
    sizer_turn sys junk nested path e s _ _ (fun _ => False)
      (fun _ => triple_weaken _ _ _ _ _ _ below (fun _ here => here) fun _ _ done => done.1)
      (fun file => absurd isDir file) fun _ _ impossible => impossible.elim

theorem new_dst_keeps (src dst : Bytes) (holds : Fs → Prop) : Ends holds (newDst src dst) fun _ => holds := by
  rw [newDst]
  cases dst.getLast? with
  | none => exact triple_throw _ _ _ _ fun _ _ => by decide
  | some last =>
      by_cases short : (if last ≠ 47 then dst ++ 47 :: src else dst ++ src).length < dstSz
      · simp only [if_pos short]
        exact ends_pure _ _ _ fun _ same => same
      · simp only [if_neg short]
        exact triple_throw _ _ _ _ fun _ _ => by decide

section
variable (sys : System) (holds : Fs → Prop)
  (stable : ∀ fs tree, (∀ p, tree.IsDir p ↔ fs.tree.IsDir p) → holds fs → holds { fs with tree := tree })
include stable

theorem file_to_file_keeps (src dst : Bytes) : Ends holds (fileToFile sys src dst) fun _ => holds := by
  refine triple_get _ _ _ _ fun fs held => ?_
  have stops : Ends holds (throw .exit : Cmd Unit) fun _ => holds := triple_throw _ _ _ _ fun _ _ => by decide
  cases fs.locate src with
  | none => exact stops
  | some p =>
      dsimp only
      split
      · cases fs.target dst with
        | none => exact stops
        | some target =>
            obtain ⟨n, q⟩ := target
            dsimp only
            split
            · rename_i able
              intro start here
              refine ⟨?_, ?_⟩
              · intro a g done
                cases done
                exact stable fs _ (fun r => write_dirs fs.tree n q r _ able.1.1 able.1.2) held
              · intro e g halted
                cases halted
            · exact stops
      · exact stops

theorem file_to_dir_keeps (src dst : Bytes) : Ends holds (fileToDir sys src dst) fun _ => holds :=
  ends_bind _ _ _ (fun _ => holds) _ (new_dst_keeps src dst holds) fun _ => file_to_file_keeps sys holds stable src _

end

section
variable (sys : System) (dst : Bytes) (nested : Bytes → Cmd Int) (path : Bytes) (e : Name × Kind) (s : Unit)

theorem copier_dir (dir : e.2 = .dir) :
    (copier sys dst).visit nested path (dirent e) s =
      (nested e.1.val >>= fun code => pure (if code < 0 then .stop (-1) else .next ())) := by
  obtain ⟨n, kind⟩ := e
  have same : kind = .dir := dir
  subst same
  rfl

theorem copier_turn (pre : Fs → Prop) (post : Turn Unit → Fs → Prop) (middle : Int → Fs → Prop)
    (dir : e.2 = .dir → Ends pre (nested e.1.val) middle)
    (answers : ∀ code fs, middle code fs → post (if code < 0 then .stop (-1) else .next ()) fs)
    (stable : ∀ fs tree, (∀ p, tree.IsDir p ↔ fs.tree.IsDir p) → pre fs → pre { fs with tree := tree })
    (file : e.2 ≠ .dir → ∀ fs, pre fs → post (.next ()) fs) :
    Ends pre ((copier sys dst).visit nested path (dirent e) s) post := by
  by_cases kind : e.2 = .dir
  · rw [copier_dir sys dst nested path e s kind]
    exact ends_bind _ _ _ _ _ (dir kind) fun code => ends_pure _ _ _ (answers code)
  · obtain ⟨n, sort⟩ := e
    cases sort with
    | dir => exact absurd rfl kind
    | reg => exact ends_bind _ _ _ (fun _ => pre) _ (file_to_dir_keeps sys pre stable n.val dst) fun _ => ends_pure _ _ _ (file kind)
    | other => exact ends_pure _ _ _ (file kind)

end

theorem copier_follows (sys : System) (t : Tree Name Stat) (dst : Bytes) :
    Follows sys (copier sys dst) t (copierWays sys t) where
  dirs := fun _ same => same
  seen := by
    intro t' p path n same stops
    by_contra gone
    exact stops fun dir => absurd (dir_has t' _ ((same _).mpr dir)) gone
  opens := fun _ _ _ passes dir => .inl (passes dir)
  enter := by
    intro p path dir permitted
    refine ends_bind _ _ _ _ _ (new_dst_keeps path dst _) fun _ => ?_
    exact chdir_enters sys (copierWays sys t).frame path p (fun t' same => (same p).mpr dir) permitted
  leave := rfl
  code := fun _ => rfl
  roams := by
    intro p nested path e s below
    refine copier_turn sys dst nested path e s _ _ _ (fun _ => below) (fun _ _ same => same) ?_ fun _ _ same => same
    rintro fs tree same ⟨frame, under, dir⟩
    exact ⟨fun q => (same q).trans (frame q), under, dir⟩
  goes := by
    rintro p nested path e s - passes below
    refine copier_turn sys dst nested path e s _ _ _ below ?_ ?_ fun _ _ here => ⟨⟨(), rfl⟩, here⟩
    · rintro code fs ⟨fine, here⟩
      have zero : code = 0 := fine
      rw [zero]
      exact ⟨⟨(), rfl⟩, here⟩
    · rintro fs tree same ⟨frame, here⟩
      exact ⟨fun q => (same q).trans (frame q), here⟩
  balks := by
    intro p nested path e s dir stops kind below
    have locked : t.IsDir (e.1 :: p) ∧ ¬sys.opendir (e.1 :: p) = true := Classical.not_imp.mp stops
    have minus : (copierWays sys t).dirty (-1) := show (-1 : Int) < 0 by decide
    refine copier_turn sys dst nested path e s _ _ _ below ?_ ?_ fun file => absurd (kind.mpr locked.1) file
    · rintro code fs ⟨failed, here⟩
      rw [if_neg locked.2] at failed
      rw [failed]
      exact ⟨minus, at_within t _ p fs dir here⟩
    · rintro fs tree same ⟨frame, here⟩
      exact ⟨fun q => (same q).trans (frame q), here⟩
  follows := by
    intro p nested path e s dir isDir below
    refine copier_turn sys dst nested path e s _ _ _ (fun _ => below) ?_ ?_ fun file => absurd isDir file
    · rintro code fs ⟨negative, deep⟩
      have stops : code < 0 := negative
      rw [if_pos stops]
      exact ⟨show (-1 : Int) < 0 by decide, within_above t _ p e.1 fs deep⟩
    · rintro fs tree same ⟨frame, here⟩
      exact ⟨fun q => (same q).trans (frame q), here⟩

inductive Tool where
  | chgrp (gid : Nat)
  | chmod (mode : Nat)
  | chown (owner : Nat)
  | du (junk : Place → Nat)
  | find (name : Bytes)
  | cp (dst : Bytes)

def Tool.run (sys : System) : Tool → Nat → Bytes → Cmd Int
  | .chgrp gid => chgrpRec sys gid
  | .chmod mode => chmodRec sys mode
  | .chown owner => chownRec sys owner
  | .du junk => dirDu sys junk
  | .find name => Busybox.find sys name
  | .cp dst => dirToDir sys dst

def Tool.ways (sys : System) (t : Tree Name Stat) : Tool → Ways
  | .chgrp _ => changerWays sys t fun _ d => d
  | .chmod _ => changerWays sys t fun path _ => path
  | .chown _ => changerWays sys t fun path _ => path
  | .du _ => sizerWays t
  | .find name => finderWays t name
  | .cp _ => copierWays sys t

-- Either the directory does not open, or it is one of the working directory's own and its walk
-- meets no early return and no chdir that fails.
def Kept (sys : System) (tool : Tool) (fs : Fs) (path : Bytes) : Prop :=
  fs.opendir sys path = none ∨
    ∃ p, fs.locate path = some p ∧ p.tail = fs.cwd ∧ sys.chdir fs.cwd = true ∧
      Clean sys fs.tree (tool.ways sys fs.tree).passes p path

section
variable {σ : Type} (sys : System) (w : Walker σ) (fs : Fs) (ways : Ways) (follows : Follows sys w fs.tree ways)
  (start : ways.frame fs.tree) (path : Bytes) (fuel : Nat) (enough : fs.tree.depth < fuel)
include follows start enough

theorem walk_keeps_cwd (kept : fs.opendir sys path = none ∨ ∃ p, fs.locate path = some p ∧ p.tail = fs.cwd ∧
      sys.chdir fs.cwd = true ∧ Clean sys fs.tree ways.passes p path) :
    Ends (fun s => s = fs) (walk sys w fuel path) fun _ fs' => fs'.cwd = fs.cwd := by
  obtain ⟨fuel, rfl⟩ := Nat.exists_eq_add_of_lt (by omega : 0 < fuel)
  rw [Nat.zero_add] at enough ⊢
  have shut : fs.opendir sys path = none → Ends (fun s => s = fs) (walk sys w (fuel + 1) path) fun _ fs' => fs'.cwd = fs.cwd := by
    intro refused
    refine triple_returns _ _ _ _ ?_
    rintro _ rfl
    exact ⟨_, _, walk_refused sys w fuel path _ refused, rfl⟩
  rcases kept with refused | ⟨p, found, own, back, clean⟩
  · exact shut refused
  · by_cases opens : fs.tree.IsDir p ∧ sys.opendir p = true
    · refine triple_weaken _ _ _ _ _ _ (clean_ends sys w fs.tree ways follows p path clean (fuel + 1) (by omega) opens.1
        opens.2 (own ▸ back)) ?_ fun code fs' done => ?_
      · rintro _ rfl
        exact ⟨start, found⟩
      · exact done.2.2.trans own
    · exact shut ((opendir_none sys path fs p found).mpr opens)

theorem walk_loses_cwd (everywhere : ∀ p, sys.chdir p = true)
    (apart : ∀ p, fs.locate path = some p → p <:+ fs.cwd → Clean sys fs.tree ways.passes p path)
    (code : Int) (fs' : Fs) (done : (walk sys w fuel path).run fs = .ok code fs') (back : fs'.cwd = fs.cwd) :
    fs.opendir sys path = none ∨ ∃ p, fs.locate path = some p ∧ p.tail = fs.cwd ∧
      sys.chdir fs.cwd = true ∧ Clean sys fs.tree ways.passes p path := by
  refine or_iff_not_imp_left.mpr fun opened => ?_
  obtain ⟨p, found, dir, opens⟩ := opendir_opened sys path fs opened
  by_cases clean : Clean sys fs.tree ways.passes p path
  · have up := (clean_ends sys w fs.tree ways follows p path clean fuel (by omega) dir opens (everywhere _)
      fs ⟨start, found⟩).1 code fs' done
    exact ⟨p, found, up.2.2.symm.trans back, everywhere _, clean⟩
  · have stray := (stray_ends sys w fs.tree ways follows everywhere fuel p path clean (by omega) dir opens
      fs ⟨start, found⟩).1 code fs' done
    exact absurd (apart p found (back ▸ stray.2.2.1)) clean

end

theorem tool_follows (sys : System) (tool : Tool) (fs : Fs) (fuel : Nat) (path : Bytes) :
    ∃ (σ : Type) (w : Walker σ), tool.run sys fuel path = walk sys w fuel path ∧
      Follows sys w fs.tree (tool.ways sys fs.tree) ∧ (tool.ways sys fs.tree).frame fs.tree := by
  have same := same_shape_refl fs.tree
  cases tool with
  | chgrp gid => exact ⟨_, _, rfl, changer_follows sys fs.tree (fun _ d => d) _, same⟩
  | chmod mode => exact ⟨_, _, rfl, changer_follows sys fs.tree (fun path _ => path) _, same⟩
  | chown owner => exact ⟨_, _, rfl, changer_follows sys fs.tree (fun path _ => path) _, same⟩
  | du junk => exact ⟨_, _, rfl, sizer_follows sys fs.tree junk, rfl⟩
  | find name => exact ⟨_, _, rfl, finder_follows sys fs.tree name, rfl⟩
  | cp dst => exact ⟨_, _, rfl, copier_follows sys fs.tree dst, fun _ => Iff.rfl⟩

-- A tool ends in the working directory that it started in where `Kept` holds. Where every chdir
-- is permitted it does so nowhere else, but for an early return from a directory that the
-- working directory is in.
theorem tool_cwd_iff (sys : System) (tool : Tool) (fs : Fs) (path : Bytes) (fuel : Nat) (enough : fs.tree.depth < fuel) :
    (Kept sys tool fs path → Ends (fun s => s = fs) (tool.run sys fuel path) fun _ fs' => fs'.cwd = fs.cwd) ∧
    ((∀ p, sys.chdir p = true) →
      (∀ p, fs.locate path = some p → p <:+ fs.cwd → Clean sys fs.tree (tool.ways sys fs.tree).passes p path) →
      ∀ code fs', (tool.run sys fuel path).run fs = .ok code fs' → fs'.cwd = fs.cwd → Kept sys tool fs path) := by
  obtain ⟨σ, w, runs, follows, start⟩ := tool_follows sys tool fs fuel path
  rw [runs]
  exact ⟨walk_keeps_cwd sys w fs _ follows start path fuel enough,
    walk_loses_cwd sys w fs _ follows start path fuel enough⟩

theorem tool_cwd_twins : Ends (fun s => s = ⟨twins, []⟩) (Tool.run allowed (.du fun _ => 0) 3 [97]) fun _ fs' => fs'.cwd = [] := by
  refine (tool_cwd_iff allowed (.du fun _ => 0) ⟨twins, []⟩ [97] 3 (by decide)).1 (.inr ⟨[nameA], by decide, rfl, rfl, ?_⟩)
  exact .intro _ _ rfl (fun _ => trivial) fun n dir => absurd dir (twins_flat n)

-- "du ." in the directory "a" ends in the root.
theorem du_leaves_cwd : ¬∀ (sys : System) (tool : Tool) (fs : Fs) (path : Bytes) (p : Place) (fuel : Nat) (code : Int) (fs' : Fs),
    fs.locate path = some p → fs.tree.IsDir p → (tool.run sys fuel path).run fs = .ok code fs' → fs'.cwd = fs.cwd := by
  intro keeps
  have moved := keeps allowed (.du fun _ => 0) ⟨twins, [nameA]⟩ [46] [nameA] 3 0 ⟨twins, []⟩ (by decide) (by decide) rfl
  cases moved

end Yaup.Busybox
