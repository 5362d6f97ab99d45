import Yaup.ChownLoop
import Yaup.Lib.TreeEdits
import Yaup.MvMain
import Yaup.RmMain

set_option autoImplicit false

namespace Yaup.Busybox

open Lib

structure KeepsRights (a b : Stat) : Prop where
  mode : Cleared a.mode b.mode
  owner : b.owner = a.owner
  group : b.group = a.group

theorem keeps_rights_refl (a : Stat) : KeepsRights a a := ⟨cleared_refl _, rfl, rfl⟩

theorem keeps_rights_trans (a b c : Stat) (first : KeepsRights a b) (second : KeepsRights b c) : KeepsRights a c :=
  ⟨cleared_trans _ _ _ first.mode second.mode, second.owner.trans first.owner, second.group.trans first.group⟩

-- The bytes of files are followed, and where all is `plain` the modes and owners too; `fresh`
-- are the attributes that a new file may have, and `given` what may come out of a device.
def statRules (fresh : Stat → Prop) (given : Bytes → Prop) (plain : Prop) : EditRules Stat Bytes where
  data := Stat.data
  outside := fun data => data = [] ∨ given data
  alike := fun a b => plain → KeepsRights a b
  born := fun a => plain → ∃ b, fresh b ∧ KeepsRights b a
  refl := fun a _ => keeps_rights_refl a
  trans := fun a b c first second all => keeps_rights_trans a b c (first all) (second all)
  grows := by
    intro a b born alike all
    obtain ⟨x, there, from_⟩ := born all
    exact ⟨x, there, keeps_rights_trans x a b from_ (alike all)⟩

def Edited (rules : EditRules Stat Bytes) (fs t : Fs) : Prop := Relation.ReflTransGen (Edit rules) fs.tree t.tree

theorem keeps_guard {α β : Type} (holds : Fs → Prop) (c : Prop) [Decidable c] (e : Halt) (f : α → Cmd β) (rest : Cmd β)
    (kept : Keeps holds rest) : Keeps holds (if c then throw e >>= f else rest) := by
  split
  · exact keeps_halt _ _ _
  · exact kept

theorem walk_keeps {σ : Type} (sys : System) (w : Walker σ) (holds : Fs → Prop)
    (enter : ∀ path, Keeps holds (w.enter path))
    (visit : ∀ nested : Bytes → Cmd Int, (∀ path, Keeps holds (nested path)) → ∀ path d s, Keeps holds (w.visit nested path d s))
    (leave : Keeps holds w.leave) (fuel : Nat) (path : Bytes) : Keeps holds (walk sys w fuel path) := by
  induction fuel generalizing path with
  | zero => exact keeps_throw _ _
  | succ fuel ih =>
      have entries : ∀ ds s, Keeps holds (walkEntries (w.visit (walk sys w fuel) path) ds s) := by
        intro ds
        induction ds with
        | nil => exact fun s => keeps_pure _ _
        | cons d rest later =>
            intro s
            rw [walkEntries]
            split
            · exact later s
            · refine keeps_bind _ _ _ (visit _ ih path d s) fun turn => ?_
              cases turn with
              | stop code => exact keeps_pure _ _
              | next s => exact later s
      rw [walk]
      refine keeps_get _ _ fun fs _ => ?_
      cases fs.opendir sys path with
      | none => exact keeps_pure _ _
      | some ds =>
          refine keeps_bind _ _ _ (enter path) fun _ => keeps_bind _ _ _ (entries ds w.start) fun turn => ?_
          cases turn with
          | stop code => exact keeps_pure _ _
          | next s => exact keeps_bind _ _ _ leave fun _ => keeps_pure _ _

theorem changer_visit_keeps (holds : Fs → Prop) (sys : System) (change : Bytes → Dirent → Cmd Int)
    (nested : Bytes → Cmd Int) (path : Bytes) (d : Dirent) (s : Unit) (below : ∀ path, Keeps holds (nested path))
    (goes : Keeps holds (change path d)) : Keeps holds ((changer sys change).visit nested path d s) := by
  refine changer_turn _ sys change nested path d s _ (fun _ => holds) (fun _ => holds) ?_ goes fun _ same => same
  rw [descend]
  split
  · exact keeps_bind _ _ _ (below d.name) fun _ => keeps_pure _ _
  · exact keeps_pure _ _

section
variable (sys : System) (rules : EditRules Stat Bytes) (fs : Fs)

theorem chdir_edits (path : Bytes) : Keeps (Edited rules fs) (chdir sys path) := by
  refine keeps_modify _ _ fun s edited => ?_
  rw [Fs.chdir]
  cases s.locate path with
  | none => exact edited
  | some p =>
      dsimp only
      split
      · exact edited
      · exact edited

theorem change_attr_edits (path : Bytes) (f : Kind → Stat → Stat) (data : ∀ kind a, rules.data (f kind a) = rules.data a)
    (alike : ∀ kind a, rules.alike a (f kind a)) : Keeps (Edited rules fs) (changeAttr sys path f) := by
  refine keeps_get _ _ fun s edited => ?_
  cases s.locate path with
  | none => exact keeps_pure _ _
  | some p =>
      dsimp only
      split
      · exact keeps_bind _ _ _ (keeps_set _ _ (edited.tail (.change s.tree p f data alike))) fun _ => keeps_pure _ _
      · exact keeps_pure _ _

theorem remove_edits (path : Bytes) : Keeps (Edited rules fs) (remove sys path) := by
  refine keeps_get _ _ fun s edited => ?_
  cases s.locate path with
  | none => exact keeps_pure _ _
  | some p =>
      dsimp only
      split
      · rename_i leaf
        exact keeps_bind _ _ _ (keeps_set _ _ (edited.tail (.erase s.tree p leaf.1))) fun _ => keeps_pure _ _
      · exact keeps_pure _ _

theorem rename_edits (old new : Bytes) : Keeps (Edited rules fs) (rename sys old new) := by
  refine keeps_get _ _ fun s edited => ?_
  cases s.target (trimmed old) with
  | none => exact keeps_pure _ _
  | some source =>
      cases s.target (trimmed new) with
      | none => exact keeps_pure _ _
      | some dest =>
          dsimp only
          split
          · exact keeps_pure _ _
          · split
            · exact keeps_pure _ _
            · split
              · rename_i able
                exact keeps_bind _ _ _ (keeps_set _ _ (edited.tail (.move s.tree _ _ _ able.1))) fun _ => keeps_pure _ _
              · exact keeps_pure _ _

theorem new_dst_edits (src dst : Bytes) : Keeps (Edited rules fs) (newDst src dst) := by
  rw [newDst]
  cases dst.getLast? with
  | none => exact keeps_throw _ _
  | some last =>
      by_cases short : (if last ≠ 47 then dst ++ 47 :: src else dst ++ src).length < dstSz
      · simp only [if_pos short]
        exact keeps_pure _ _
      · simp only [if_neg short]
        exact keeps_throw _ _

theorem new_path_edits (p1 p2 : Bytes) : Keeps (Edited rules fs) (newPath p1 p2) := by
  rw [newPath]
  split
  · exact keeps_pure _ _
  · exact keeps_throw _ _

theorem failed_edits (code : Int) : Keeps (Edited rules fs) (if code < 0 then throw .exit else pure () : Cmd Unit) :=
  failed_code _ code

theorem changer_edits (change : Bytes → Dirent → Cmd Int) (goes : ∀ path d, Keeps (Edited rules fs) (change path d))
    (fuel : Nat) (path : Bytes) : Keeps (Edited rules fs) (walk sys (changer sys change) fuel path) := by
  refine walk_keeps sys _ _ (chdir_edits sys rules fs) (fun nested below path d s => ?_) (chdir_edits sys rules fs _) fuel path
  exact changer_visit_keeps _ sys change nested path d s below (goes path d)

theorem rm_dir_edits (fuel : Nat) (path : Bytes) : Keeps (Edited rules fs) (rmDir sys fuel path) := by
  refine walk_keeps sys _ _ (fun _ => keeps_pure _ _) (fun nested below path d s => ?_) (keeps_pure _ _) fuel path
  exact changer_visit_keeps _ sys (fun _ d => remove sys d.name) nested path d s below (remove_edits sys rules fs d.name)

end

section
variable (sys : System) (fresh : Stat → Prop) (given : Bytes → Prop) (plain : Prop) (fs : Fs)

theorem copied_from (gives : ∀ p, given (sys.stream p)) (t : Fs) (src dst : Place) :
    FromTree (statRules fresh given plain) t.tree (copied sys t src dst) := by
  rw [copied]
  split
  · exact .inl (.inl rfl)
  · rw [Fs.contents]
    split
    · rename_i attr there
      exact .inr ⟨src, _, there, rfl⟩
    · exact .inl (.inr (gives src))
    · exact .inl (.inl rfl)

theorem refill_from (t : Tree Name Stat) (p : Place) (kind : Option Kind) (data : Bytes)
    (from_ : FromTree (statRules fresh given plain) t data) :
    FromTree (statRules fresh given plain) t (refill sys p kind data ((t.node p).map Node.attr)).data := by
  cases there : t.node p with
  | none => exact from_
  | some entry =>
      rw [Option.map_some, refill]
      split
      · exact .inr ⟨p, entry, there, rfl⟩
      · exact from_

theorem refill_keeps (p : Place) (kind : Option Kind) (data : Bytes) (old : Stat) :
    KeepsRights old (refill sys p kind data (some old)) := by
  rw [refill]
  split
  · exact keeps_rights_refl old
  · exact ⟨(sys.written data).cleared .reg old.mode, rfl, rfl⟩

variable (new : ∀ p, fresh (sys.fresh p)) (gives : ∀ p, given (sys.stream p))
include new gives

theorem file_to_file_edits (src dst : Bytes) :
    Keeps (Edited (statRules fresh given plain) fs) (fileToFile sys src dst) := by
  refine keeps_get _ _ fun s edited => ?_
  cases s.locate src with
  | none => exact keeps_throw _ _
  | some p =>
      dsimp only
      split
      · cases s.target dst with
        | none => exact keeps_throw _ _
        | some target =>
            obtain ⟨n, q⟩ := target
            dsimp only
            split
            · rename_i able
              refine keeps_set _ _ (edited.tail (.write s.tree n q _ able.1.1 able.1.2 ?_ (fun a _ => ?_) fun _ => ?_))
              · exact refill_from sys fresh given plain s.tree _ _ _ (copied_from sys fresh given plain gives s p (n :: q))
              · exact refill_keeps sys _ _ _ a
              · exact ⟨sys.fresh (n :: q), new _, ⟨cleared_refl _, rfl, rfl⟩⟩
            · exact keeps_throw _ _
      · exact keeps_throw _ _

theorem dir_to_dir_edits (dst : Bytes) (fuel : Nat) (path : Bytes) :
    Keeps (Edited (statRules fresh given plain) fs) (dirToDir sys dst fuel path) := by
  refine walk_keeps sys _ _ (fun src => ?_) (fun nested below path d s => ?_) (chdir_edits sys _ fs _) fuel path
  · exact keeps_bind _ _ _ (new_dst_edits _ fs src dst) fun _ => chdir_edits sys _ fs src
  · obtain ⟨name, kind⟩ := d
    cases kind with
    | reg =>
        change Keeps _ (fileToDir sys name dst >>= fun _ => pure (Turn.next ()))
        refine keeps_bind _ _ _ ?_ fun _ => keeps_pure _ _
        exact keeps_bind _ _ _ (new_dst_edits _ fs name dst) fun _ => file_to_file_edits sys fresh given plain fs new gives name _
    | dir => exact keeps_bind _ _ _ (below name) fun _ => keeps_pure _ _
    | other => exact keeps_pure _ _

theorem copy_operands_edits (fuel : Nat) (rflag : Bool) (last : Bytes) (rest : List Bytes) (st : Kind) :
    Keeps (Edited (statRules fresh given plain) fs) (copyOperands sys fuel rflag last rest st) := by
  induction rest generalizing st with
  | nil => exact keeps_pure _ _
  | cons src rest ih =>
      refine keeps_get _ _ fun s _ => ?_
      cases s.statKind src st with
      | reg =>
          refine keeps_bind _ _ _ ?_ fun _ => ih _
          exact keeps_bind _ _ _ (new_dst_edits _ fs src last) fun _ => file_to_file_edits sys fresh given plain fs new gives src _
      | dir =>
          dsimp only
          split
          · exact keeps_bind _ _ _ (dir_to_dir_edits sys fresh given plain fs new gives last fuel src) fun _ => ih _
          · exact keeps_halt _ _ _
      | other => exact keeps_bind _ _ _ (keeps_pure _ _) fun _ => ih _

theorem cp_main_edits (junk : Kind) (fuel : Nat) (argv : List Bytes) :
    Keeps (Edited (statRules fresh given plain) fs) (cpMain sys junk fuel argv) := by
  rw [cpMain]
  refine keeps_guard _ _ _ _ _ (keeps_guard _ _ _ _ _ ?_)
  split
  · exact keeps_bind _ _ _ (file_to_file_edits sys fresh given plain fs new gives _ _) fun _ => keeps_pure _ _
  · refine keeps_get _ _ fun s _ => keeps_guard _ _ _ _ _ ?_
    exact keeps_bind _ _ _ (copy_operands_edits sys fresh given plain fs new gives fuel _ _ _ _) fun _ => keeps_pure _ _

end

section
variable (sys : System) (rules : EditRules Stat Bytes) (fs : Fs)

theorem rm_main_edits (junk : Kind) (fuel : Nat) (argv : List Bytes) : Keeps (Edited rules fs) (rmMain sys junk fuel argv) := by
  have loop : ∀ rflag rest st, Keeps (Edited rules fs) (rmLoop sys fuel rflag rest st) := by
    intro rflag rest
    induction rest with
    | nil => exact fun st => keeps_pure _ _
    | cons path rest ih =>
        intro st
        refine keeps_get _ _ fun s _ => keeps_bind _ _ _ ?_ fun _ => ih _
        cases s.statKind path st with
        | reg => exact keeps_bind _ _ _ (remove_edits sys rules fs path) fun code => failed_edits rules fs code
        | dir =>
            rw [rmOperand]
            split
            · exact keeps_bind _ _ _ (rm_dir_edits sys rules fs fuel path) fun code => failed_edits rules fs code
            · exact keeps_throw _ _
        | other => exact keeps_pure _ _
  rw [rmMain]
  exact keeps_guard _ _ _ _ _ (keeps_guard _ _ _ _ _ (loop _ _ _))

theorem mv_main_edits (junk : Kind) (argv : List Bytes) : Keeps (Edited rules fs) (mvMain sys junk argv) := by
  have loop : ∀ last rest, Keeps (Edited rules fs) (mvLoop sys last rest) := by
    intro last rest
    induction rest with
    | nil => exact keeps_pure _ _
    | cons path rest ih =>
        refine keeps_get _ _ fun s _ => keeps_bind _ _ _ ?_ fun _ => ih
        cases (s.locate path).bind s.tree.kindAt with
        | none => exact keeps_throw _ _
        | some kind =>
            cases kind with
            | dir => exact keeps_throw _ _
            | reg =>
                refine keeps_bind _ _ _ (new_path_edits rules fs last path) fun new => ?_
                exact keeps_bind _ _ _ (rename_edits sys rules fs path new) fun code => failed_edits rules fs code
            | other => exact keeps_pure _ _
  rw [mvMain]
  refine keeps_guard _ _ _ _ _ (keeps_guard _ _ _ _ _ ?_)
  split
  · exact keeps_bind _ _ _ (rename_edits sys rules fs _ _) fun code => failed_edits rules fs code
  · exact keeps_get _ _ fun s _ => keeps_guard _ _ _ _ _ (loop _ _)

theorem stat_into_edits (path : Bytes) (st : Node Stat) : Keeps (Edited rules fs) (statInto path st) :=
  keeps_get _ _ fun _ _ => keeps_pure _ _

theorem operand_loop_edits (same : Node Stat → Bool) (change : Bytes → Node Stat → Cmd Int)
    (goes : ∀ path st, Keeps (Edited rules fs) (change path st)) (rest : List Arg) (st : Node Stat) :
    Keeps (Edited rules fs) (operandLoop same change rest st) := by
  induction rest generalizing st with
  | nil => exact keeps_pure _ _
  | cons operand rest ih =>
      refine keeps_bind _ _ _ (stat_into_edits rules fs operand.text st) fun now => ?_
      split
      · exact ih now
      · refine keeps_bind _ _ _ (goes operand.text now) fun code => ?_
        split
        · exact keeps_throw _ _
        · exact ih now

end

section
variable (sys : System) (fresh : Stat → Prop) (given : Bytes → Prop) (plain : Prop) (may : ¬plain) (fs : Fs)
include may

theorem chmod_edits (path : Bytes) (mode : Nat) : Keeps (Edited (statRules fresh given plain) fs) (chmod sys path mode) :=
  change_attr_edits sys _ fs path _ (fun _ _ => rfl) fun _ _ all => absurd all may

theorem chown_edits (path : Bytes) (owner group : Option Nat) :
    Keeps (Edited (statRules fresh given plain) fs) (chown sys path owner group) :=
  change_attr_edits sys _ fs path _ (fun _ _ => rfl) fun _ _ all => absurd all may

theorem chmod_main_edits (fuel : Nat) (junk : Node Stat) (argv : List Arg) :
    Keeps (Edited (statRules fresh given plain) fs) (chmodMain sys fuel junk argv) := by
  rw [chmodMain]
  split
  · refine operand_loop_edits _ fs _ _ (fun path st => ?_) _ _
    split
    · exact changer_edits sys _ fs _ (fun path _ => chmod_edits sys fresh given plain may fs path _) fuel path
    · exact chmod_edits sys fresh given plain may fs path _
  · exact keeps_throw _ _
  · exact keeps_throw _ _

theorem chgrp_main_edits (fuel : Nat) (junk : Node Stat) (gidJunk : GidJunk) (groups : Bytes) (argv : List Arg) :
    Keeps (Edited (statRules fresh given plain) fs) (chgrpMain sys fuel junk gidJunk groups argv) := by
  rw [chgrpMain]
  split
  · refine operand_loop_edits _ fs _ _ (fun path st => ?_) _ _
    split
    · exact changer_edits sys _ fs _ (fun _ d => chown_edits sys fresh given plain may fs d.name _ _) fuel path
    · exact chown_edits sys fresh given plain may fs path _ _
  · exact keeps_throw _ _
  · exact keeps_throw _ _

theorem chown_main_edits (fuel turns : Nat) (junk : Node Stat) (argv : List Arg) :
    Keeps (Edited (statRules fresh given plain) fs) (chownMain sys fuel turns junk argv) := by
  have loop : ∀ uid rflag turns i rest st,
      Keeps (Edited (statRules fresh given plain) fs) (chownLoop sys fuel uid rflag turns i rest st) := by
    intro uid rflag turns
    induction turns with
    | zero =>
        intro i rest st
        cases rest with
        | nil => exact keeps_pure _ _
        | cons operand rest => exact keeps_throw _ _
    | succ turns ih =>
        intro i rest st
        cases rest with
        | nil => exact keeps_pure _ _
        | cons operand rest =>
            refine keeps_bind _ _ _ (stat_into_edits _ fs operand.text st) fun now => ?_
            split
            · exact keeps_bind _ _ _ (ih _ _ _) fun _ => keeps_pure _ _
            · refine keeps_bind _ _ _ ?_ fun code => ?_
              · rw [chownCall]
                split
                · exact changer_edits sys _ fs _ (fun path _ => chown_edits sys fresh given plain may fs path _ _) fuel _
                · exact chown_edits sys fresh given plain may fs _ _ _
              · split
                · exact keeps_throw _ _
                · exact keeps_bind _ _ _ (ih _ _ _) fun _ => keeps_pure _ _
  rw [chownMain]
  split
  · exact loop _ _ _ _ _ _
  · exact keeps_throw _ _
  · exact keeps_throw _ _

end

end Yaup.Busybox
