import Mathlib.Data.List.DropRight
import Yaup.CpPaths
import Yaup.Lib.TreeMove

set_option autoImplicit false

namespace Yaup.Busybox

open Lib

def trimmed (path : Bytes) : Bytes := path.rdropWhile fun byte => byte = 47

def slashed (path : Bytes) : Bool := path.getLast? = some 47

-- A path with a slash at its end names a directory only. Where the working directory is below
-- what is renamed, it goes along.
def rename (sys : System) (old new : Bytes) : Cmd Int := do
  let fs ← get
  match fs.target (trimmed old), fs.target (trimmed new) with
  | some (m, q), some (n, p) =>
      let s := m :: q
      if ¬fs.tree.Has s ∨ (slashed old ∨ slashed new) ∧ ¬fs.tree.IsDir s then return -1
      if s = n :: p then return 0
      if able : fs.tree.Movable s n p ∧ sys.remove s = true ∧ sys.write (n :: p) = true then
        set { fs with tree := fs.tree.move s n p able.1, cwd := movedFrom (n :: p) s fs.cwd }
        return 0
      else return -1
  | _, _ => return -1

def mvSz : Nat := 512

def newPath (p1 p2 : Bytes) : Cmd Bytes := do
  let path := p1 ++ 47 :: p2
  if path.length < mvSz then return path else throw .fault

def mvOperand (sys : System) (last path : Bytes) : Option Kind → Cmd Unit
  | none => throw .exit
  | some .reg => do
      let new ← newPath last path
      let code ← rename sys path new
      if code < 0 then throw .exit
  | some .dir => throw .exit
  | some .other => return ()

def mvLoop (sys : System) (last : Bytes) : List Bytes → Cmd Unit
  | [] => return ()
  | path :: rest => do
      let fs ← get
      mvOperand sys last path ((fs.locate path).bind fs.tree.kindAt)
      mvLoop sys last rest

-- With two operands, or with -r and one, argv[1] is renamed to argv[2].
def mvMain (sys : System) (junk : Kind) (argv : List Bytes) : Cmd Unit := do
  if argv.length < 3 then throw .exit
  if dashed argv ∧ ¬recursive argv then throw .exit
  if argv.length = 3 then
    let code ← rename sys (argv.getD 1 []) (lastOf argv)
    if code < 0 then throw .exit
  else
    let fs ← get
    if fs.statKind (lastOf argv) junk ≠ .dir then throw .exit
    mvLoop sys (lastOf argv) (operands argv)

structure Shuffled (fs t : Fs) (origin : Place → Place) : Prop where
  node : ∀ q, t.tree.Has q → t.tree.node q = fs.tree.node (origin q)
  apart : ∀ q q', t.tree.Has q → t.tree.Has q' → origin q = origin q' → q = q'

def MvLands (fs : Fs) (last path : Bytes) (d : Place) : Prop :=
  ∃ n p, fs.target (trimmed (last ++ 47 :: path)) = some (n, p) ∧ d = n :: p

structure MvFree (fs : Fs) (last : Bytes) (operands : List Bytes) : Prop where
  free : ∀ path ∈ operands, ∀ d, MvLands fs last path d → ¬fs.tree.Has d
  once : operands.Pairwise fun a b => ∀ d, MvLands fs last a d → ¬MvLands fs last b d

def MvFiles (fs : Fs) (operands : List Bytes) : Prop :=
  ∀ path ∈ operands, ∃ q, fs.locate path = some q ∧ fs.tree.kindAt q = some .reg

theorem shuffled_refl (fs : Fs) : Shuffled fs fs id := ⟨fun _ _ => rfl, fun _ _ _ _ same => same⟩

theorem shuffled_move (fs s : Fs) (origin : Place → Place) (shuffled : Shuffled fs s origin) (src : Place) (n : Name)
    (p cwd : Place) (able : s.tree.Movable src n p) :
    Shuffled fs ⟨s.tree.move src n p able, cwd⟩ (origin ∘ movedFrom src (n :: p)) := by
  have before := move_came s.tree src n p able
  refine ⟨fun q has => ?_, fun q q' has has' same => ?_⟩
  · rw [move_node s.tree src n p able q has]
    exact shuffled.node _ (before q has)
  · exact move_injective s.tree src n p able q q' has has' (shuffled.apart _ _ (before q has) (before q' has') same)

theorem rename_run (sys : System) (old new : Bytes) (fs : Fs) :
    (rename sys old new).run fs = .ok (-1) fs ∨
      ∃ m q n p, fs.target (trimmed old) = some (m, q) ∧ fs.target (trimmed new) = some (n, p) ∧
        fs.tree.Has (m :: q) ∧
        ((m :: q = n :: p ∧ (rename sys old new).run fs = .ok 0 fs) ∨
          ∃ able : fs.tree.Movable (m :: q) n p, (rename sys old new).run fs =
            .ok 0 ⟨fs.tree.move (m :: q) n p able, movedFrom (n :: p) (m :: q) fs.cwd⟩) := by
  rw [rename, run_get_bind]
  cases from_ : fs.target (trimmed old) with
  | none => exact .inl rfl
  | some source =>
      obtain ⟨m, q⟩ := source
      cases to_ : fs.target (trimmed new) with
      | none => exact .inl rfl
      | some dest =>
          obtain ⟨n, p⟩ := dest
          dsimp only
          by_cases wrong : ¬fs.tree.Has (m :: q) ∨
              (slashed old = true ∨ slashed new = true) ∧ ¬fs.tree.IsDir (m :: q)
          · rw [if_pos wrong]
            exact .inl rfl
          · rw [if_neg wrong]
            have has : fs.tree.Has (m :: q) := not_not.mp fun none => wrong (.inl none)
            by_cases same : m :: q = n :: p
            · rw [if_pos same]
              exact .inr ⟨m, q, n, p, rfl, rfl, has, .inl ⟨same, rfl⟩⟩
            · rw [if_neg same]
              by_cases able : fs.tree.Movable (m :: q) n p ∧ sys.remove (m :: q) = true ∧ sys.write (n :: p) = true
              · rw [dif_pos able]
                exact .inr ⟨m, q, n, p, rfl, rfl, has, .inr ⟨able.1, rfl⟩⟩
              · rw [dif_neg able]
                exact .inl rfl

theorem new_path_run (p1 p2 : Bytes) (fs : Fs) :
    (newPath p1 p2).run fs = .ok (p1 ++ 47 :: p2) fs ∨ (newPath p1 p2).run fs = .error .fault fs := by
  rw [newPath]
  split
  · exact .inl rfl
  · exact .inr rfl

theorem file_path (fs : Fs) (path : Bytes) (x : Place) (found : fs.locate path = some x)
    (reg : fs.tree.kindAt x = some .reg) : ∃ n, (parts path).getLast? = some (.name n) := by
  have file : ¬fs.tree.IsDir x := by
    intro dir
    cases reg.symm.trans dir
  rw [Fs.locate] at found
  split at found
  · cases found
  · cases last : (parts path).getLast? with
    | none =>
        rw [List.getLast?_eq_none_iff.mp last] at found
        have never : parts path ≠ [] := by
          rw [parts]
          simp [List.splitOn_ne_nil]
        exact absurd (List.getLast?_eq_none_iff.mp last) never
    | some part =>
        obtain ⟨front, whole⟩ := List.getLast?_eq_some_iff.mp last
        rw [whole, walk_append] at found
        obtain ⟨q, -, step⟩ := found
        rw [Tree.walkTo.eq_def] at step
        cases part with
        | name n => exact ⟨n, rfl⟩
        | here =>
            dsimp only at step
            split at step
            · rename_i dir
              rw [Tree.walkTo, if_pos (dir_has _ _ dir)] at step
              cases step
              exact absurd dir file
            · cases step
        | up =>
            dsimp only at step
            split at step
            · rename_i dir
              rw [Tree.walkTo, if_pos (dir_has _ _ (tail_dir _ _ dir))] at step
              cases step
              exact absurd (tail_dir _ _ dir) file
            · cases step

theorem named_trimmed (path : Bytes) (n : Name) (last : (parts path).getLast? = some (.name n)) : trimmed path = path := by
  rw [trimmed, List.rdropWhile_eq_self_iff]
  intro given slash
  have whole := List.dropLast_append_getLast given
  have byte : path.getLast given = 47 := by simpa using slash
  have here : (parts []).getLast? = some .here := by decide
  rw [← whole, byte, parts_slash, List.getLast?_append, here] at last
  cases last

theorem file_target (fs : Fs) (path : Bytes) (x : Place) (found : fs.locate path = some x)
    (reg : fs.tree.kindAt x = some .reg) : ∃ n q, fs.target (trimmed path) = some (n, q) ∧ x = n :: q := by
  obtain ⟨n, last⟩ := file_path fs path x found reg
  obtain ⟨q, target, same⟩ := locate_target fs path n x last found
  rw [named_trimmed path n last]
  exact ⟨n, q, target, same⟩

-- Where the loop stands after the operands `done`; `origin` says where an entry was at first.
structure MvState (fs : Fs) (last : Bytes) (ops done : List Bytes) (origin : Place → Place) (s : Fs) : Prop where
  cwd : s.cwd = fs.cwd
  dirs : ∀ q, s.tree.IsDir q ↔ fs.tree.IsDir q
  shuffled : Shuffled fs s origin
  moved : ∀ q, s.tree.Has q → origin q = q ∨ ∃ path ∈ done, MvLands fs last path q
  kept : MvFree fs last ops → ∀ q, fs.tree.Has q → ∃ q', s.tree.Has q' ∧ origin q' = q
  arrived : MvFree fs last ops → MvFiles fs ops → ∀ path ∈ done, ∃ q d, fs.locate path = some q ∧
    MvLands fs last path d ∧ s.tree.Has d ∧ origin d = q

theorem mv_state_start (fs : Fs) (last : Bytes) (ops : List Bytes) : MvState fs last ops [] id fs where
  cwd := rfl
  dirs := fun _ => Iff.rfl
  shuffled := shuffled_refl fs
  moved := fun _ _ => .inl rfl
  kept := fun _ q has => ⟨q, has, rfl⟩
  arrived := fun _ _ _ member => absurd member List.not_mem_nil

section
variable (fs : Fs) (last : Bytes) (ops done rest : List Bytes) (path : Bytes) (whole : ops = done ++ path :: rest)
include whole

theorem mv_done (other : Bytes) (member : other ∈ done) : other ∈ ops := by
  rw [whole]
  exact List.mem_append_left _ member

theorem mv_next : path ∈ ops := by
  rw [whole]
  exact List.mem_append_right _ List.mem_cons_self

theorem mv_once (free : MvFree fs last ops) (other : Bytes) (member : other ∈ done) (d : Place)
    (first : MvLands fs last other d) : ¬MvLands fs last path d := by
  have pairs := free.once
  rw [whole] at pairs
  exact (List.pairwise_append.mp pairs).2.2 other member path List.mem_cons_self d first

end

section
variable (fs s : Fs) (last : Bytes) (ops done rest : List Bytes) (path : Bytes) (origin : Place → Place)
  (state : MvState fs last ops done origin s)
include state

theorem mv_lands (new : Bytes) (n : Name) (p : Place) (dir : s.tree.IsDir p) (target : s.target new = some (n, p)) :
    fs.target new = some (n, p) :=
  target_transfer s fs state.cwd.symm (fun q => (state.dirs q).mp) new n p (dir_has _ _ ((state.dirs p).mp dir)) target

theorem mv_state_same (idle : MvFree fs last ops → MvFiles fs ops → False) :
    MvState fs last ops (done ++ [path]) origin s where
  cwd := state.cwd
  dirs := state.dirs
  shuffled := state.shuffled
  moved := by
    intro q has
    rcases state.moved q has with fixed | ⟨other, member, lands⟩
    · exact .inl fixed
    · exact .inr ⟨other, List.mem_append_left _ member, lands⟩
  kept := state.kept
  arrived := fun free files => (idle free files).elim

variable (whole : ops = done ++ path :: rest)
include whole

theorem mv_still (free : MvFree fs last ops) (files : MvFiles fs ops) (x : Place) (found : s.locate path = some x) :
    fs.locate path = some x ∧ fs.tree.Has x ∧ origin x = x := by
  obtain ⟨first, located, reg⟩ := files path (mv_next ops done rest path whole)
  obtain ⟨n, ends⟩ := file_path fs path first located reg
  obtain ⟨q, target, rfl⟩ := locate_target fs path n first ends located
  obtain ⟨q', target', rfl⟩ := locate_target s path n x ends found
  have has := located_has s path _ found
  have same := mv_lands fs s last ops done origin state path n q' (parent_dir _ _ _ has) target'
  cases target.symm.trans same
  have there := kind_has _ _ _ reg
  refine ⟨located, there, ?_⟩
  rcases state.moved _ has with fixed | ⟨other, member, lands⟩
  · exact fixed
  · exact absurd there (free.free other (mv_done ops done rest path whole other member) _ lands)

theorem mv_state_move (x : Place) (n : Name) (p cwd : Place) (found : s.locate path = some x)
    (reg : s.tree.kindAt x = some .reg) (target : s.target (trimmed (last ++ 47 :: path)) = some (n, p))
    (able : s.tree.Movable x n p) (stays : cwd = fs.cwd) :
    MvState fs last ops (done ++ [path]) (origin ∘ movedFrom x (n :: p)) ⟨s.tree.move x n p able, cwd⟩ := by
  have file : ¬s.tree.IsDir x := by
    intro dir
    cases reg.symm.trans dir
  have lands : MvLands fs last path (n :: p) :=
    ⟨n, p, mv_lands fs s last ops done origin state _ n p able.2.2.1 target, rfl⟩
  refine ⟨stays, fun q => (move_dirs s.tree x n p able file q).trans (state.dirs q),
    shuffled_move fs s origin state.shuffled x n p cwd able, fun q has => ?_, fun free q has => ?_,
    fun free files other member => ?_⟩
  · rcases move_file_from s.tree x n p able file q has with rfl | ⟨-, same⟩
    · exact .inr ⟨path, List.mem_append_right _ List.mem_cons_self, lands⟩
    · have before := move_came s.tree x n p able q has
      rw [same] at before
      rw [Function.comp_apply, same]
      rcases state.moved q before with fixed | ⟨other, member, there⟩
      · exact .inl fixed
      · exact .inr ⟨other, List.mem_append_left _ member, there⟩
  · obtain ⟨q', has', rfl⟩ := state.kept free q has
    rcases move_keeps s.tree x n p able q' has' with rfl | ⟨q'', has'', rfl⟩
    · rcases state.moved (n :: p) has' with fixed | ⟨other, member, there⟩
      · rw [fixed] at has
        exact absurd has (free.free path (mv_next ops done rest path whole) _ lands)
      · exact absurd lands (mv_once fs last ops done rest path whole free other member _ there)
    · exact ⟨q'', has'', rfl⟩
  · obtain ⟨located, there, fixed⟩ := mv_still fs s last ops done rest path origin state whole free files x found
    rcases List.mem_append.mp member with earlier | this
    · obtain ⟨q, d, first, lands', has', same⟩ := state.arrived free files other earlier
      have stays : d ≠ x := by
        rintro rfl
        exact free.free other (mv_done ops done rest path whole other earlier) d lands' there
      have apart : d ≠ n :: p := by
        rintro rfl
        exact mv_once fs last ops done rest path whole free other earlier _ lands' lands
      obtain ⟨kept, same'⟩ := move_file_keeps s.tree x n p able file d has' stays apart
      refine ⟨q, d, first, lands', kept, ?_⟩
      rw [Function.comp_apply, same']
      exact same
    · rw [List.mem_singleton.mp this]
      refine ⟨x, n :: p, located, lands, move_lands s.tree x n p able, ?_⟩
      rw [Function.comp_apply, moved_from_top]
      exact fixed

theorem mv_operand_file (sys : System) (home : fs.tree.IsDir fs.cwd) (x : Place) (found : s.locate path = some x)
    (reg : s.tree.kindAt x = some .reg) :
    (∃ e, (mvOperand sys last path (some .reg)).run s = .error e s) ∨
      ∃ t origin, (mvOperand sys last path (some .reg)).run s = .ok () t ∧ MvState fs last ops (done ++ [path]) origin t := by
  rw [mvOperand, EStateM.run_bind]
  rcases new_path_run last path s with made | full
  · rw [made]
    dsimp only
    rw [EStateM.run_bind]
    rcases rename_run sys path (last ++ 47 :: path) s with failed | ⟨m, q, n, p, source, target, has, ran⟩
    · rw [failed]
      exact .inl ⟨_, rfl⟩
    · obtain ⟨n', q', source', rfl⟩ := file_target s path x found reg
      cases source.symm.trans source'
      rcases ran with ⟨same, ran⟩ | ⟨able, ran⟩
      · rw [ran]
        refine .inr ⟨_, origin, rfl, mv_state_same fs s last ops _ path origin state fun free files => ?_⟩
        obtain ⟨-, there, -⟩ := mv_still fs s last ops _ rest path origin state whole free files _ found
        refine free.free path (mv_next ops _ rest path whole) (m :: q) ⟨n, p, ?_, same⟩ there
        rw [same] at has
        exact mv_lands fs s last ops _ origin state _ n p (parent_dir _ _ _ has) target
      · rw [ran]
        have outside : ¬m :: q <:+ s.cwd := by
          intro above
          have dir := above_dir s.tree s.cwd _ above ((state.dirs _).mpr (state.cwd ▸ home))
          cases reg.symm.trans dir
        have stays : movedFrom (n :: p) (m :: q) s.cwd = fs.cwd := (moved_from_other _ _ _ outside).trans state.cwd
        exact .inr ⟨_, _, rfl, mv_state_move fs s last ops _ rest path origin state whole _ n p _ found reg target able stays⟩
  · rw [full]
    exact .inl ⟨_, rfl⟩

theorem mv_operand_step (sys : System) (home : fs.tree.IsDir fs.cwd) :
    (∃ e, (mvOperand sys last path ((s.locate path).bind s.tree.kindAt)).run s = .error e s) ∨
      ∃ t origin, (mvOperand sys last path ((s.locate path).bind s.tree.kindAt)).run s = .ok () t ∧
        MvState fs last ops (done ++ [path]) origin t := by
  cases seen : (s.locate path).bind s.tree.kindAt with
  | none => exact .inl ⟨_, rfl⟩
  | some kind =>
      obtain ⟨x, found, here⟩ := Option.bind_eq_some_iff.mp seen
      cases kind with
      | dir => exact .inl ⟨_, rfl⟩
      | reg => exact mv_operand_file fs s last ops done rest path origin state whole sys home x found here
      | other =>
          refine .inr ⟨_, origin, rfl, mv_state_same fs s last ops _ path origin state fun free files => ?_⟩
          obtain ⟨located, there, fixed⟩ := mv_still fs s last ops done rest path origin state whole free files x found
          obtain ⟨first, again, reg⟩ := files path (mv_next ops done rest path whole)
          cases located.symm.trans again
          rw [Tree.kindAt, state.shuffled.node x (kind_has _ _ _ here), fixed] at here
          cases here.symm.trans reg

end

-- By induction on the operands still to come.
theorem mv_loop_run (sys : System) (fs : Fs) (last : Bytes) (ops done rest : List Bytes) (origin : Place → Place)
    (s t : Fs) (home : fs.tree.IsDir fs.cwd) (state : MvState fs last ops done origin s) (whole : ops = done ++ rest) :
    ((mvLoop sys last rest).run s = .ok () t → ∃ origin, MvState fs last ops ops origin t) ∧
      ∀ e, (mvLoop sys last rest).run s = .error e t → ∃ done origin, (∃ rest, ops = done ++ rest) ∧
        MvState fs last ops done origin t := by
  induction rest generalizing done origin s with
  | nil =>
      refine ⟨fun ended => ?_, fun e halted => ?_⟩
      · cases ended
        rw [List.append_nil] at whole
        exact ⟨origin, whole ▸ state⟩
      · cases halted
  | cons path rest ih =>
      have split : ops = (done ++ [path]) ++ rest := by rw [whole, List.append_assoc]; rfl
      rw [mvLoop, run_get_bind, EStateM.run_bind]
      rcases mv_operand_step fs s last ops done rest path origin state whole sys home with ⟨e, gives⟩ | ⟨u, moved, ran, state'⟩
      · rw [gives]
        refine ⟨fun ended => ?_, fun e halted => ?_⟩
        · cases ended
        · cases halted
          exact ⟨done, origin, ⟨path :: rest, whole⟩, state⟩
      · rw [ran]
        exact ih (done ++ [path]) moved u state' split

structure MvRight (fs t : Fs) (argv : List Bytes) (returned : Prop) (origin : Place → Place) : Prop where
  shuffled : Shuffled fs t origin
  renamed : argv.length = 3 → ∀ q, fs.tree.Has q → (∃ q', t.tree.Has q' ∧ origin q' = q) ∨
    ∃ n p, fs.target (trimmed (lastOf argv)) = some (n, p) ∧ q = n :: p
  dirs : argv.length ≠ 3 → ∀ q, t.tree.IsDir q ↔ fs.tree.IsDir q
  moved : argv.length ≠ 3 → ∀ q, t.tree.Has q →
    origin q = q ∨ ∃ path ∈ operands argv, MvLands fs (lastOf argv) path q
  kept : argv.length ≠ 3 → MvFree fs (lastOf argv) (operands argv) → ∀ q, fs.tree.Has q →
    ∃ q', t.tree.Has q' ∧ origin q' = q
  arrived : returned → argv.length ≠ 3 → MvFree fs (lastOf argv) (operands argv) → MvFiles fs (operands argv) →
    ∀ path ∈ operands argv, ∃ q d, fs.locate path = some q ∧ MvLands fs (lastOf argv) path d ∧
      t.tree.node d = fs.tree.node q ∧ ¬t.tree.Has q

theorem mv_right_same (fs : Fs) (argv : List Bytes) (returned : Prop) (stopped : returned → argv.length = 3) :
    MvRight fs fs argv returned id where
  shuffled := shuffled_refl fs
  renamed := fun _ q has => .inl ⟨q, has, rfl⟩
  dirs := fun _ _ => Iff.rfl
  moved := fun _ _ _ => .inl rfl
  kept := fun _ _ q has => ⟨q, has, rfl⟩
  arrived := fun ran many => absurd (stopped ran) many

theorem mv_right_state (fs t : Fs) (argv done rest : List Bytes) (returned : Prop) (origin : Place → Place)
    (many : argv.length ≠ 3) (whole : operands argv = done ++ rest) (all : returned → done = operands argv)
    (state : MvState fs (lastOf argv) (operands argv) done origin t) : MvRight fs t argv returned origin where
  shuffled := state.shuffled
  renamed := fun three => absurd three many
  dirs := fun _ => state.dirs
  moved := by
    intro _ q has
    rcases state.moved q has with fixed | ⟨path, member, lands⟩
    · exact .inl fixed
    · exact .inr ⟨path, whole ▸ List.mem_append_left _ member, lands⟩
  kept := fun _ => state.kept
  arrived := by
    intro ran _ free files path member
    obtain ⟨q, d, found, lands, has, came⟩ := state.arrived free files path (all ran ▸ member)
    refine ⟨q, d, found, lands, ?_, fun still => ?_⟩
    · rw [state.shuffled.node d has, came]
    · have first := located_has fs path q found
      rcases state.moved q still with fixed | ⟨other, before, there⟩
      · have same := state.shuffled.apart q d still has (fixed.trans came.symm)
        exact free.free path member d lands (same ▸ first)
      · exact free.free other (whole ▸ List.mem_append_left _ before) q there first

theorem mv_renames (sys : System) (argv : List Bytes) (fs t : Fs) (three : argv.length = 3) :
    ((do
        let code ← rename sys (argv.getD 1 []) (lastOf argv)
        if code < 0 then throw .exit : Cmd Unit).run fs = .ok () t → ∃ origin, MvRight fs t argv True origin) ∧
      ∀ e, (do
        let code ← rename sys (argv.getD 1 []) (lastOf argv)
        if code < 0 then throw .exit : Cmd Unit).run fs = .error e t → ∃ origin, MvRight fs t argv False origin := by
  rw [EStateM.run_bind]
  rcases rename_run sys (argv.getD 1 []) (lastOf argv) fs with
    failed | ⟨m, q, n, p, -, target, -, ⟨-, ran⟩ | ⟨able, ran⟩⟩
  · rw [failed]
    refine ⟨fun ended => ?_, fun e halted => ?_⟩
    · cases ended
    · cases halted
      exact ⟨id, mv_right_same fs argv False False.elim⟩
  · rw [ran]
    refine ⟨fun ended => ?_, fun e halted => ?_⟩
    · cases ended
      exact ⟨id, mv_right_same fs argv True fun _ => three⟩
    · cases halted
  · rw [ran]
    refine ⟨fun ended => ?_, fun e halted => ?_⟩
    · cases ended
      refine ⟨id ∘ movedFrom (m :: q) (n :: p), shuffled_move fs fs id (shuffled_refl fs) _ n p _ able,
        fun _ r has => ?_, absurd three, absurd three, absurd three, fun _ => absurd three⟩
      rcases move_keeps fs.tree (m :: q) n p able r has with same | still
      · exact .inr ⟨n, p, target, same⟩
      · exact .inl still
    · cases halted

theorem mv_moves_only (sys : System) (junk : Kind) (argv : List Bytes) (fs t : Fs) (home : fs.tree.IsDir fs.cwd) :
    ((mvMain sys junk argv).run fs = .ok () t → ∃ origin, MvRight fs t argv True origin) ∧
      ∀ e, (mvMain sys junk argv).run fs = .error e t → ∃ origin, MvRight fs t argv False origin := by
  have refused : ∀ (e e' : Halt) (more : Unit → Cmd Unit), (throw e >>= more : Cmd Unit).run fs = .error e' t →
      ∃ origin, MvRight fs t argv False origin := by
    intro e e' more halted
    cases halted
    exact ⟨id, mv_right_same fs argv False False.elim⟩
  rw [mvMain]
  by_cases few : argv.length < 3
  · simp only [if_pos few]
    refine ⟨fun ended => ?_, fun e halted => refused _ e _ halted⟩
    cases ended
  · simp only [if_neg few]
    by_cases odd : dashed argv = true ∧ ¬recursive argv = true
    · simp only [if_pos odd]
      refine ⟨fun ended => ?_, fun e halted => refused _ e _ halted⟩
      cases ended
    · simp only [if_neg odd]
      by_cases three : argv.length = 3
      · simp only [if_pos three]
        exact mv_renames sys argv fs t three
      · simp only [if_neg three]
        rw [run_get_bind]
        by_cases dir : fs.statKind (lastOf argv) junk ≠ .dir
        · simp only [if_pos dir]
          refine ⟨fun ended => ?_, fun e halted => refused _ e _ halted⟩
          cases ended
        · simp only [if_neg dir]
          have run := mv_loop_run sys fs (lastOf argv) (operands argv) [] (operands argv) id fs t home
            (mv_state_start fs (lastOf argv) (operands argv)) rfl
          refine ⟨fun ended => ?_, fun e halted => ?_⟩
          · obtain ⟨origin, state⟩ := run.1 ended
            exact ⟨origin, mv_right_state fs t argv _ [] True origin three (List.append_nil _).symm (fun _ => rfl) state⟩
          · obtain ⟨done, origin, ⟨rest, whole⟩, state⟩ := run.2 e halted
            exact ⟨origin, mv_right_state fs t argv done rest False origin three whole False.elim state⟩

-- "mv f g a" at the root of the twins, where there is no "g": "/f" comes to take the place of
-- "/a/f", and then mv gives up.
theorem mv_moves_only_f : ∃ t origin, (mvMain allowed .other [[109, 118], [102], [103], [97]]).run ⟨twins, []⟩ =
    .error .exit t ∧ MvRight ⟨twins, []⟩ t [[109, 118], [102], [103], [97]] False origin := by
  have able : twins.Movable [nameF] nameF [nameA] := by decide
  have ran : (mvMain allowed .other [[109, 118], [102], [103], [97]]).run ⟨twins, []⟩ =
      .error .exit ⟨twins.move [nameF] nameF [nameA] able, []⟩ := rfl
  obtain ⟨origin, right⟩ := (mv_moves_only allowed .other _ ⟨twins, []⟩ _ (by decide)).2 _ ran
  exact ⟨_, origin, ran, right⟩

end Yaup.Busybox
