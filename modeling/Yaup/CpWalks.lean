import Yaup.CpPaths
import Yaup.CwdKept

set_option autoImplicit false

namespace Yaup.Busybox

open Lib

theorem chdir_at (sys : System) (path : Bytes) (fs : Fs) : ∃ cwd, fs.chdir sys path = fs.at cwd := by
  rw [Fs.chdir]
  cases fs.locate path with
  | none => exact ⟨fs.cwd, rfl⟩
  | some p =>
      by_cases enters : fs.tree.IsDir p ∧ sys.chdir p = true
      · exact ⟨p, if_pos enters⟩
      · exact ⟨fs.cwd, if_neg enters⟩

section
variable (k : Fs) (argv : List Bytes)

structure Carried (u : Fs) : Prop where
  dirs : ∀ p, u.tree.IsDir p ↔ k.tree.IsDir p
  kinds : ∀ p, k.tree.Has p → u.tree.kindAt p = k.tree.kindAt p
  fresh : ∀ p, u.tree.Has p → k.tree.Has p ∨ ∃ a, Copies k argv a p
  others : ∀ p, u.tree.kindAt p = some .other → k.tree.kindAt p = some .other
  sources : ∀ src s p, SourceFile k argv src s p → u.fileData (p ++ s) = k.fileData (p ++ s)

def Arrived (u : Fs) (d : Place) : Prop := ∀ a, Copies k argv a d → u.fileData d = k.fileData a

structure Holding (places : Place → Prop) (u : Fs) : Prop where
  carried : Carried k argv u
  arrived : ∀ d, places d → Arrived k argv u d

theorem carried_start : Carried k argv k where
  dirs := fun _ => Iff.rfl
  kinds := fun _ _ => rfl
  fresh := fun _ has => .inl has
  others := fun _ other => other
  sources := fun _ _ _ _ => rfl

theorem holding_weaken (places fewer : Place → Prop) (u : Fs) (less : ∀ d, fewer d → places d)
    (holding : Holding k argv places u) : Holding k argv fewer u :=
  ⟨holding.carried, fun d there => holding.arrived d (less d there)⟩

theorem holding_cwd (places : Place → Prop) (u : Fs) (cwd : Place) (holding : Holding k argv places u) :
    Holding k argv places (u.at cwd) :=
  ⟨⟨holding.carried.dirs, holding.carried.kinds, holding.carried.fresh, holding.carried.others, holding.carried.sources⟩,
    holding.arrived⟩

theorem carried_has (u : Fs) (p : Place) (now : Carried k argv u) (has : k.tree.Has p) : u.tree.Has p := by
  rw [Tree.Has, now.kinds p has]
  exact has

variable (sys : System) (safe : CpSafe sys k argv)
include safe

theorem copy_arrives (u : Fs) (places : Place → Prop) (src : Bytes) (s p : Place) (n : Name) (q : Place)
    (now : Holding k argv places u) (source : SourceFile k argv src s p) (lands : Copies k argv (p ++ s) (n :: q))
    (dir : u.tree.IsDir q) (free : ¬u.tree.IsDir (n :: q)) :
    Holding k argv (fun d => places d ∨ d = n :: q)
      { u with tree :=
          u.tree.write n q (refill sys (n :: q) (u.tree.kindAt (n :: q)) (copied sys u (p ++ s) (n :: q))) dir free } := by
  have regular : u.tree.kindAt (p ++ s) = some .reg := by
    rw [now.carried.kinds _ (kind_has _ _ _ source.regular), source.regular]
  have data : some (copied sys u (p ++ s) (n :: q)) = k.fileData (p ++ s) := by
    rw [copied_regular sys u _ _ regular]
    by_cases same : p ++ s = n :: q
    · rw [if_pos same]
      rw [same] at lands ⊢
      exact (safe.alone _ lands).symm
    · rw [if_neg same]
      exact now.carried.sources src s p source
  have here : ∀ b, Copies k argv b (n :: q) → some (copied sys u (p ++ s) (n :: q)) = k.fileData b := fun b other =>
    data.trans (safe.agree.copies _ _ _ lands other)
  have kept : u.tree.kindAt (n :: q) ≠ some .other := fun other => safe.kept _ _ lands (now.carried.others _ other)
  refine ⟨⟨fun r => ?_, fun r has => ?_, fun r has => ?_, fun r other => ?_, fun other t r file => ?_⟩, fun d there => ?_⟩
  · exact (write_dirs u.tree n q r _ dir free).trans (now.carried.dirs r)
  · exact (write_kind u.tree n q r _ dir free (carried_has k argv u r now.carried has)).trans (now.carried.kinds r has)
  · by_cases same : r = n :: q
    · exact .inr ⟨p ++ s, same ▸ lands⟩
    · refine now.carried.fresh r ?_
      rw [has_iff] at has ⊢
      rwa [write_node, if_neg same] at has
  · exact now.carried.others r (write_kind_old u.tree n q r _ dir free _ other nofun)
  · rw [write_data _ _ _ _ _ _ _ _ kept]
    by_cases same : r ++ t = n :: q
    · rw [if_pos same, data, same]
      exact safe.agree.sources _ _ other t r lands file same.symm
    · rw [if_neg same]
      exact now.carried.sources other t r file
  · intro b copy
    rw [write_data _ _ _ _ _ _ _ _ kept]
    by_cases same : d = n :: q
    · rw [if_pos same]
      exact here b (same ▸ copy)
    · rw [if_neg same]
      exact now.arrived d (there.resolve_right same) b copy

theorem copy_holds (u v : Fs) (places : Place → Prop) (src text dst : Bytes) (s p : Place)
    (now : Holding k argv places u) (source : SourceFile k argv src s p) (located : u.locate text = some (p ++ s))
    (lands : ∀ n q, (k.at u.cwd).target dst = some (n, q) → k.tree.IsDir q → Copies k argv (p ++ s) (n :: q))
    (done : (fileToFile sys text dst).run u = .ok () v) :
    v.cwd = u.cwd ∧ ∃ n q, (k.at u.cwd).target dst = some (n, q) ∧ k.tree.IsDir q ∧
      Holding k argv (fun d => places d ∨ d = n :: q) v := by
  obtain ⟨r, n, q, dir, free, found, target, rfl⟩ := file_to_file_ok sys text dst u v done
  rw [located] at found
  cases found
  have before : k.tree.IsDir q := (now.carried.dirs q).mp dir
  have same := target_transfer u (k.at u.cwd) rfl (fun r => (now.carried.dirs r).mp) dst n q (dir_has _ _ before) target
  exact ⟨rfl, n, q, same, before,
    copy_arrives k argv sys safe u places src s p n q now source (lands n q same before) dir free⟩

end

section
variable (k : Fs) (argv : List Bytes) (sys : System) (safe : CpSafe sys k argv)

def CopiesBelow (dir copy d : Place) : Prop := ∃ r, k.tree.kindAt (r ++ dir) = some .reg ∧ d = r ++ copy

def copyDir (src : Bytes) : Place := (k.locate (copyPath argv src)).getD []

variable (src : Bytes) (s : Place) (operand : src ∈ operands argv) (located : k.locate src = some s)
  (isDir : k.tree.IsDir s)
include safe operand located isDir

theorem inside_kind (u : Fs) (n : Name) (q : Place) (kind : Kind) (now : Carried k argv u)
    (here : u.tree.kindAt (n :: (q ++ s)) = some kind) : k.tree.kindAt (n :: (q ++ s)) = some kind := by
  have has : u.tree.Has (n :: (q ++ s)) := kind_has _ _ _ here
  have before : k.tree.Has (n :: (q ++ s)) := by
    rcases now.fresh _ has with old | ⟨a, copy⟩
    · exact old
    · exact safe.outside a _ src s copy operand located isDir (List.suffix_append (n :: q) s)
  rw [← now.kinds _ before, here]

theorem file_turn (u v : Fs) (places : Place → Prop) (n : Name) (q : Place) (cwd : u.cwd = q ++ s)
    (now : Holding k argv places u) (regular : k.tree.kindAt (n :: (q ++ s)) = some .reg)
    (done : (fileToDir sys n.val (lastOf argv)).run u = .ok () v) :
    v.cwd = q ++ s ∧ Holding k argv (fun d => places d ∨ d = n :: (q ++ copyDir k argv src)) v := by
  obtain ⟨given, ran⟩ := file_to_dir_ok sys n.val (lastOf argv) u v done
  have has := carried_has k argv u _ now.carried (kind_has _ _ _ regular)
  have found : u.locate n.val = some ((n :: q) ++ s) := by
    rw [locate_name, cwd, if_pos has]
    rfl
  obtain ⟨d, copied, walked⟩ := (safe.walked src s operand located isDir).lands n q regular
  have target : ∀ m r, (k.at u.cwd).target (joined n.val (lastOf argv)) = some (m, r) → k.tree.IsDir r →
      m :: r = n :: (q ++ d) := by
    intro m r target dir
    obtain ⟨rfl, reached⟩ := joined_target (k.at u.cwd) n m (lastOf argv) r given target dir
    rw [cwd, walked] at reached
    cases reached
    rfl
  have source : SourceFile k argv src s (n :: q) := ⟨operand, located, regular⟩
  have lands : Copies k argv ((n :: q) ++ s) (n :: (q ++ d)) := by
    refine ⟨src, s, n :: q, source, rfl, ?_⟩
    rw [Lands, if_neg (List.cons_ne_nil n q)]
    exact ⟨d, copied, rfl⟩
  obtain ⟨after, m, r, at_, dir, holding⟩ := copy_holds k argv sys safe u v places src n.val _ s (n :: q) now source found
    (fun m r at_ dir => by rw [target m r at_ dir]; exact lands) ran
  rw [target m r at_ dir] at holding
  rw [copyDir, copied]
  exact ⟨after.trans cwd, holding⟩

theorem entries_copied (nested : Bytes → Cmd Int) (path : Bytes) (q : Place) (es : List (Name × Kind)) (u v : Fs)
    (turn : Turn Unit) (places : Place → Prop) (cwd : u.cwd = q ++ s) (now : Holding k argv places u)
    (kinds : ∀ e ∈ es, k.tree.kindAt (e.1 :: (q ++ s)) = some e.2)
    (below : ∀ n places u v code, k.tree.IsDir (n :: (q ++ s)) → u.cwd = q ++ s → Holding k argv places u →
      (nested n.val).run u = .ok code v → code = 0 ∧ v.cwd = q ++ s ∧
        Holding k argv (fun d => places d ∨ CopiesBelow k (n :: (q ++ s)) (n :: (q ++ copyDir k argv src)) d) v)
    (done : (walkEntries ((copier sys (lastOf argv)).visit nested path) (es.map dirent) ()).run u = .ok turn v) :
    turn = .next () ∧ v.cwd = q ++ s ∧
      Holding k argv (fun d => places d ∨
        ∃ e ∈ es, CopiesBelow k (e.1 :: (q ++ s)) (e.1 :: (q ++ copyDir k argv src)) d) v := by
  induction es generalizing u places with
  | nil =>
      cases done
      refine ⟨rfl, cwd, holding_weaken k argv _ _ _ (fun d there => ?_) now⟩
      exact there.resolve_right fun ⟨_, member, _⟩ => (nomatch member)
  | cons e rest ih =>
      rw [walk_entries_cons] at done
      obtain ⟨one, w, ran, after⟩ := (run_bind_ok _ _ _ _ _).mp done
      have here := kinds e List.mem_cons_self
      have step : one = .next () ∧ w.cwd = q ++ s ∧
          Holding k argv (fun d => places d ∨ CopiesBelow k (e.1 :: (q ++ s)) (e.1 :: (q ++ copyDir k argv src)) d) w := by
        obtain ⟨n, kind⟩ := e
        cases kind with
        | dir =>
            rw [copier_dir sys (lastOf argv) nested path (n, .dir) () rfl] at ran
            obtain ⟨code, x, called, ended⟩ := (run_bind_ok _ _ _ _ _).mp ran
            obtain ⟨rfl, still, holding⟩ := below n places u x code here cwd now called
            cases ended
            exact ⟨rfl, still, holding⟩
        | reg =>
            obtain ⟨_, x, copied, ended⟩ := (run_bind_ok _ _ _ _ _).mp ran
            cases ended
            obtain ⟨still, holding⟩ := file_turn k argv sys safe src s operand located isDir u w places n q cwd now here
              copied
            refine ⟨rfl, still, holding_weaken k argv _ _ _ (fun d there => ?_) holding⟩
            refine there.imp_right ?_
            rintro ⟨r, regular, rfl⟩
            rw [below_file k r _ .reg here nofun regular]
            rfl
        | other =>
            cases ran
            refine ⟨rfl, cwd, holding_weaken k argv _ _ _ (fun d there => ?_) now⟩
            refine there.resolve_right ?_
            rintro ⟨r, regular, rfl⟩
            rw [below_file k r _ .other here nofun regular, List.nil_append, here] at regular
            cases regular
      obtain ⟨rfl, still, holding⟩ := step
      obtain ⟨next, last, whole⟩ := ih w _ still holding (fun e member => kinds e (List.mem_cons_of_mem _ member)) after
      refine ⟨next, last, holding_weaken k argv _ _ _ (fun d there => ?_) whole⟩
      rcases there with before | ⟨f, member, copy⟩
      · exact .inl (.inl before)
      · rcases List.mem_cons.mp member with rfl | later
        · exact .inl (.inr copy)
        · exact .inr ⟨f, later, copy⟩

-- By induction on the fuel: a directory of the operand, at q below it.
theorem walk_copied (fuel : Nat) (q : Place) (path : Bytes) (u v : Fs) (code : Int) (places : Place → Prop)
    (dir : k.tree.IsDir (q ++ s)) (now : Holding k argv places u) (found : u.locate path = some (q ++ s))
    (done : (dirToDir sys (lastOf argv) fuel path).run u = .ok code v) :
    code = 0 ∧ (sys.chdir (q ++ s).tail = true → v.cwd = (q ++ s).tail) ∧
      Holding k argv (fun d => places d ∨ CopiesBelow k (q ++ s) (q ++ copyDir k argv src) d) v := by
  induction fuel generalizing q path u v code places with
  | zero => cases done
  | succ fuel ih =>
      obtain ⟨opens, enters⟩ := (safe.walked src s operand located isDir).opens q dir
      have here := (now.carried.dirs _).mpr dir
      rw [dirToDir, walk_opened sys _ fuel path u (q ++ s) found here opens, walkOpened] at done
      obtain ⟨_, w, entered, rest⟩ := (run_bind_ok _ _ _ _ _).mp done
      obtain ⟨text, x, made, moved⟩ := (run_bind_ok _ _ _ _ _).mp entered
      obtain ⟨rfl, -, -⟩ := new_dst_ok path (lastOf argv) u x text made
      cases moved
      rw [chdir_locate sys path x (q ++ s) found here enters] at rest
      obtain ⟨turn, y, ran, ended⟩ := (run_bind_ok _ _ _ _ _).mp rest
      obtain ⟨rfl, cwd, holding⟩ := entries_copied k argv sys safe src s operand located isDir _ path q
        (x.tree.entries (q ++ s)) (x.at (q ++ s)) y turn places rfl (holding_cwd k argv places x _ now)
        (fun e member => inside_kind k argv sys safe src s operand located isDir x e.1 q e.2 now.carried
          ((mem_entries _ _ _ _).mp member))
        (fun n places a b code below cwd now called => by
          have has := carried_has k argv a _ now.carried (dir_has _ _ below)
          obtain ⟨zero, back, after⟩ := ih (n :: q) n.val a b code places below now
            (by rw [locate_name, cwd, if_pos has]; rfl) called
          exact ⟨zero, back enters, after⟩)
        ran
      obtain ⟨_, z, left, answer⟩ := (run_bind_ok _ _ _ _ _).mp ended
      cases left
      cases answer
      refine ⟨rfl, fun back => ?_, ?_⟩
      · have now_ : y.tree.IsDir y.cwd := by
          rw [cwd]
          exact (holding.carried.dirs _).mpr dir
        rw [chdir_up sys y now_ (by rw [cwd]; exact back), cwd]
      · obtain ⟨c, moved⟩ := chdir_at sys [46, 46] y
        rw [moved]
        refine holding_weaken k argv _ _ _ (fun d there => ?_) (holding_cwd k argv _ y c holding)
        refine there.imp_right ?_
        rintro ⟨r, regular, rfl⟩
        cases r using List.reverseRecOn with
        | nil =>
            rw [List.nil_append, dir] at regular
            cases regular
        | append_singleton r n =>
            rw [List.append_assoc, List.singleton_append] at regular
            have before := above_has k.tree _ _ (List.suffix_append r (n :: (q ++ s))) (kind_has _ _ _ regular)
            have has := carried_has k argv x _ now.carried before
            obtain ⟨kind, child⟩ := Option.ne_none_iff_exists'.mp has
            exact ⟨(n, kind), (mem_entries _ _ _ _).mpr child, r, regular, by simp⟩

end

section
variable (k : Fs) (argv : List Bytes) (sys : System) (safe : CpSafe sys k argv)

def CopiesOf (src : Bytes) (d : Place) : Prop := ∃ s p, SourceFile k argv src s p ∧ Lands k argv src p d

def AllLand (src : Bytes) : Prop := ∀ s p, SourceFile k argv src s p → ∃ d, Lands k argv src p d

variable (u v : Fs) (places : Place → Prop) (src : Bytes) (s : Place) (operand : src ∈ operands argv)
  (located : k.locate src = some s) (now : Holding k argv places u) (resolves : Resolves k argv u.cwd src)

include located now resolves in
theorem operand_located (has : k.tree.Has s) : u.locate src = some s := by
  refine locate_transfer (k.at u.cwd) u rfl (fun p dir => (now.carried.dirs p).mpr dir) src s ?_ ?_
  · exact carried_has k argv u s now.carried has
  · exact resolves.1.trans located

include safe operand located now resolves

theorem file_operand (many : argv.length ≠ 3) (regular : k.tree.kindAt s = some .reg)
    (done : (fileToDir sys src (lastOf argv)).run u = .ok () v) :
    v.cwd = u.cwd ∧ AllLand k argv src ∧ Holding k argv (fun d => places d ∨ CopiesOf k argv src d) v := by
  have has := kind_has _ _ _ regular
  have source : SourceFile k argv src s [] := ⟨operand, located, regular⟩
  have path : copyPath argv src = joined src (lastOf argv) := if_neg many
  obtain ⟨-, ran⟩ := file_to_dir_ok sys src (lastOf argv) u v done
  rw [← path] at ran
  have lands : ∀ n q, (k.at u.cwd).target (copyPath argv src) = some (n, q) → Lands k argv src [] (n :: q) :=
    fun n q target => (if_pos rfl : Lands k argv src [] (n :: q) = _).mpr ⟨n, q, resolves.2.symm.trans target, rfl⟩
  obtain ⟨cwd, n, q, target, -, holding⟩ := copy_holds k argv sys safe u v places src src _ s [] now source
    (operand_located k argv u places src s located now resolves has)
    (fun n q target _ => ⟨src, s, [], source, rfl, lands n q target⟩) ran
  have alone : ∀ t p, SourceFile k argv src t p → p = [] := by
    intro t p file
    have same := file.located
    rw [located] at same
    cases same
    exact below_file k p s .reg regular nofun file.regular
  refine ⟨cwd, fun t p file => ⟨n :: q, ?_⟩, holding_weaken k argv _ _ _ (fun d there => ?_) holding⟩
  · rw [alone t p file]
    exact lands n q target
  · refine there.imp_right ?_
    rintro ⟨t, p, file, land⟩
    rw [alone t p file, Lands, if_pos rfl] at land
    obtain ⟨m, r, other, rfl⟩ := land
    rw [← resolves.2, target] at other
    cases other
    rfl

theorem dir_operand (isDir : k.tree.IsDir s) (fuel : Nat) (code : Int)
    (done : (dirToDir sys (lastOf argv) fuel src).run u = .ok code v) :
    (sys.chdir s.tail = true → v.cwd = s.tail) ∧ AllLand k argv src ∧
      Holding k argv (fun d => places d ∨ CopiesOf k argv src d) v := by
  have found := operand_located k argv u places src s located now resolves (dir_has _ _ isDir)
  obtain ⟨-, cwd, holding⟩ := walk_copied k argv sys safe src s operand located isDir fuel [] src u v code places isDir now
    found done
  have below : ∀ t p, SourceFile k argv src t p → t = s ∧ p ≠ [] := by
    intro t p file
    have same := file.located
    rw [located] at same
    cases same
    refine ⟨rfl, ?_⟩
    rintro rfl
    have regular := file.regular
    rw [List.nil_append, isDir] at regular
    cases regular
  refine ⟨cwd, fun t p file => ?_, holding_weaken k argv _ _ _ (fun d there => ?_) holding⟩
  · obtain ⟨rfl, some⟩ := below t p file
    cases p with
    | nil => exact absurd rfl some
    | cons n q =>
        obtain ⟨d, copied, -⟩ := (safe.walked src t operand located isDir).lands n q file.regular
        refine ⟨(n :: q) ++ d, ?_⟩
        rw [Lands, if_neg some]
        exact ⟨d, copied, rfl⟩
  · refine there.imp_right ?_
    rintro ⟨t, p, file, land⟩
    obtain ⟨rfl, some⟩ := below t p file
    rw [Lands, if_neg some] at land
    obtain ⟨d, copied, rfl⟩ := land
    refine ⟨p, file.regular, ?_⟩
    rw [copyDir, copied]
    rfl

end

section
variable (k : Fs) (argv : List Bytes) (sys : System) (safe : CpSafe sys k argv) (many : argv.length ≠ 3)
include safe many

-- By induction on the operands still to go: the working directory resolves each of them.
theorem operands_copied (fuel : Nat) (rflag : Bool) (rest : List Bytes) (st : Kind) (u v : Fs) (places : Place → Prop)
    (sub : ∀ src ∈ rest, src ∈ operands argv)
    (usable : ∀ src ∈ rest, ∃ s, k.locate src = some s ∧ (k.tree.kindAt s = some .reg ∨ k.tree.IsDir s))
    (later : rest.Pairwise fun src next => ∀ s, k.locate src = some s → k.tree.IsDir s →
      sys.chdir s.tail = true ∧ Resolves k argv s.tail next)
    (resolves : ∀ src ∈ rest, Resolves k argv u.cwd src) (now : Holding k argv places u)
    (done : (copyOperands sys fuel rflag (lastOf argv) rest st).run u = .ok () v) :
    (∀ src ∈ rest, AllLand k argv src) ∧
      Holding k argv (fun d => places d ∨ ∃ src ∈ rest, CopiesOf k argv src d) v := by
  induction rest generalizing st u places with
  | nil =>
      cases done
      refine ⟨fun _ member => (nomatch member), holding_weaken k argv _ _ _ (fun d there => ?_) now⟩
      exact there.resolve_right fun ⟨_, member, _⟩ => (nomatch member)
  | cons src rest ih =>
      obtain ⟨s, located, kind⟩ := usable src List.mem_cons_self
      have operand := sub src List.mem_cons_self
      have here := resolves src List.mem_cons_self
      have has : k.tree.Has s := by
        rcases kind with regular | isDir
        · exact kind_has _ _ _ regular
        · exact dir_has _ _ isDir
      have found := operand_located k argv u places src s located now here has
      rw [copyOperands, run_get_bind, Fs.statKind, found, Option.bind_some, now.carried.kinds s has] at done
      have conclude : ∀ w st, (∀ next ∈ rest, Resolves k argv w.cwd next) → AllLand k argv src →
          Holding k argv (fun d => places d ∨ CopiesOf k argv src d) w →
          (copyOperands sys fuel rflag (lastOf argv) rest st).run w = .ok () v →
          (∀ src_1 ∈ src :: rest, AllLand k argv src_1) ∧
            Holding k argv (fun d => places d ∨ ∃ src_1 ∈ src :: rest, CopiesOf k argv src_1 d) v := by
        intro w st further lands holding ran
        obtain ⟨allLand, whole⟩ := ih st w _ (fun next member => sub next (List.mem_cons_of_mem _ member))
          (fun next member => usable next (List.mem_cons_of_mem _ member)) (List.pairwise_cons.mp later).2 further holding ran
        refine ⟨fun next member => ?_, holding_weaken k argv _ _ _ (fun d there => ?_) whole⟩
        · rcases List.mem_cons.mp member with rfl | after
          · exact lands
          · exact allLand next after
        · rcases there with before | ⟨next, member, copy⟩
          · exact .inl (.inl before)
          · rcases List.mem_cons.mp member with rfl | after
            · exact .inl (.inr copy)
            · exact .inr ⟨next, after, copy⟩
      rcases kind with regular | isDir
      · rw [regular] at done
        obtain ⟨_, w, copied, ran⟩ := (run_bind_ok _ _ _ _ _).mp done
        obtain ⟨cwd, lands, holding⟩ := file_operand k argv sys safe u w places src s operand located now here many regular
          copied
        refine conclude w _ (fun next member => ?_) lands holding ran
        rw [cwd]
        exact resolves next (List.mem_cons_of_mem _ member)
      · have dir : k.tree.kindAt s = some .dir := isDir
        rw [dir] at done
        cases rflag with
        | false => cases done
        | true =>
            obtain ⟨code, w, walked, ran⟩ := (run_bind_ok _ _ _ _ _).mp done
            obtain ⟨cwd, lands, holding⟩ := dir_operand k argv sys safe u w places src s operand located now here isDir fuel
              code walked
            refine conclude w _ (fun next member => ?_) lands holding ran
            obtain ⟨back, same⟩ := (List.pairwise_cons.mp later).1 next member s located isDir
            rw [cwd back]
            exact same

end

end Yaup.Busybox
