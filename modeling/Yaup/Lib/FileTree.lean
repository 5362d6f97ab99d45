import Mathlib.Data.List.Infix
import Mathlib.Logic.Function.Basic

set_option autoImplicit false

namespace Yaup.Lib

variable {Name Attr : Type}

inductive Kind where
  | dir | reg | other
deriving DecidableEq

structure Node (Attr : Type) where
  kind : Kind
  attr : Attr

-- A directory tree without links. A place is the names from an entry up to the root, its
-- own first; `names` is the order in which a directory is read, and may have names besides
-- that no entry has.
structure Tree (Name Attr : Type) where
  node : List Name → Option (Node Attr)
  names : List Name → List Name
  depth : Nat
  root : (node []).map Node.kind = some .dir
  parent : ∀ n p, node (n :: p) ≠ none → (node p).map Node.kind = some .dir
  listed : ∀ n p, node (n :: p) ≠ none → n ∈ names p
  nodup : ∀ p, (names p).Nodup
  shallow : ∀ p, node p ≠ none → p.length ≤ depth

def Tree.kindAt (t : Tree Name Attr) (p : List Name) : Option Kind := (t.node p).map Node.kind

def Tree.IsDir (t : Tree Name Attr) (p : List Name) : Prop := t.kindAt p = some .dir

def Tree.Has (t : Tree Name Attr) (p : List Name) : Prop := t.kindAt p ≠ none

instance (t : Tree Name Attr) (p : List Name) : Decidable (t.IsDir p) := inferInstanceAs (Decidable (_ = _))

instance (t : Tree Name Attr) (p : List Name) : Decidable (t.Has p) := inferInstanceAs (Decidable (_ ≠ _))

def Tree.entries (t : Tree Name Attr) (p : List Name) : List (Name × Kind) :=
  (t.names p).filterMap fun n => (t.kindAt (n :: p)).map fun kind => (n, kind)

def Beneath (p q : List Name) : Prop := ∃ n, n :: p <:+ q

inductive PathPart (Name : Type) where
  | here | up | name (n : Name)
deriving DecidableEq

def Tree.walkTo (t : Tree Name Attr) (p : List Name) : List (PathPart Name) → Option (List Name)
  | [] => if t.Has p then some p else none
  | .here :: rest => if t.IsDir p then t.walkTo p rest else none
  | .up :: rest => if t.IsDir p then t.walkTo p.tail rest else none
  | .name n :: rest => if t.IsDir p then t.walkTo (n :: p) rest else none

structure SameShape (t t' : Tree Name Attr) : Prop where
  kinds : t'.kindAt = t.kindAt
  names : t'.names = t.names

theorem has_iff (t : Tree Name Attr) (p : List Name) : t.Has p ↔ t.node p ≠ none := by
  rw [Tree.Has, Tree.kindAt, ne_eq, Option.map_eq_none_iff]

theorem kind_has (t : Tree Name Attr) (p : List Name) (kind : Kind) (here : t.kindAt p = some kind) : t.Has p := by
  rw [Tree.Has, here]
  exact Option.some_ne_none _

theorem dir_has (t : Tree Name Attr) (p : List Name) (dir : t.IsDir p) : t.Has p := kind_has t p .dir dir

theorem parent_dir (t : Tree Name Attr) (n : Name) (p : List Name) (has : t.Has (n :: p)) : t.IsDir p :=
  t.parent n p ((has_iff t _).mp has)

theorem tail_dir (t : Tree Name Attr) (p : List Name) (has : t.IsDir p) : t.IsDir p.tail := by
  cases p with
  | nil => exact has
  | cons n p => exact parent_dir t n p (dir_has t _ has)

theorem has_shallow (t : Tree Name Attr) (p : List Name) (has : t.Has p) : p.length ≤ t.depth :=
  t.shallow p ((has_iff t p).mp has)

theorem above_dir (t : Tree Name Attr) (p q : List Name) (above : q <:+ p) (dir : t.IsDir p) : t.IsDir q := by
  induction p with
  | nil =>
      rw [List.suffix_nil.mp above]
      exact dir
  | cons n p ih =>
      rcases List.suffix_cons_iff.mp above with rfl | higher
      · exact dir
      · exact ih higher (tail_dir t _ dir)

theorem above_has (t : Tree Name Attr) (p q : List Name) (above : q <:+ p) (has : t.Has p) : t.Has q := by
  cases p with
  | nil =>
      rw [List.suffix_nil.mp above]
      exact has
  | cons n p =>
      rcases List.suffix_cons_iff.mp above with rfl | higher
      · exact has
      · exact dir_has t q (above_dir t p q higher (parent_dir t n p has))

theorem below_cons (n : Name) (p q : List Name) : Beneath p (n :: q) ↔ p <:+ q := by
  constructor
  · rintro ⟨m, under⟩
    rcases List.suffix_cons_iff.mp under with same | under
    · rw [(List.cons.inj same).2]
    · exact (List.suffix_cons m p).trans under
  · rintro ⟨front, rfl⟩
    cases front using List.reverseRecOn with
    | nil => exact ⟨n, List.suffix_rfl⟩
    | append_singleton front m => exact ⟨m, n :: front, by simp⟩

theorem below_place (p q : List Name) (below : Beneath p q) : ∃ n r, q = n :: r ∧ p <:+ r := by
  cases q with
  | nil =>
      obtain ⟨n, under⟩ := below
      exact absurd (List.suffix_nil.mp under) (List.cons_ne_nil n p)
  | cons n r => exact ⟨n, r, rfl, (below_cons n p r).mp below⟩

theorem mem_entries (t : Tree Name Attr) (p : List Name) (n : Name) (kind : Kind) :
    (n, kind) ∈ t.entries p ↔ t.kindAt (n :: p) = some kind := by
  rw [Tree.entries, List.mem_filterMap]
  constructor
  · rintro ⟨m, -, found⟩
    obtain ⟨seen, here, same⟩ := Option.map_eq_some_iff.mp found
    cases same
    exact here
  · intro here
    refine ⟨n, t.listed n p ((has_iff t _).mp (kind_has t _ kind here)), ?_⟩
    rw [here, Option.map_some]

theorem entry_has (t : Tree Name Attr) (p : List Name) (e : Name × Kind) (member : e ∈ t.entries p) : t.Has (e.1 :: p) :=
  kind_has t _ e.2 ((mem_entries t p e.1 e.2).mp member)

theorem has_entry (t : Tree Name Attr) (p : List Name) (n : Name) (has : t.Has (n :: p)) : ∃ kind, (n, kind) ∈ t.entries p := by
  obtain ⟨kind, here⟩ := Option.ne_none_iff_exists'.mp has
  exact ⟨kind, (mem_entries t p n kind).mpr here⟩

theorem entry_dir_iff (t : Tree Name Attr) (p : List Name) (e : Name × Kind) (member : e ∈ t.entries p) :
    t.IsDir (e.1 :: p) ↔ e.2 = .dir := by
  rw [Tree.IsDir, (mem_entries t p e.1 e.2).mp member, Option.some.injEq]

theorem entries_names (t : Tree Name Attr) (p : List Name) : ((t.entries p).map Prod.fst).Nodup := by
  have sublist : ∀ names : List Name,
      ((names.filterMap fun n => (t.kindAt (n :: p)).map fun kind => (n, kind)).map Prod.fst).Sublist names := by
    intro names
    induction names with
    | nil => exact List.Sublist.refl _
    | cons n rest ih =>
        cases here : t.kindAt (n :: p) with
        | none =>
            rw [List.filterMap_cons_none (by rw [here]; rfl)]
            exact ih.cons n
        | some kind =>
            rw [List.filterMap_cons_some (by rw [here]; rfl)]
            exact ih.cons_cons n
  exact (t.nodup p).sublist (sublist (t.names p))

theorem entries_nil (t : Tree Name Attr) (p : List Name) : t.entries p = [] ↔ ∀ n, ¬t.Has (n :: p) := by
  constructor
  · intro empty n has
    obtain ⟨kind, member⟩ := has_entry t p n has
    rw [empty] at member
    cases member
  · intro none
    rw [List.eq_nil_iff_forall_not_mem]
    rintro ⟨n, kind⟩ member
    exact none n (entry_has t p _ member)

theorem walk_start_has (t : Tree Name Attr) (parts : List (PathPart Name)) (p r : List Name)
    (found : t.walkTo p parts = some r) : t.Has p := by
  cases parts with
  | nil =>
      by_contra gone
      rw [Tree.walkTo, if_neg gone] at found
      cases found
  | cons part rest =>
      have dir : t.IsDir p := by
        by_contra other
        cases part with
        | here =>
            rw [Tree.walkTo, if_neg other] at found
            cases found
        | up =>
            rw [Tree.walkTo, if_neg other] at found
            cases found
        | name n =>
            rw [Tree.walkTo, if_neg other] at found
            cases found
      exact dir_has t p dir

theorem walk_append (t : Tree Name Attr) (first rest : List (PathPart Name)) (p r : List Name) :
    t.walkTo p (first ++ rest) = some r ↔ ∃ m, t.walkTo p first = some m ∧ t.walkTo m rest = some r := by
  induction first generalizing p with
  | nil =>
      rw [List.nil_append, Tree.walkTo]
      constructor
      · intro found
        exact ⟨p, if_pos (walk_start_has t rest p r found), found⟩
      · rintro ⟨m, here, found⟩
        by_cases has : t.Has p
        · rw [if_pos has] at here
          cases here
          exact found
        · rw [if_neg has] at here
          cases here
  | cons part first ih =>
      by_cases dir : t.IsDir p
      · cases part with
        | here => simp only [List.cons_append, Tree.walkTo, if_pos dir, ih]
        | up => simp only [List.cons_append, Tree.walkTo, if_pos dir, ih]
        | name n => simp only [List.cons_append, Tree.walkTo, if_pos dir, ih]
      · cases part with
        | here => simp [Tree.walkTo, dir]
        | up => simp [Tree.walkTo, dir]
        | name n => simp [Tree.walkTo, dir]

theorem walk_end_has (t : Tree Name Attr) (parts : List (PathPart Name)) (p r : List Name)
    (found : t.walkTo p parts = some r) : t.Has r := by
  rw [← List.append_nil parts] at found
  obtain ⟨m, -, last⟩ := (walk_append t parts [] p r).mp found
  rw [Tree.walkTo] at last
  split at last
  · cases last
    assumption
  · cases last

-- A walk goes the same way in a tree that has its directories, and the entry at its end.
theorem walk_transfer (t t' : Tree Name Attr) (dirs : ∀ p, t.IsDir p → t'.IsDir p) (parts : List (PathPart Name))
    (p r : List Name) (has : t'.Has r) (found : t.walkTo p parts = some r) : t'.walkTo p parts = some r := by
  induction parts generalizing p with
  | nil =>
      rw [Tree.walkTo] at found ⊢
      split at found
      · cases found
        exact if_pos has
      · cases found
  | cons part rest ih =>
      by_cases dir : t.IsDir p
      · cases part with
        | here =>
            rw [Tree.walkTo, if_pos dir] at found
            rw [Tree.walkTo, if_pos (dirs p dir), ih p found]
        | up =>
            rw [Tree.walkTo, if_pos dir] at found
            rw [Tree.walkTo, if_pos (dirs p dir), ih p.tail found]
        | name n =>
            rw [Tree.walkTo, if_pos dir] at found
            rw [Tree.walkTo, if_pos (dirs p dir), ih (n :: p) found]
      · cases part with
        | here => simp [Tree.walkTo, dir] at found
        | up => simp [Tree.walkTo, dir] at found
        | name n => simp [Tree.walkTo, dir] at found

section
variable (t t' : Tree Name Attr) (same : SameShape t t')
include same

theorem same_shape_dir (p : List Name) : t'.IsDir p ↔ t.IsDir p := by rw [Tree.IsDir, Tree.IsDir, same.kinds]

theorem same_shape_has (p : List Name) : t'.Has p ↔ t.Has p := by rw [Tree.Has, Tree.Has, same.kinds]

theorem same_shape_entries (p : List Name) : t'.entries p = t.entries p := by
  rw [Tree.entries, Tree.entries, same.kinds, same.names]

theorem same_shape_walk (parts : List (PathPart Name)) (p : List Name) : t'.walkTo p parts = t.walkTo p parts := by
  induction parts generalizing p with
  | nil => simp only [Tree.walkTo, same_shape_has t t' same]
  | cons part rest ih =>
      cases part with
      | here => simp only [Tree.walkTo, same_shape_dir t t' same, ih]
      | up => simp only [Tree.walkTo, same_shape_dir t t' same, ih]
      | name n => simp only [Tree.walkTo, same_shape_dir t t' same, ih]

end

theorem same_shape_refl (t : Tree Name Attr) : SameShape t t := ⟨rfl, rfl⟩

theorem same_shape_trans (t t' t'' : Tree Name Attr) (first : SameShape t t') (second : SameShape t' t'') : SameShape t t'' :=
  ⟨second.kinds.trans first.kinds, second.names.trans first.names⟩

structure Applied (f : Kind → Attr → Attr) (places : List Name → Prop) (t t' : Tree Name Attr) : Prop where
  shape : SameShape t t'
  changed : ∀ q, places q → t'.node q = (t.node q).map fun entry => { entry with attr := f entry.kind entry.attr }
  kept : ∀ q, ¬places q → t'.node q = t.node q

theorem applied_nowhere (f : Kind → Attr → Attr) (t : Tree Name Attr) : Applied f (fun _ => False) t t :=
  ⟨same_shape_refl t, fun _ impossible => impossible.elim, fun _ _ => rfl⟩

theorem applied_congr (f : Kind → Attr → Attr) (places others : List Name → Prop) (t t' : Tree Name Attr)
    (same : ∀ q, places q ↔ others q) (applied : Applied f places t t') : Applied f others t t' :=
  ⟨applied.shape, fun q there => applied.changed q ((same q).mpr there),
    fun q off => applied.kept q fun there => off ((same q).mp there)⟩

section
variable [DecidableEq Name]

def changedNode (node : List Name → Option (Node Attr)) (p : List Name) (f : Kind → Attr → Attr) (q : List Name) :
    Option (Node Attr) :=
  (node q).map fun entry => if q = p then { entry with attr := f entry.kind entry.attr } else entry

theorem changed_kind (node : List Name → Option (Node Attr)) (p q : List Name) (f : Kind → Attr → Attr) :
    (changedNode node p f q).map Node.kind = (node q).map Node.kind := by
  rw [changedNode, Option.map_map]
  refine congrFun (congrArg _ (funext fun entry => ?_)) _
  by_cases same : q = p
  · rw [Function.comp_apply, if_pos same]
  · rw [Function.comp_apply, if_neg same]

theorem changed_has (node : List Name → Option (Node Attr)) (p q : List Name) (f : Kind → Attr → Attr)
    (has : changedNode node p f q ≠ none) : node q ≠ none := by
  rwa [changedNode, ne_eq, Option.map_eq_none_iff] at has

def Tree.change (t : Tree Name Attr) (p : List Name) (f : Kind → Attr → Attr) : Tree Name Attr where
  node := changedNode t.node p f
  names := t.names
  depth := t.depth
  root := (changed_kind t.node p [] f).trans t.root
  parent := fun n q has => (changed_kind t.node p q f).trans (t.parent n q (changed_has _ _ _ _ has))
  listed := fun n q has => t.listed n q (changed_has _ _ _ _ has)
  nodup := t.nodup
  shallow := fun q has => t.shallow q (changed_has _ _ _ _ has)

theorem change_shape (t : Tree Name Attr) (p : List Name) (f : Kind → Attr → Attr) : SameShape t (t.change p f) :=
  ⟨funext fun q => changed_kind t.node p q f, rfl⟩

theorem change_other (t : Tree Name Attr) (p q : List Name) (f : Kind → Attr → Attr) (apart : q ≠ p) :
    (t.change p f).node q = t.node q := by
  change changedNode t.node p f q = t.node q
  simp only [changedNode, if_neg apart, Option.map_id']

theorem change_same (t : Tree Name Attr) (p : List Name) (f : Kind → Attr → Attr) :
    (t.change p f).node p = (t.node p).map fun entry => { entry with attr := f entry.kind entry.attr } := by
  change changedNode t.node p f p = _
  simp only [changedNode, if_pos]

theorem applied_change (f : Kind → Attr → Attr) (twice : ∀ kind a, f kind (f kind a) = f kind a)
    (places : List Name → Prop) (t t' : Tree Name Attr)
    (p : List Name) (applied : Applied f places t t') : Applied f (fun q => places q ∨ q = p) t (t'.change p f) where
  shape := same_shape_trans t t' _ applied.shape (change_shape t' p f)
  changed := by
    intro q there
    by_cases same : q = p
    · subst same
      rw [change_same]
      by_cases before : places q
      · rw [applied.changed q before, Option.map_map]
        refine congrFun (congrArg _ (funext fun entry => ?_)) _
        change ({ entry with attr := f entry.kind (f entry.kind entry.attr) } : Node Attr) = { entry with attr := f entry.kind entry.attr }
        rw [twice]
      · rw [applied.kept q before]
    · rw [change_other t' p q f same]
      exact applied.changed q (there.resolve_right same)
  kept := by
    intro q off
    rw [change_other t' p q f fun same => off (.inr same)]
    exact applied.kept q fun before => off (.inl before)

def Tree.Leaf (t : Tree Name Attr) (p : List Name) : Prop := p ≠ [] ∧ t.Has p ∧ t.entries p = []

instance (t : Tree Name Attr) (p : List Name) : Decidable (t.Leaf p) := inferInstanceAs (Decidable (_ ∧ _ ∧ _))

def Tree.erase (t : Tree Name Attr) (p : List Name) (leaf : t.Leaf p) : Tree Name Attr where
  node := Function.update t.node p none
  names := t.names
  depth := t.depth
  root := by
    rw [Function.update_of_ne leaf.1.symm]
    exact t.root
  parent := by
    intro n q has
    have apart : n :: q ≠ p := fun same => has (same ▸ Function.update_self _ _ _)
    rw [Function.update_of_ne apart] at has
    have other : q ≠ p := by
      rintro rfl
      exact (entries_nil t q).mp leaf.2.2 n ((has_iff t _).mpr has)
    rw [Function.update_of_ne other]
    exact t.parent n q has
  listed := by
    intro n q has
    have apart : n :: q ≠ p := fun same => has (same ▸ Function.update_self _ _ _)
    rw [Function.update_of_ne apart] at has
    exact t.listed n q has
  nodup := t.nodup
  shallow := by
    intro q has
    have apart : q ≠ p := fun same => has (same ▸ Function.update_self _ _ _)
    rw [Function.update_of_ne apart] at has
    exact t.shallow q has

theorem erase_node (t : Tree Name Attr) (p q : List Name) (leaf : t.Leaf p) :
    (t.erase p leaf).node q = if q = p then none else t.node q := by
  by_cases same : q = p
  · rw [if_pos same, same]
    exact Function.update_self _ _ _
  · rw [if_neg same]
    exact Function.update_of_ne same _ _

theorem erase_kind (t : Tree Name Attr) (p q : List Name) (leaf : t.Leaf p) (apart : q ≠ p) :
    (t.erase p leaf).kindAt q = t.kindAt q := by
  rw [Tree.kindAt, Tree.kindAt, erase_node, if_neg apart]

theorem erase_has (t : Tree Name Attr) (p q : List Name) (leaf : t.Leaf p) (has : (t.erase p leaf).Has q) : t.Has q := by
  rw [has_iff] at has ⊢
  rw [erase_node] at has
  split at has
  · exact absurd rfl has
  · exact has

theorem erase_leaf (t : Tree Name Attr) (p q : List Name) (leaf : t.Leaf p) (other : t.Leaf q) (apart : q ≠ p) :
    (t.erase p leaf).Leaf q := by
  refine ⟨other.1, ?_, ?_⟩
  · rw [Tree.Has, erase_kind t p q leaf apart]
    exact other.2.1
  · rw [entries_nil]
    exact fun n has => (entries_nil t q).mp other.2.2 n (erase_has t p _ leaf has)

-- A file written under a name of a directory that is not a directory's itself: a new file if
-- there was none.
def writtenNode (node : List Name → Option (Node Attr)) (p : List Name) (f : Option Attr → Attr) : List Name → Option (Node Attr) :=
  Function.update node p (some
    (match node p with
    | none => ⟨.reg, f none⟩
    | some entry => { entry with attr := f (some entry.attr) }))

def Tree.write (t : Tree Name Attr) (n : Name) (p : List Name) (f : Option Attr → Attr) (dir : t.IsDir p)
    (free : ¬t.IsDir (n :: p)) : Tree Name Attr where
  node := writtenNode t.node (n :: p) f
  names := fun q => if q = p ∧ n ∉ t.names p then t.names p ++ [n] else t.names q
  depth := max t.depth (p.length + 1)
  root := by
    rw [writtenNode, Function.update_of_ne (List.cons_ne_nil n p).symm]
    exact t.root
  parent := by
    intro m q has
    have old : (t.node q).map Node.kind = some .dir := by
      by_cases same : m :: q = n :: p
      · rw [(List.cons.inj same).2]
        exact dir
      · rw [writtenNode, Function.update_of_ne same] at has
        exact t.parent m q has
    have apart : q ≠ n :: p := by
      rintro rfl
      exact free old
    rw [writtenNode, Function.update_of_ne apart]
    exact old
  listed := by
    intro m q has
    by_cases same : m :: q = n :: p
    · obtain ⟨rfl, rfl⟩ := List.cons.inj same
      split
      · simp
      · rename_i there
        simpa using there
    · rw [writtenNode, Function.update_of_ne same] at has
      have member := t.listed m q has
      split
      · rename_i new
        rw [← new.1]
        exact List.mem_append_left _ member
      · exact member
  nodup := by
    intro q
    split
    · rename_i new
      rw [List.nodup_append]
      refine ⟨t.nodup p, by simp, ?_⟩
      rintro a old b last rfl
      rw [List.mem_singleton.mp last] at old
      exact new.2 old
    · exact t.nodup q
  shallow := by
    intro q has
    by_cases same : q = n :: p
    · rw [same]
      exact le_max_right _ _
    · rw [writtenNode, Function.update_of_ne same] at has
      exact (t.shallow q has).trans (le_max_left _ _)

theorem write_node (t : Tree Name Attr) (n : Name) (p q : List Name) (f : Option Attr → Attr) (dir : t.IsDir p)
    (free : ¬t.IsDir (n :: p)) : (t.write n p f dir free).node q =
      if q = n :: p then some (match t.node (n :: p) with
        | none => ⟨.reg, f none⟩
        | some entry => { entry with attr := f (some entry.attr) })
      else t.node q := by
  change writtenNode t.node (n :: p) f q = _
  by_cases same : q = n :: p
  · rw [if_pos same, same, writtenNode, Function.update_self]
  · rw [if_neg same, writtenNode, Function.update_of_ne same]

theorem write_kind (t : Tree Name Attr) (n : Name) (p q : List Name) (f : Option Attr → Attr) (dir : t.IsDir p)
    (free : ¬t.IsDir (n :: p)) (has : t.Has q) : (t.write n p f dir free).kindAt q = t.kindAt q := by
  rw [Tree.kindAt, Tree.kindAt, write_node]
  by_cases same : q = n :: p
  · subst same
    obtain ⟨entry, there⟩ := Option.ne_none_iff_exists'.mp ((has_iff t _).mp has)
    rw [if_pos rfl, there]
    rfl
  · rw [if_neg same]

theorem write_kind_old (t : Tree Name Attr) (n : Name) (p q : List Name) (f : Option Attr → Attr) (dir : t.IsDir p)
    (free : ¬t.IsDir (n :: p)) (kind : Kind) (here : (t.write n p f dir free).kindAt q = some kind) (other : kind ≠ .reg) :
    t.kindAt q = some kind := by
  by_cases has : t.Has q
  · rwa [write_kind t n p q f dir free has] at here
  · rw [has_iff, not_not] at has
    rw [Tree.kindAt, write_node] at here
    split at here
    · rename_i same
      rw [← same, has] at here
      exact absurd (Option.some.inj here).symm other
    · rw [has] at here
      cases here

theorem write_dirs (t : Tree Name Attr) (n : Name) (p q : List Name) (f : Option Attr → Attr) (dir : t.IsDir p)
    (free : ¬t.IsDir (n :: p)) : (t.write n p f dir free).IsDir q ↔ t.IsDir q := by
  by_cases same : q = n :: p
  · subst same
    refine iff_of_false ?_ free
    intro now
    change (writtenNode t.node (n :: p) f (n :: p)).map Node.kind = some .dir at now
    rw [writtenNode, Function.update_self] at now
    cases there : t.node (n :: p) with
    | none =>
        rw [there] at now
        cases now
    | some entry =>
        rw [there] at now
        refine free ?_
        rw [Tree.IsDir, Tree.kindAt, there]
        exact now
  · change (writtenNode t.node (n :: p) f q).map Node.kind = some .dir ↔ _
    rw [writtenNode, Function.update_of_ne same]
    rfl

end

end Yaup.Lib
