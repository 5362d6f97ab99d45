import Yaup.Lib.FileTree

set_option autoImplicit false

namespace Yaup.Lib

variable {Name Attr : Type} [DecidableEq Name]

-- The place that an entry at q had before everything from s down was moved to d.
def movedFrom (s d q : List Name) : List Name := if d <:+ q then q.take (q.length - d.length) ++ s else q

theorem moved_from_below (s d r : List Name) : movedFrom s d (r ++ d) = r ++ s := by
  rw [movedFrom, if_pos (List.suffix_append r d)]
  simp

theorem moved_from_top (s d : List Name) : movedFrom s d d = s := moved_from_below s d []

theorem moved_from_other (s d q : List Name) (other : ¬d <:+ q) : movedFrom s d q = q := if_neg other

-- An entry s goes under the name n in p: not into itself, and in the place of nothing, of a file,
-- or, a directory, of an empty one.
def Tree.Movable (t : Tree Name Attr) (s : List Name) (n : Name) (p : List Name) : Prop :=
  s ≠ [] ∧ t.Has s ∧ t.IsDir p ∧ ¬s <:+ n :: p ∧ t.entries (n :: p) = [] ∧
    (t.Has (n :: p) → (t.IsDir s ↔ t.IsDir (n :: p)))

instance (t : Tree Name Attr) (s : List Name) (n : Name) (p : List Name) : Decidable (t.Movable s n p) :=
  inferInstanceAs (Decidable (_ ∧ _ ∧ _ ∧ _ ∧ _ ∧ (_ → _)))

def movedNode (node : List Name → Option (Node Attr)) (s d q : List Name) : Option (Node Attr) :=
  if d <:+ q then node (movedFrom s d q) else if s <:+ q then none else node q

theorem moved_below (node : List Name → Option (Node Attr)) (s d r : List Name) :
    movedNode node s d (r ++ d) = node (r ++ s) := by
  rw [movedNode, if_pos (List.suffix_append r d), moved_from_below]

theorem moved_other (node : List Name → Option (Node Attr)) (s d q : List Name) (other : ¬d <:+ q)
    (has : movedNode node s d q ≠ none) : ¬s <:+ q ∧ movedNode node s d q = node q := by
  rw [movedNode, if_neg other] at has ⊢
  split at has
  · exact absurd rfl has
  · rename_i apart
    exact ⟨apart, if_neg apart⟩

omit [DecidableEq Name] in
theorem own_not_below (n : Name) (p : List Name) : ¬n :: p <:+ p := fun below =>
  absurd below.length_le (Nat.not_le.mpr (Nat.lt_succ_self p.length))

omit [DecidableEq Name] in
theorem own_or_below (d q : List Name) (below : d <:+ q) : q = d ∨ Beneath d q := by
  obtain ⟨r, rfl⟩ := below
  cases r using List.reverseRecOn with
  | nil => exact .inl rfl
  | append_singleton r m => exact .inr ⟨m, r, by simp⟩

def Tree.move (t : Tree Name Attr) (s : List Name) (n : Name) (p : List Name) (able : t.Movable s n p) : Tree Name Attr where
  node := movedNode t.node s (n :: p)
  names := fun q =>
    if n :: p <:+ q then t.names (movedFrom s (n :: p) q)
    else if q = p ∧ n ∉ t.names p then t.names p ++ [n] else t.names q
  depth := t.depth + p.length + 1
  root := by
    have top : ¬n :: p <:+ [] := fun below => by cases List.suffix_nil.mp below
    have apart : ¬s <:+ [] := fun below => able.1 (List.suffix_nil.mp below)
    rw [movedNode, if_neg top, if_neg apart]
    exact t.root
  parent := by
    intro m q has
    by_cases below : n :: p <:+ m :: q
    · rcases List.suffix_cons_iff.mp below with same | lower
      · obtain ⟨-, rfl⟩ := List.cons.inj same
        have apart : ¬s <:+ p := fun above => able.2.2.2.1 (above.trans (List.suffix_cons n p))
        rw [movedNode, if_neg (own_not_below n p), if_neg apart]
        exact able.2.2.1
      · obtain ⟨r, rfl⟩ := lower
        rw [← List.cons_append, moved_below] at has
        rw [moved_below]
        exact t.parent m (r ++ s) has
    · obtain ⟨apart, same⟩ := moved_other t.node s (n :: p) (m :: q) below has
      have higher : ¬n :: p <:+ q := fun above => below (above.trans (List.suffix_cons m q))
      have outside : ¬s <:+ q := fun above => apart (above.trans (List.suffix_cons m q))
      rw [movedNode, if_neg higher, if_neg outside]
      exact t.parent m q (same ▸ has)
  listed := by
    intro m q has
    by_cases below : n :: p <:+ m :: q
    · rcases List.suffix_cons_iff.mp below with same | lower
      · obtain ⟨rfl, rfl⟩ := List.cons.inj same
        rw [if_neg (own_not_below n p)]
        split
        · simp
        · rename_i there
          simpa using there
      · obtain ⟨r, rfl⟩ := lower
        rw [← List.cons_append, moved_below] at has
        rw [if_pos (List.suffix_append r (n :: p)), moved_from_below]
        exact t.listed m (r ++ s) has
    · obtain ⟨apart, same⟩ := moved_other t.node s (n :: p) (m :: q) below has
      have higher : ¬n :: p <:+ q := fun above => below (above.trans (List.suffix_cons m q))
      have member := t.listed m q (same ▸ has)
      rw [if_neg higher]
      split
      · rename_i new
        rw [← new.1]
        exact List.mem_append_left _ member
      · exact member
  nodup := by
    intro q
    split
    · exact t.nodup _
    · split
      · rename_i new
        rw [List.nodup_append]
        refine ⟨t.nodup p, by simp, ?_⟩
        rintro a old b last rfl
        rw [List.mem_singleton.mp last] at old
        exact new.2 old
      · exact t.nodup q
  shallow := by
    intro q has
    by_cases below : n :: p <:+ q
    · obtain ⟨r, rfl⟩ := below
      rw [moved_below] at has
      have before := t.shallow _ has
      simp only [List.length_append, List.length_cons] at before ⊢
      omega
    · obtain ⟨-, same⟩ := moved_other t.node s (n :: p) q below has
      have before := t.shallow q (same ▸ has)
      omega

section
variable (t : Tree Name Attr) (s : List Name) (n : Name) (p : List Name) (able : t.Movable s n p)

theorem move_node (q : List Name) (has : (t.move s n p able).Has q) :
    (t.move s n p able).node q = t.node (movedFrom s (n :: p) q) := by
  rw [has_iff] at has
  by_cases below : n :: p <:+ q
  · exact if_pos below
  · rw [moved_from_other s _ q below]
    exact (moved_other t.node s (n :: p) q below has).2

theorem move_came (q : List Name) (has : (t.move s n p able).Has q) : t.Has (movedFrom s (n :: p) q) := by
  rw [has_iff, ← move_node t s n p able q has]
  exact (has_iff _ q).mp has

theorem move_lands : (t.move s n p able).Has (n :: p) := by
  rw [has_iff]
  change movedNode t.node s (n :: p) ([] ++ n :: p) ≠ none
  rw [moved_below]
  exact (has_iff t s).mp able.2.1

theorem move_injective (q q' : List Name) (has : (t.move s n p able).Has q) (has' : (t.move s n p able).Has q')
    (same : movedFrom s (n :: p) q = movedFrom s (n :: p) q') : q = q' := by
  rw [has_iff] at has has'
  by_cases below : n :: p <:+ q
  · obtain ⟨r, rfl⟩ := below
    by_cases below' : n :: p <:+ q'
    · obtain ⟨r', rfl⟩ := below'
      rw [moved_from_below, moved_from_below] at same
      rw [List.append_cancel_right same]
    · rw [moved_from_below, moved_from_other s _ q' below'] at same
      exact absurd (same ▸ List.suffix_append r s) (moved_other t.node s (n :: p) q' below' has').1
  · by_cases below' : n :: p <:+ q'
    · obtain ⟨r', rfl⟩ := below'
      rw [moved_from_below, moved_from_other s _ q below] at same
      exact absurd (same ▸ List.suffix_append r' s) (moved_other t.node s (n :: p) q below has).1
    · rwa [moved_from_other s _ q below, moved_from_other s _ q' below'] at same

theorem move_keeps (q : List Name) (has : t.Has q) :
    q = n :: p ∨ ∃ q', (t.move s n p able).Has q' ∧ movedFrom s (n :: p) q' = q := by
  by_cases below : s <:+ q
  · obtain ⟨r, rfl⟩ := below
    refine .inr ⟨r ++ n :: p, ?_, moved_from_below s (n :: p) r⟩
    rw [has_iff]
    change movedNode t.node s (n :: p) (r ++ n :: p) ≠ none
    rw [moved_below]
    exact (has_iff t _).mp has
  · by_cases under : n :: p <:+ q
    · left
      rcases own_or_below (n :: p) q under with same | ⟨m, lower⟩
      · exact same
      · exact absurd (above_has t q (m :: n :: p) lower has) ((entries_nil t _).mp able.2.2.2.2.1 m)
    · refine .inr ⟨q, ?_, moved_from_other s _ q under⟩
      rw [has_iff]
      change movedNode t.node s (n :: p) q ≠ none
      rw [movedNode, if_neg under, if_neg below]
      exact (has_iff t q).mp has

variable (file : ¬t.IsDir s)
include file

omit [DecidableEq Name] in
theorem file_end (r : List Name) (has : t.Has (r ++ s)) : r = [] := by
  rcases own_or_below s (r ++ s) (List.suffix_append r s) with same | ⟨m, lower⟩
  · exact List.append_left_eq_self.mp same
  · exact absurd (parent_dir t m s (above_has t _ _ lower has)) file

theorem move_file_end (q : List Name) (has : (t.move s n p able).Has q) (below : n :: p <:+ q) : q = n :: p := by
  obtain ⟨r, rfl⟩ := below
  rw [has_iff] at has
  change movedNode t.node s (n :: p) (r ++ n :: p) ≠ none at has
  rw [moved_below] at has
  rw [file_end t s file r ((has_iff t _).mpr has), List.nil_append]

theorem move_file_from (q : List Name) (has : (t.move s n p able).Has q) :
    q = n :: p ∨ q ≠ n :: p ∧ movedFrom s (n :: p) q = q := by
  by_cases below : n :: p <:+ q
  · exact .inl (move_file_end t s n p able file q has below)
  · exact .inr ⟨fun same => below (same ▸ List.suffix_rfl), moved_from_other s _ q below⟩

theorem move_file_keeps (q : List Name) (has : t.Has q) (stays : q ≠ s) (free : q ≠ n :: p) :
    (t.move s n p able).Has q ∧ movedFrom s (n :: p) q = q := by
  rcases move_keeps t s n p able q has with same | ⟨q', has', came⟩
  · exact absurd same free
  · rcases move_file_from t s n p able file q' has' with rfl | ⟨-, fixed⟩
    · rw [moved_from_top] at came
      exact absurd came.symm stays
    · rw [fixed] at came
      subst came
      exact ⟨has', fixed⟩

theorem move_dirs (q : List Name) : (t.move s n p able).IsDir q ↔ t.IsDir q := by
  obtain ⟨-, has, -, -, empty, alike⟩ := able
  change (movedNode t.node s (n :: p) q).map Node.kind = _ ↔ (t.node q).map Node.kind = _
  by_cases below : n :: p <:+ q
  · obtain ⟨r, rfl⟩ := below
    rw [moved_below]
    refine iff_of_false (fun dir => ?_) fun dir => ?_
    · have alone := file_end t s file r (dir_has t _ dir)
      subst alone
      exact file dir
    · rcases own_or_below (n :: p) _ (List.suffix_append r (n :: p)) with same | ⟨m, lower⟩
      · rw [same] at dir
        exact file ((alike (dir_has t _ dir)).mpr dir)
      · exact (entries_nil t _).mp empty m (above_has t _ _ lower (dir_has t _ dir))
  · rw [movedNode, if_neg below]
    split
    · rename_i under
      obtain ⟨r, rfl⟩ := under
      refine iff_of_false (by simp) fun dir => ?_
      have alone := file_end t s file r (dir_has t _ dir)
      subst alone
      exact file dir
    · exact Iff.rfl

end

end Yaup.Lib
