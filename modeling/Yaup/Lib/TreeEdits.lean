import Mathlib.Logic.Relation
import Yaup.Lib.TreeMove

set_option autoImplicit false

namespace Yaup.Lib

-- What is followed of an entry's attributes: its data and which data may come from outside the
-- tree, what an edit leaves alike, and what those of a new file are.
structure EditRules (Attr Data : Type) where
  data : Attr → Data
  outside : Data → Prop
  alike : Attr → Attr → Prop
  born : Attr → Prop
  refl : ∀ a, alike a a
  trans : ∀ a b c, alike a b → alike b c → alike a c
  grows : ∀ a b, born a → alike a b → born b

variable {Name Attr Data : Type} [DecidableEq Name] (rules : EditRules Attr Data)

omit [DecidableEq Name] in
def FromTree (t : Tree Name Attr) (data : Data) : Prop :=
  rules.outside data ∨ ∃ q entry, t.node q = some entry ∧ rules.data entry.attr = data

-- One edit: other attributes with the same data, a leaf that goes, a file that is written with
-- the data of an entry or from outside, or an entry that moves.
inductive Edit : Tree Name Attr → Tree Name Attr → Prop where
  | change (t : Tree Name Attr) (p : List Name) (f : Kind → Attr → Attr)
      (data : ∀ kind a, rules.data (f kind a) = rules.data a) (alike : ∀ kind a, rules.alike a (f kind a)) : Edit t (t.change p f)
  | erase (t : Tree Name Attr) (p : List Name) (leaf : t.Leaf p) : Edit t (t.erase p leaf)
  | write (t : Tree Name Attr) (n : Name) (p : List Name) (f : Option Attr → Attr) (dir : t.IsDir p)
      (free : ¬t.IsDir (n :: p)) (data : FromTree rules t (rules.data (f ((t.node (n :: p)).map Node.attr))))
      (alike : ∀ a, rules.alike a (f (some a))) (born : rules.born (f none)) : Edit t (t.write n p f dir free)
  | move (t : Tree Name Attr) (s : List Name) (n : Name) (p : List Name) (able : t.Movable s n p) :
      Edit t (t.move s n p able)

structure Traced (t t' : Tree Name Attr) (origin : List Name → Option (List Name)) : Prop where
  old : ∀ q r entry, t'.node q = some entry → origin q = some r →
    ∃ before, t.node r = some before ∧ before.kind = entry.kind ∧ rules.alike before.attr entry.attr
  new : ∀ q entry, t'.node q = some entry → origin q = none → entry.kind = .reg ∧ rules.born entry.attr
  apart : ∀ q q' r, t'.Has q → t'.Has q' → origin q = some r → origin q' = some r → q = q'
  data : ∀ q entry, t'.node q = some entry → FromTree rules t (rules.data entry.attr)

omit [DecidableEq Name] in
theorem node_data (t : Tree Name Attr) (q : List Name) (entry : Node Attr) (there : t.node q = some entry) :
    FromTree rules t (rules.data entry.attr) := .inr ⟨q, entry, there, rfl⟩

omit [DecidableEq Name] in
theorem node_has (t : Tree Name Attr) (q : List Name) (entry : Node Attr) (there : t.node q = some entry) : t.Has q := by
  rw [has_iff, there]
  exact Option.some_ne_none _

omit [DecidableEq Name] in
theorem traced_still (t t' : Tree Name Attr) (old : ∀ q entry, t'.node q = some entry →
      ∃ before, t.node q = some before ∧ before.kind = entry.kind ∧ rules.alike before.attr entry.attr ∧
        rules.data before.attr = rules.data entry.attr) : Traced rules t t' some where
  old := by
    intro q r entry there same
    cases same
    obtain ⟨before, was, kind, alike, -⟩ := old q entry there
    exact ⟨before, was, kind, alike⟩
  new := fun _ _ _ none => by cases none
  apart := by
    intro q q' r _ _ first second
    cases first
    exact (Option.some.inj second).symm
  data := by
    intro q entry there
    obtain ⟨before, was, -, -, data⟩ := old q entry there
    exact .inr ⟨q, before, was, data⟩

omit [DecidableEq Name] in
theorem traced_refl (t : Tree Name Attr) : Traced rules t t some :=
  traced_still rules t t fun _ entry there => ⟨entry, there, rfl, rules.refl _, rfl⟩

omit [DecidableEq Name] in
theorem traced_trans (t t' t'' : Tree Name Attr) (first second : List Name → Option (List Name))
    (before : Traced rules t t' first) (later : Traced rules t' t'' second) :
    Traced rules t t'' fun q => (second q).bind first where
  old := by
    intro q r entry there came
    obtain ⟨m, middle, start⟩ := Option.bind_eq_some_iff.mp came
    obtain ⟨mid, here, kind, alike⟩ := later.old q m entry there middle
    obtain ⟨was, at_, kind', alike'⟩ := before.old m r mid here start
    exact ⟨was, at_, kind'.trans kind, rules.trans _ _ _ alike' alike⟩
  new := by
    intro q entry there came
    cases middle : second q with
    | none => exact later.new q entry there middle
    | some m =>
        rw [middle] at came
        obtain ⟨mid, here, kind, alike⟩ := later.old q m entry there middle
        obtain ⟨reg, born⟩ := before.new m mid here came
        exact ⟨kind ▸ reg, rules.grows _ _ born alike⟩
  apart := by
    intro q q' r has has' came came'
    obtain ⟨m, middle, start⟩ := Option.bind_eq_some_iff.mp came
    obtain ⟨m', middle', start'⟩ := Option.bind_eq_some_iff.mp came'
    obtain ⟨entry, there⟩ := Option.ne_none_iff_exists'.mp ((has_iff _ _).mp has)
    obtain ⟨entry', there'⟩ := Option.ne_none_iff_exists'.mp ((has_iff _ _).mp has')
    obtain ⟨mid, here, -⟩ := later.old q m entry there middle
    obtain ⟨mid', here', -⟩ := later.old q' m' entry' there' middle'
    have same := before.apart m m' r (node_has t' m mid here) (node_has t' m' mid' here') start start'
    exact later.apart q q' m has has' middle (same ▸ middle')
  data := by
    intro q entry there
    rcases later.data q entry there with outside | ⟨m, mid, here, data⟩
    · exact .inl outside
    · rw [← data]
      exact before.data m mid here

theorem write_traced (t : Tree Name Attr) (n : Name) (p : List Name) (f : Option Attr → Attr) (dir : t.IsDir p)
    (free : ¬t.IsDir (n :: p)) (data : FromTree rules t (rules.data (f ((t.node (n :: p)).map Node.attr))))
    (alike : ∀ a, rules.alike a (f (some a))) (born : rules.born (f none)) :
    Traced rules t (t.write n p f dir free) fun q => if t.Has q then some q else none where
  old := by
    intro q r entry there came
    split at came
    · rename_i has
      cases came
      obtain ⟨before, was⟩ := Option.ne_none_iff_exists'.mp ((has_iff _ _).mp has)
      refine ⟨before, was, ?_⟩
      rw [write_node] at there
      split at there
      · rename_i same
        rw [same] at was
        rw [was] at there
        cases there
        exact ⟨rfl, alike _⟩
      · rw [was] at there
        cases there
        exact ⟨rfl, rules.refl _⟩
    · cases came
  new := by
    intro q entry there came
    split at came
    · cases came
    · rename_i missing
      rw [has_iff, not_not] at missing
      rw [write_node] at there
      split at there
      · rename_i same
        rw [same] at missing
        rw [missing] at there
        cases there
        exact ⟨rfl, born⟩
      · rw [missing] at there
        cases there
  apart := by
    intro q q' r _ _ came came'
    split at came
    · split at came'
      · cases came
        cases came'
        rfl
      · cases came'
    · cases came
  data := by
    intro q entry there
    rw [write_node] at there
    split at there
    · cases was : t.node (n :: p) with
      | none =>
          rw [was] at there data
          cases there
          exact data
      | some before =>
          rw [was] at there data
          cases there
          exact data
    · exact node_data rules t q entry there

theorem move_traced (t : Tree Name Attr) (s : List Name) (n : Name) (p : List Name) (able : t.Movable s n p) :
    Traced rules t (t.move s n p able) fun q => some (movedFrom s (n :: p) q) where
  old := by
    intro q r entry there came
    cases came
    rw [move_node t s n p able q (node_has _ q entry there)] at there
    exact ⟨entry, there, rfl, rules.refl _⟩
  new := fun _ _ _ none => by cases none
  apart := by
    intro q q' r has has' came came'
    exact move_injective t s n p able q q' has has' (Option.some.inj (came.trans came'.symm))
  data := by
    intro q entry there
    rw [move_node t s n p able q (node_has _ q entry there)] at there
    exact node_data rules t _ entry there

theorem edit_traced (t t' : Tree Name Attr) (edit : Edit rules t t') : ∃ origin, Traced rules t t' origin := by
  cases edit with
  | change p f data alike =>
      refine ⟨some, traced_still rules t _ fun q entry there => ?_⟩
      by_cases same : q = p
      · subst same
        rw [change_same] at there
        obtain ⟨before, was, rfl⟩ := Option.map_eq_some_iff.mp there
        exact ⟨before, was, rfl, alike _ _, (data _ _).symm⟩
      · rw [change_other t p q f same] at there
        exact ⟨entry, there, rfl, rules.refl _, rfl⟩
  | erase p leaf =>
      refine ⟨some, traced_still rules t _ fun q entry there => ?_⟩
      rw [erase_node] at there
      split at there
      · cases there
      · exact ⟨entry, there, rfl, rules.refl _, rfl⟩
  | write n p f dir free data alike born => exact ⟨_, write_traced rules t n p f dir free data alike born⟩
  | move s n p able => exact ⟨_, move_traced rules t s n p able⟩

-- By induction on the edits.
theorem edits_traced (t t' : Tree Name Attr) (edits : Relation.ReflTransGen (Edit rules) t t') :
    ∃ origin, Traced rules t t' origin := by
  induction edits with
  | refl => exact ⟨some, traced_refl rules t⟩
  | tail _ edit ih =>
      obtain ⟨first, before⟩ := ih
      obtain ⟨second, later⟩ := edit_traced rules _ _ edit
      exact ⟨_, traced_trans rules t _ _ first second before later⟩

end Yaup.Lib
