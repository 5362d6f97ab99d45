import Mathlib.Data.Fin.Tuple.Basic
import Mathlib.Logic.Function.Basic

set_option autoImplicit false

namespace Yaup.Lib

variable {n : Nat} {Key Value : Type}

def DistinctKeys (keys : Fin n → Option Key) : Prop := ∀ i j key, keys i = some key → keys j = some key → i = j

theorem distinct_put (keys : Fin n → Option Key) (key : Key) (i : Fin n) (distinct : DistinctKeys keys)
    (alone : ∀ j, j ≠ i → keys j ≠ some key) : DistinctKeys (Function.update keys i (some key)) := by
  intro a b other first second
  by_cases atA : a = i
  · by_cases atB : b = i
    · exact atA.trans atB.symm
    · subst atA
      rw [Function.update_self] at first
      rw [Function.update_of_ne atB, ← first] at second
      exact absurd second (alone b atB)
  · rw [Function.update_of_ne atA] at first
    by_cases atB : b = i
    · subst atB
      rw [Function.update_self] at second
      rw [← second] at first
      exact absurd first (alone a atA)
    · rw [Function.update_of_ne atB] at second
      exact distinct a b other first second

theorem distinct_clear (keys : Fin n → Option Key) (i : Fin n) (distinct : DistinctKeys keys) :
    DistinctKeys (Function.update keys i none) := by
  have only_before : ∀ a key, Function.update keys i none a = some key → keys a = some key := by
    intro a key here
    by_cases same : a = i
    · subst same
      rw [Function.update_self] at here
      cases here
    · rwa [Function.update_of_ne same] at here
  exact fun a b key first second => distinct a b key (only_before a key first) (only_before b key second)

section
variable [DecidableEq Key]

def readSlot (keys : Fin n → Option Key) (values : Fin n → Value) (key : Key) : Option Value :=
  (Fin.find? fun i => decide (keys i = some key)).map values

theorem read_slot_none (keys : Fin n → Option Key) (values : Fin n → Value) (key : Key) :
    readSlot keys values key = none ↔ ∀ i, keys i ≠ some key := by
  simp [readSlot]

theorem read_slot_first (keys : Fin n → Option Key) (values : Fin n → Value) (key : Key) (i : Fin n)
    (here : keys i = some key) (first : ∀ j < i, keys j ≠ some key) : readSlot keys values key = some (values i) := by
  have found : (Fin.find? fun i => decide (keys i = some key)) = some i := by
    rw [Fin.find?_eq_some_iff]
    exact ⟨decide_eq_true here, fun j early => decide_eq_false (first j early)⟩
  rw [readSlot, found]
  rfl

theorem read_slot_some (keys : Fin n → Option Key) (values : Fin n → Value) (key : Key) (i : Fin n)
    (distinct : DistinctKeys keys) (here : keys i = some key) : readSlot keys values key = some (values i) := by
  cases found : Fin.find? fun i => decide (keys i = some key) with
  | none =>
      have absent := Fin.find?_eq_none_iff.mp found i
      simp [here] at absent
  | some j =>
      have there : keys j = some key := by simpa using (Fin.find?_eq_some_iff.mp found).1
      rw [readSlot, found, distinct i j key here there]
      rfl

theorem read_slot_same (keys later : Fin n → Option Key) (values changed : Fin n → Value) (key : Key)
    (same : ∀ i, later i = some key ↔ keys i = some key) (kept : ∀ i, keys i = some key → changed i = values i) :
    readSlot later changed key = readSlot keys values key := by
  have search : (fun i => decide (later i = some key)) = fun i => decide (keys i = some key) := by
    funext i
    rw [decide_eq_decide]
    exact same i
  rw [readSlot, readSlot, search]
  cases found : Fin.find? fun i => decide (keys i = some key) with
  | none => rfl
  | some i =>
      have here : keys i = some key := by simpa using (Fin.find?_eq_some_iff.mp found).1
      rw [Option.map_some, Option.map_some, kept i here]

theorem read_put (keys : Fin n → Option Key) (values : Fin n → Value) (key : Key) (value : Value) (i : Fin n)
    (distinct : DistinctKeys keys) (alone : ∀ j, j ≠ i → keys j ≠ some key)
    (fits : ∀ other, keys i = some other → other = key) :
    readSlot (Function.update keys i (some key)) (Function.update values i value) =
      Function.update (readSlot keys values) key (some value) := by
  funext other
  by_cases same : other = key
  · subst same
    have put := distinct_put keys other i distinct alone
    rw [read_slot_some _ _ other i put (Function.update_self _ _ _), Function.update_self, Function.update_self]
  · have apart : ∀ j, keys j = some other → j ≠ i := by
      rintro j there rfl
      exact same (fits other there)
    rw [Function.update_of_ne same]
    refine read_slot_same _ _ _ _ other (fun j => ?_) fun j there => Function.update_of_ne (apart j there) _ _
    by_cases here : j = i
    · subst here
      rw [Function.update_self]
      exact iff_of_false (fun equal => same (Option.some.inj equal).symm) fun there => apart j there rfl
    · rw [Function.update_of_ne here]

theorem read_clear (keys : Fin n → Option Key) (values : Fin n → Value) (key : Key) (value : Value) (i : Fin n)
    (distinct : DistinctKeys keys) (here : keys i = some key) :
    readSlot (Function.update keys i none) (Function.update values i value) =
      Function.update (readSlot keys values) key none := by
  funext other
  by_cases same : other = key
  · subst same
    rw [Function.update_self, read_slot_none]
    intro j
    by_cases cleared : j = i
    · subst cleared
      rw [Function.update_self]
      exact (Option.some_ne_none other).symm
    · rw [Function.update_of_ne cleared]
      exact fun there => cleared (distinct j i other there here)
  · have apart : ∀ j, keys j = some other → j ≠ i := by
      rintro j there rfl
      exact same (Option.some.inj (there.symm.trans here))
    rw [Function.update_of_ne same]
    refine read_slot_same _ _ _ _ other (fun j => ?_) fun j there => Function.update_of_ne (apart j there) _ _
    by_cases cleared : j = i
    · subst cleared
      rw [Function.update_self]
      exact iff_of_false (Option.some_ne_none other).symm fun there => apart j there rfl
    · rw [Function.update_of_ne cleared]

end

section
variable {Slot : Type}

-- No key but the blank one is in two slots, where one slot may be left out.
def ApartBut (keys : Slot → Key) (blank : Key) (but : Option Slot) : Prop :=
  ∀ a b, some a ≠ but → some b ≠ but → keys a = keys b → keys a ≠ blank → a = b

theorem apart_leaving_out (keys : Slot → Key) (blank : Key) (but : Option Slot) (apart : ApartBut keys blank none) :
    ApartBut keys blank but := fun a b _ _ => apart a b (Option.some_ne_none a) (Option.some_ne_none b)

theorem apart_put_out [DecidableEq Slot] (keys : Slot → Key) (blank key : Key) (a : Slot)
    (apart : ApartBut keys blank (some a)) : ApartBut (Function.update keys a key) blank (some a) := by
  intro b c left right
  have first : b ≠ a := fun same => left (congrArg some same)
  have second : c ≠ a := fun same => right (congrArg some same)
  rw [Function.update_of_ne first, Function.update_of_ne second]
  exact apart b c left right

theorem apart_put_absent [DecidableEq Slot] (keys : Slot → Key) (blank key : Key) (a : Slot) (but : Option Slot)
    (apart : ApartBut keys blank but) (absent : ∀ b, keys b ≠ key) : ApartBut (Function.update keys a key) blank but := by
  intro b c left right same named
  by_cases first : b = a
  · subst first
    by_contra other
    rw [Function.update_self, Function.update_of_ne (Ne.symm other)] at same
    exact absent c same.symm
  · rw [Function.update_of_ne first] at same named
    by_cases second : c = a
    · subst second
      rw [Function.update_self] at same
      exact absurd same (absent b)
    · rw [Function.update_of_ne second] at same
      exact apart b c left right same named

theorem apart_put_fresh [DecidableEq Slot] (keys : Slot → Key) (blank key : Key) (a : Slot)
    (apart : ApartBut keys blank (some a)) (fresh : ∀ b, b ≠ a → keys b ≠ key) :
    ApartBut (Function.update keys a key) blank none := by
  intro b c _ _ same named
  by_cases left : b = a
  · subst left
    by_contra other
    rw [Function.update_self, Function.update_of_ne (Ne.symm other)] at same
    exact fresh c (Ne.symm other) same.symm
  · rw [Function.update_of_ne left] at same named
    by_cases right : c = a
    · subst right
      rw [Function.update_self] at same
      exact absurd same (fresh b left)
    · rw [Function.update_of_ne right] at same
      exact apart b c (fun out => left (Option.some.inj out)) (fun out => right (Option.some.inj out)) same named

end

end Yaup.Lib
