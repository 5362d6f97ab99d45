import Mathlib.Algebra.BigOperators.Group.Finset.Piecewise

set_option autoImplicit false

namespace Yaup.Lib

variable {Handle : Type}

inductive Use (Handle : Type) where
  | gets (h : Handle)
  | gives (h : Handle)
deriving DecidableEq

def Use.getting : Use Handle → Bool
  | .gets _ => true
  | .gives _ => false

def net (uses : List (Use Handle)) : Int :=
  (uses.countP Use.getting : Int) - uses.countP fun use => !use.getting

@[simp] theorem gets_getting (h : Handle) : Use.getting (.gets h) = true := rfl

@[simp] theorem gives_getting (h : Handle) : Use.getting (.gives h) = false := rfl

@[simp] theorem net_nil : net ([] : List (Use Handle)) = 0 := rfl

theorem net_append (left right : List (Use Handle)) : net (left ++ right) = net left + net right := by
  simp only [net, List.countP_append]
  omega

theorem net_gets (h : Handle) (rest : List (Use Handle)) : net (.gets h :: rest) = net rest + 1 := by
  simp only [net, List.countP_cons, gets_getting]
  simp
  omega

theorem net_gives (h : Handle) (rest : List (Use Handle)) : net (.gives h :: rest) = net rest - 1 := by
  simp only [net, List.countP_cons, gives_getting]
  simp
  omega

variable [DecidableEq Handle]

def Balanced (uses : List (Use Handle)) : Prop := ∀ h, uses.count (.gets h) = uses.count (.gives h)

theorem balanced_nil : Balanced ([] : List (Use Handle)) := fun _ => rfl

theorem balanced_append (left right : List (Use Handle)) (first : Balanced left) (second : Balanced right) :
    Balanced (left ++ right) := by
  intro h
  rw [List.count_append, List.count_append, first h, second h]

theorem balanced_pair (h : Handle) : Balanced [.gets h, .gives h] := by
  intro g
  by_cases same : h = g
  · subst same
    simp
  · simp [same]

theorem balanced_flat_map {Item : Type} (items : List Item) (uses : Item → List (Use Handle))
    (each : ∀ item ∈ items, Balanced (uses item)) : Balanced (items.flatMap uses) := by
  induction items with
  | nil => exact balanced_nil
  | cons item rest ih =>
      rw [List.flatMap_cons]
      exact balanced_append _ _ (each item List.mem_cons_self) (ih fun other member => each other (List.mem_cons_of_mem _ member))

theorem getting_sum [Fintype Handle] (uses : List (Use Handle)) :
    uses.countP Use.getting = ∑ h, uses.count (.gets h) := by
  induction uses with
  | nil => simp
  | cons use rest ih =>
      rw [List.countP_cons, ih]
      cases use with
      | gets g => simp [List.count_cons, Finset.sum_add_distrib, Finset.sum_ite_eq]
      | gives g => simp

theorem giving_sum [Fintype Handle] (uses : List (Use Handle)) :
    (uses.countP fun use => !use.getting) = ∑ h, uses.count (.gives h) := by
  induction uses with
  | nil => simp
  | cons use rest ih =>
      rw [List.countP_cons, ih]
      cases use with
      | gets g => simp
      | gives g => simp [List.count_cons, Finset.sum_add_distrib, Finset.sum_ite_eq]

theorem balanced_net [Fintype Handle] (uses : List (Use Handle)) (balanced : Balanced uses) : net uses = 0 := by
  rw [net, getting_sum, giving_sum, Finset.sum_congr rfl fun h _ => balanced h]
  exact Int.sub_self _

end Yaup.Lib
