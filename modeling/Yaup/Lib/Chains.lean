import Mathlib.Logic.Relation
import Mathlib.Order.Basic

set_option autoImplicit false

namespace Yaup.Lib

variable {α : Type} (link : α → α → Prop)

-- Going on from a along the links comes to a stop at e.
structure LastLink (a e : α) : Prop where
  reached : Relation.ReflTransGen link a e
  stops : ∀ next, ¬link e next

theorem last_link_here (e : α) (stops : ∀ next, ¬link e next) : LastLink link e e := ⟨.refl, stops⟩

theorem last_link_next (a b e : α) (linked : link a b) (ends : LastLink link b e) : LastLink link a e :=
  ⟨.head linked ends.reached, ends.stops⟩

theorem last_link_exists (left : α → Nat) (nearer : ∀ a b, link a b → left b < left a) (a : α) : ∃ e, LastLink link a e := by
  by_cases more : ∃ b, link a b
  · obtain ⟨b, linked⟩ := more
    obtain ⟨e, ends⟩ := last_link_exists left nearer b
    exact ⟨e, last_link_next link a b e linked ends⟩
  · exact ⟨a, last_link_here link a fun b linked => more ⟨b, linked⟩⟩
termination_by left a
decreasing_by exact nearer a b linked

theorem last_link_carry {β : Type} (value : α → β) (same : ∀ a b, link a b → value a = value b) (a e : α)
    (ends : LastLink link a e) : value a = value e := by
  obtain ⟨reached, -⟩ := ends
  induction reached using Relation.ReflTransGen.head_induction_on with
  | refl => rfl
  | head linked _ ih => exact (same _ _ linked).trans ih

end Yaup.Lib
