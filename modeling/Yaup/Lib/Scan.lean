import Mathlib.Data.List.Basic

set_option autoImplicit false

namespace Yaup.Lib

variable {α : Type}

-- A table search that stops at the first hit, and carries the first idle entry it
-- passed on the way.
def scan (hit idle : α → Bool) : Option α → List α → α ⊕ Option α
  | free, [] => .inr free
  | free, entry :: rest =>
      if hit entry then .inl entry
      else scan hit idle (if free.isNone && idle entry then some entry else free) rest

theorem scan_searches (hit idle : α → Bool) (free : Option α) (entries : List α) :
    scan hit idle free entries =
      ((entries.find? hit).map .inl).getD (.inr (free.or (entries.find? idle))) := by
  induction entries generalizing free with
  | nil => simp [scan]
  | cons entry rest ih =>
      rw [scan, List.find?_cons, List.find?_cons]
      cases found : hit entry with
      | true => rfl
      | false =>
          rw [if_neg Bool.false_ne_true, ih]
          cases free with
          | some first => simp
          | none => cases idle entry <;> simp

def Leads (sought passed : α → Prop) (entries : List α) (entry : α) : Prop :=
  ∃ before behind, entries = before ++ entry :: behind ∧ sought entry ∧ ∀ other ∈ before, passed other

section
variable (sought passed : α → Prop)

theorem leads_nil (entry : α) : ¬Leads sought passed [] entry := by
  rintro ⟨before, behind, whole, -⟩
  simp at whole

theorem leads_cons (entry first : α) (rest : List α) :
    Leads sought passed (first :: rest) entry ↔
      (sought first ∧ entry = first) ∨ (passed first ∧ Leads sought passed rest entry) := by
  constructor
  · rintro ⟨before, behind, whole, hit, others⟩
    cases before with
    | nil =>
        cases whole
        exact .inl ⟨hit, rfl⟩
    | cons other before =>
        cases whole
        rw [List.forall_mem_cons] at others
        exact .inr ⟨others.1, before, behind, rfl, hit, others.2⟩
  · rintro (⟨hit, rfl⟩ | ⟨over_first, before, behind, rfl, hit, others⟩)
    · exact ⟨[], rest, rfl, hit, by simp⟩
    · exact ⟨first :: before, behind, rfl, hit, List.forall_mem_cons.mpr ⟨over_first, others⟩⟩

theorem leads_mem (entries : List α) (entry : α) (leads : Leads sought passed entries entry) :
    entry ∈ entries ∧ sought entry := by
  obtain ⟨before, behind, rfl, hit, -⟩ := leads
  exact ⟨List.mem_append_right before List.mem_cons_self, hit⟩

theorem leads_weaken (weaker : α → Prop) (weaken : ∀ entry, passed entry → weaker entry) (entries : List α) (entry : α)
    (leads : Leads sought passed entries entry) : Leads sought weaker entries entry := by
  obtain ⟨before, behind, whole, hit, others⟩ := leads
  exact ⟨before, behind, whole, hit, fun other member => weaken other (others other member)⟩

theorem leads_exists (entries : List α) (entry : α) (member : entry ∈ entries) (hit : sought entry) :
    ∃ first, Leads sought (fun other => ¬sought other) entries first := by
  induction entries with
  | nil => cases member
  | cons head rest ih =>
      by_cases here : sought head
      · exact ⟨head, (leads_cons _ _ head head rest).mpr (.inl ⟨here, rfl⟩)⟩
      · rcases List.mem_cons.mp member with rfl | later
        · exact absurd hit here
        · obtain ⟨first, deeper⟩ := ih later
          exact ⟨first, (leads_cons _ _ first head rest).mpr (.inr ⟨here, deeper⟩)⟩

theorem leads_unique (apart : ∀ entry, passed entry → ¬sought entry) (entries : List α) (entry other : α)
    (first : Leads sought passed entries entry) (second : Leads sought passed entries other) : entry = other := by
  induction entries with
  | nil => exact absurd first (leads_nil _ _ _)
  | cons head rest ih =>
      rcases (leads_cons _ _ entry head rest).mp first with ⟨hit, rfl⟩ | ⟨over_head, deeper⟩
      · rcases (leads_cons _ _ other entry rest).mp second with ⟨-, same⟩ | ⟨over_head, -⟩
        · exact same.symm
        · exact absurd hit (apart entry over_head)
      · rcases (leads_cons _ _ other head rest).mp second with ⟨hit, -⟩ | ⟨-, later⟩
        · exact absurd hit (apart head over_head)
        · exact ih deeper later

end

theorem leads_find (sought : α → Prop) [DecidablePred sought] (entries : List α) (entry : α) :
    entries.find? (fun other => decide (sought other)) = some entry ↔
      Leads sought (fun other => ¬sought other) entries entry := by
  rw [List.find?_eq_some_iff_append]
  constructor
  · rintro ⟨hit, before, behind, whole, others⟩
    exact ⟨before, behind, whole, of_decide_eq_true hit, fun other member => by simpa using others other member⟩
  · rintro ⟨before, behind, whole, hit, others⟩
    exact ⟨decide_eq_true hit, before, behind, whole, fun other member => by simpa using others other member⟩

end Yaup.Lib
