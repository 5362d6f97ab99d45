import Mathlib.Data.List.Basic
import Mathlib.Data.List.Infix
import Mathlib.Logic.Function.Basic

set_option autoImplicit false

namespace Yaup.Lib

variable {α σ : Type}

theorem foldl_injective (step : σ → α → σ) (keeps : ∀ a, Function.Injective fun s => step s a) (rest : List α) :
    Function.Injective fun s => rest.foldl step s := by
  induction rest with
  | nil => exact fun s t same => same
  | cons a rest ih => exact ih.comp (keeps a)

structure OneDiffers (a b : List α) : Prop where
  length : a.length = b.length
  place : ∃ i : Nat, a[i]? ≠ b[i]? ∧ ∀ j : Nat, j ≠ i → a[j]? = b[j]?

theorem one_differs_parts (a b : List α) (one : OneDiffers a b) :
    ∃ before x y after, a = before ++ x :: after ∧ b = before ++ y :: after ∧ x ≠ y := by
  obtain ⟨length, i, other, same⟩ := one
  have left : i < a.length := by
    by_contra beyond
    have none := List.getElem?_eq_none (Nat.not_lt.mp beyond)
    exact other (none.trans (List.getElem?_eq_none (length ▸ Nat.not_lt.mp beyond)).symm)
  have right : i < b.length := length ▸ left
  have front : a.take i = b.take i := by
    refine List.ext_getElem? fun j => ?_
    rw [List.getElem?_take, List.getElem?_take]
    split
    · rename_i below
      exact same j (Nat.ne_of_lt below)
    · rfl
  have back : a.drop (i + 1) = b.drop (i + 1) := by
    refine List.ext_getElem? fun j => ?_
    rw [List.getElem?_drop, List.getElem?_drop]
    exact same (i + 1 + j) (by omega)
  refine ⟨a.take i, a[i], b[i], a.drop (i + 1), ?_, ?_, fun equal => other ?_⟩
  · rw [← List.drop_eq_getElem_cons left, List.take_append_drop]
  · rw [front, back, ← List.drop_eq_getElem_cons right, List.take_append_drop]
  · rw [List.getElem?_eq_getElem left, List.getElem?_eq_getElem right, equal]

theorem foldl_detects (step : σ → α → σ) (keeps : ∀ a, Function.Injective fun s => step s a)
    (tells : ∀ s, Function.Injective (step s)) (start : σ) (a b : List α) (one : OneDiffers a b) :
    a.foldl step start ≠ b.foldl step start := by
  obtain ⟨before, x, y, after, rfl, rfl, apart⟩ := one_differs_parts a b one
  rw [List.foldl_append, List.foldl_append, List.foldl_cons, List.foldl_cons]
  exact fun same => apart (tells _ (foldl_injective step keeps after same))

section
variable (p : α → Prop) [DecidablePred p]

theorem outputs_fewer (entries : List (α × Option α)) (sound : ∀ a b, (a, some b) ∈ entries → p b → p a)
    (good : ∀ b ∈ entries.filterMap Prod.snd, p b) :
    (entries.filterMap Prod.snd).length ≤ ((entries.map Prod.fst).filter p).length := by
  induction entries with
  | nil => exact Nat.le_refl 0
  | cons entry rest ih =>
      obtain ⟨a, output⟩ := entry
      have behind := ih fun c d member => sound c d (List.mem_cons_of_mem _ member)
      cases output with
      | none =>
          have shorter := behind good
          rw [List.map_cons, List.filter_cons]
          split
          · exact Nat.le_succ_of_le shorter
          · exact shorter
      | some b =>
          have holds := sound a b List.mem_cons_self (good b List.mem_cons_self)
          rw [List.map_cons, List.filter_cons_of_pos (by simpa using holds)]
          exact Nat.succ_le_succ (behind fun c member => good c (List.mem_cons_of_mem _ member))

-- Where all that comes out is the entries with p, the first entry comes out as it should: if it
-- had p and did not, too little would come out of the others.
theorem outputs_first (a : α) (output : Option α) (rest : List (α × Option α))
    (sound : ∀ c d, (c, some d) ∈ (a, output) :: rest → p d → p c)
    (same : ((a, output) :: rest).filterMap Prod.snd = (((a, output) :: rest).map Prod.fst).filter p) :
    output = (if p a then some a else none) ∧ rest.filterMap Prod.snd = (rest.map Prod.fst).filter p := by
  have good : ∀ b ∈ ((a, output) :: rest).filterMap Prod.snd, p b := by
    rw [same]
    exact fun b member => by simpa using (List.mem_filter.mp member).2
  rw [List.map_cons] at same
  cases output with
  | none =>
      by_cases holds : p a
      · have shorter := outputs_fewer p rest (fun c d member => sound c d (List.mem_cons_of_mem _ member)) good
        rw [List.filter_cons_of_pos (by simpa using holds)] at same
        have length := congrArg List.length same
        simp only [List.filterMap_cons_none, List.length_cons] at length
        omega
      · rw [List.filter_cons_of_neg (by simpa using holds)] at same
        exact ⟨(if_neg holds).symm, same⟩
  | some b =>
      have holds := sound a b List.mem_cons_self (good b List.mem_cons_self)
      rw [List.filter_cons_of_pos (by simpa using holds)] at same
      obtain ⟨rfl, behind⟩ := List.cons.inj same
      exact ⟨(if_pos holds).symm, behind⟩

theorem outputs_match (entries : List (α × Option α))
    (each : ∀ a output, (a, output) ∈ entries → output = if p a then some a else none) :
    entries.filterMap Prod.snd = (entries.map Prod.fst).filter p := by
  induction entries with
  | nil => rfl
  | cons entry rest ih =>
      obtain ⟨a, output⟩ := entry
      have behind := ih fun c d member => each c d (List.mem_cons_of_mem _ member)
      have here := each a output List.mem_cons_self
      rw [List.map_cons]
      by_cases holds : p a
      · rw [if_pos holds] at here
        subst here
        rw [List.filter_cons_of_pos (by simpa using holds), ← behind]
        rfl
      · rw [if_neg holds] at here
        subst here
        rw [List.filter_cons_of_neg (by simpa using holds), ← behind]
        rfl

theorem outputs_aligned (entries : List (α × Option α)) (sound : ∀ a b, (a, some b) ∈ entries → p b → p a) :
    entries.filterMap Prod.snd = (entries.map Prod.fst).filter p ↔
      ∀ a output, (a, output) ∈ entries → output = if p a then some a else none := by
  refine ⟨fun same => ?_, outputs_match p entries⟩
  induction entries with
  | nil => exact fun a output member => absurd member List.not_mem_nil
  | cons entry rest ih =>
      obtain ⟨first, later⟩ := outputs_first p entry.1 entry.2 rest sound same
      intro a output member
      rcases List.mem_cons.mp member with rfl | behind
      · exact first
      · exact ih (fun c d inside => sound c d (List.mem_cons_of_mem _ inside)) later a output behind

end

section
variable [DecidableEq α]

def commonPrefix : List α → List α → List α
  | a :: left, b :: right => if a = b then a :: commonPrefix left right else []
  | _, _ => []

theorem common_prefix_left (left right : List α) : commonPrefix left right <+: left := by
  induction left generalizing right with
  | nil => exact List.nil_prefix
  | cons a left ih =>
      cases right with
      | nil => exact List.nil_prefix
      | cons b right =>
          rw [commonPrefix]
          split
          · exact (List.prefix_cons_inj a).mpr (ih right)
          · exact List.nil_prefix

theorem common_prefix_comm (left right : List α) : commonPrefix left right = commonPrefix right left := by
  induction left generalizing right with
  | nil => cases right <;> rfl
  | cons a left ih =>
      cases right with
      | nil => rfl
      | cons b right =>
          by_cases same : a = b
          · subst same
            rw [commonPrefix, commonPrefix, if_pos rfl, if_pos rfl, ih]
          · rw [commonPrefix, commonPrefix, if_neg same, if_neg (Ne.symm same)]

theorem common_prefix_stops (start left right : List α) (a b : α) (apart : a ≠ b) :
    commonPrefix (start ++ a :: left) (start ++ b :: right) = start := by
  induction start with
  | nil => exact if_neg apart
  | cons c start ih => rw [List.cons_append, List.cons_append, commonPrefix, if_pos rfl, ih]

end

end Yaup.Lib
