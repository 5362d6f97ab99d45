import Mathlib.Data.List.Basic

set_option autoImplicit false

namespace Yaup.Lib

variable {State Act : Type}

structure Move (State Act : Type) where
  before : State
  act : Act
  after : State

-- A run keeps every move it made, so a statement about "every state reached"
-- or "every step taken" is a statement about its list of moves.
inductive Run (step : State → Act → State → Prop) : State → List (Move State Act) → State → Prop where
  | nil (state : State) : Run step state [] state
  | cons (before after final : State) (act : Act) (moves : List (Move State Act))
      (taken : step before act after) (rest : Run step after moves final) :
      Run step before (⟨before, act, after⟩ :: moves) final

theorem run_moves_taken (step : State → Act → State → Prop) (first last : State)
    (moves : List (Move State Act)) (run : Run step first moves last) :
    ∀ move ∈ moves, step move.before move.act move.after := by
  induction run with
  | nil => simp
  | cons before after final act moves taken rest ih =>
      intro move member
      rcases List.mem_cons.mp member with same | later
      · subst same
        exact taken
      · exact ih move later

def Throughout (holds : State → Prop) (moves : List (Move State Act)) (last : State) : Prop :=
  (∀ move ∈ moves, holds move.before) ∧ holds last

-- A step that meets its guard keeps the invariant; then so does a guarded run.
theorem run_invariant (step : State → Act → State → Prop) (guard : State → Act → Prop)
    (holds : State → Prop)
    (kept : ∀ before act after, holds before → step before act after → guard before act → holds after)
    (first last : State) (moves : List (Move State Act)) (run : Run step first moves last)
    (start : holds first) (guarded : ∀ move ∈ moves, guard move.before move.act) :
    Throughout holds moves last := by
  induction run with
  | nil => exact ⟨by simp, start⟩
  | cons before after final act moves taken rest ih =>
      have next := kept before act after start taken (guarded ⟨before, act, after⟩ (by simp))
      obtain ⟨along, final⟩ := ih next (fun move member => guarded move (by simp [member]))
      refine ⟨?_, final⟩
      intro move member
      rcases List.mem_cons.mp member with same | later
      · subst same
        exact start
      · exact along move later

-- Where one step keeps the invariant and goes well exactly when it meets its guard, a run
-- does throughout exactly when all its steps meet theirs.
theorem run_right_iff (step : State → Act → State → Prop) (guard : State → Act → Prop)
    (holds : State → Prop) (good : Move State Act → Prop)
    (exact_step : ∀ before act after, holds before → step before act after →
      ((holds after ∧ good ⟨before, act, after⟩) ↔ guard before act))
    (first last : State) (moves : List (Move State Act)) (run : Run step first moves last)
    (start : holds first) :
    (Throughout holds moves last ∧ ∀ move ∈ moves, good move) ↔ ∀ move ∈ moves, guard move.before move.act := by
  induction run with
  | nil state => simp [Throughout, start]
  | cons before after final act moves taken rest ih =>
      have step_iff := exact_step before act after start taken
      rw [List.forall_mem_cons, List.forall_mem_cons, Throughout, List.forall_mem_cons, ← step_iff]
      constructor
      · rintro ⟨⟨⟨-, along⟩, final_holds⟩, well, later_well⟩
        have after_holds : holds after := by
          cases rest with
          | nil => exact final_holds
          | cons _ next _ later rest _ _ => exact along ⟨after, later, next⟩ (by simp)
        exact ⟨⟨after_holds, well⟩, (ih after_holds).mp ⟨⟨along, final_holds⟩, later_well⟩⟩
      · rintro ⟨⟨after_holds, well⟩, guarded⟩
        obtain ⟨⟨along, final_holds⟩, later_well⟩ := (ih after_holds).mpr guarded
        exact ⟨⟨⟨start, along⟩, final_holds⟩, well, later_well⟩

theorem run_invariant_iff (step : State → Act → State → Prop) (guard : State → Act → Prop)
    (holds : State → Prop)
    (exact_step : ∀ before act after, holds before → step before act after →
      (holds after ↔ guard before act))
    (first last : State) (moves : List (Move State Act)) (run : Run step first moves last)
    (start : holds first) :
    Throughout holds moves last ↔ ∀ move ∈ moves, guard move.before move.act := by
  have both := run_right_iff step guard holds (fun _ => True)
    (fun before act after held taken => by rw [and_true, exact_step before act after held taken])
    first last moves run start
  simpa using both

theorem run_moves (step : State → Act → State → Prop) (guard : State → Act → Prop)
    (holds : State → Prop) (good : Move State Act → Prop)
    (kept : ∀ before act after, holds before → step before act after → guard before act → holds after)
    (each : ∀ before act after, holds before → step before act after → guard before act →
      good ⟨before, act, after⟩)
    (first last : State) (moves : List (Move State Act)) (run : Run step first moves last)
    (start : holds first) (guarded : ∀ move ∈ moves, guard move.before move.act) :
    ∀ move ∈ moves, good move := by
  have along := run_invariant step guard holds kept first last moves run start guarded
  intro move member
  exact each move.before move.act move.after (along.1 move member)
    (run_moves_taken step first last moves run move member) (guarded move member)

end Yaup.Lib
