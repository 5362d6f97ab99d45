import Mathlib.Logic.Basic

set_option autoImplicit false

namespace Yaup.Lib

variable {Err State α β : Type}

theorem except_bind_ok (x : Except Err α) (f : α → Except Err β) (value : β) :
    (x >>= f) = .ok value ↔ ∃ a, x = .ok a ∧ f a = .ok value := by
  cases x with
  | ok a =>
      constructor
      · exact fun rest => ⟨a, rfl, rest⟩
      · rintro ⟨_, same, rest⟩
        cases same
        exact rest
  | error e =>
      constructor
      · intro failed
        cases failed
      · rintro ⟨_, same, _⟩
        cases same

theorem run_bind_ok (x : EStateM Err State α) (f : α → EStateM Err State β)
    (before after : State) (value : β) :
    (x >>= f).run before = .ok value after ↔
      ∃ a middle, x.run before = .ok a middle ∧ (f a).run middle = .ok value after := by
  rw [EStateM.run_bind]
  cases x.run before with
  | ok a middle =>
      constructor
      · intro rest
        exact ⟨a, middle, rfl, rest⟩
      · rintro ⟨_, _, same, rest⟩
        cases same
        exact rest
  | error e middle => simp

theorem run_bind_error (x : EStateM Err State α) (f : α → EStateM Err State β)
    (before after : State) (e : Err) :
    (x >>= f).run before = .error e after ↔
      x.run before = .error e after ∨
        ∃ a middle, x.run before = .ok a middle ∧ (f a).run middle = .error e after := by
  rw [EStateM.run_bind]
  cases x.run before with
  | ok a middle =>
      constructor
      · intro rest
        exact .inr ⟨a, middle, rfl, rest⟩
      · rintro (halted | ⟨_, _, same, rest⟩)
        · cases halted
        · cases same
          exact rest
  | error e middle => simp

@[simp] theorem run_throw (e : Err) (s : State) :
    (throw e : EStateM Err State α).run s = .error e s := rfl

@[simp] theorem run_map (x : EStateM Err State α) (f : α → β) (s : State) :
    (f <$> x).run s = match x.run s with
      | .ok a t => .ok (f a) t
      | .error e t => .error e t := rfl

theorem run_get_bind (rest : State → EStateM Err State α) (s : State) : (get >>= rest).run s = (rest s).run s := rfl

theorem discard_run (x : EStateM Err State α) (s t : State) (a : α) (done : x.run s = .ok a t) :
    (discard x).run s = .ok () t :=
  (run_bind_ok _ _ _ _ _).mpr ⟨a, t, done, rfl⟩

theorem discard_done (x : EStateM Err State α) (s t : State) (done : (discard x).run s = .ok () t) :
    ∃ a, x.run s = .ok a t := by
  obtain ⟨a, u, first, rest⟩ := (run_bind_ok _ _ _ _ _).mp done
  cases rest
  exact ⟨a, first⟩

end Yaup.Lib
