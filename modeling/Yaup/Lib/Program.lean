import Mathlib.Logic.Function.Basic
import Yaup.Lib.Outcome

set_option autoImplicit false

namespace Yaup.Lib

variable {State Lock Err Note α β : Type}

-- A program one step at a time: it looks at the shared state, changes it, asks for a
-- lock, gives one up, or notes something. A lock it is not given it waits for.
inductive Prog (State Lock Err Note α : Type) where
  | done (a : α)
  | halt (e : Err)
  | look (rest : State → Prog State Lock Err Note α)
  | update (change : State → State) (rest : Prog State Lock Err Note α)
  | take (l : Lock) (rest : Prog State Lock Err Note α)
  | give (l : Lock) (rest : Prog State Lock Err Note α)
  | note (n : Note) (rest : Prog State Lock Err Note α)

namespace Prog

def bind : Prog State Lock Err Note α → (α → Prog State Lock Err Note β) → Prog State Lock Err Note β
  | .done a, f => f a
  | .halt e, _ => .halt e
  | .look rest, f => .look fun s => (rest s).bind f
  | .update change rest, f => .update change (rest.bind f)
  | .take l rest, f => .take l (rest.bind f)
  | .give l rest, f => .give l (rest.bind f)
  | .note n rest, f => .note n (rest.bind f)

instance : Monad (Prog State Lock Err Note) where
  pure := .done
  bind := Prog.bind

def state : Prog State Lock Err Note State := .look .done

def change (f : State → State) : Prog State Lock Err Note Unit := .update f (.done ())

def acquire (l : Lock) : Prog State Lock Err Note Unit := .take l (.done ())

def release (l : Lock) : Prog State Lock Err Note Unit := .give l (.done ())

def tell (n : Note) : Prog State Lock Err Note Unit := .note n (.done ())

-- A program that no other runs beside, by what the lock operations do to the state.
def alone (acquire release : Lock → EStateM Err State Unit) : Prog State Lock Err Note α → EStateM Err State α
  | .done a => pure a
  | .halt e => throw e
  | .look rest => get >>= fun s => (rest s).alone acquire release
  | .update change rest => modify change >>= fun _ => rest.alone acquire release
  | .take l rest => acquire l >>= fun _ => rest.alone acquire release
  | .give l rest => release l >>= fun _ => rest.alone acquire release
  | .note _ rest => rest.alone acquire release

def notes (acquire release : Lock → EStateM Err State Unit) : Prog State Lock Err Note α → State → List Note
  | .done _, _ | .halt _, _ => []
  | .look rest, s => (rest s).notes acquire release s
  | .update change rest, s => rest.notes acquire release (change s)
  | .take l rest, s => match (acquire l).run s with
      | .ok _ t => rest.notes acquire release t
      | .error _ _ => []
  | .give l rest, s => match (release l).run s with
      | .ok _ t => rest.notes acquire release t
      | .error _ _ => []
  | .note n rest, s => n :: rest.notes acquire release s

def quiet : Prog State Lock Err Note α → Prog State Lock Err Note α
  | .done a => .done a
  | .halt e => .halt e
  | .look rest => .look fun s => (rest s).quiet
  | .update change rest => .update change rest.quiet
  | .take l rest => .take l rest.quiet
  | .give l rest => .give l rest.quiet
  | .note _ rest => rest.quiet

section
variable (acquire release : Lock → EStateM Err State Unit)

theorem alone_bind (x : Prog State Lock Err Note α) (f : α → Prog State Lock Err Note β) :
    (x >>= f).alone acquire release = x.alone acquire release >>= fun a => (f a).alone acquire release := by
  induction x with
  | done a => rfl
  | halt e => rfl
  | look rest ih =>
      funext s
      exact congrFun (ih s) s
  | update change rest ih =>
      funext s
      exact congrFun ih (change s)
  | take l rest ih =>
      funext s
      change ((acquire l) >>= fun _ => (rest >>= f).alone acquire release).run s = _
      rw [ih]
      change _ = ((acquire l >>= fun _ => rest.alone acquire release) >>= _).run s
      simp only [EStateM.run_bind]
      cases (acquire l).run s <;> rfl
  | give l rest ih =>
      funext s
      change ((release l) >>= fun _ => (rest >>= f).alone acquire release).run s = _
      rw [ih]
      change _ = ((release l >>= fun _ => rest.alone acquire release) >>= _).run s
      simp only [EStateM.run_bind]
      cases (release l).run s <;> rfl
  | note n rest ih => exact ih

@[simp] theorem alone_pure (a : α) : (pure a : Prog State Lock Err Note α).alone acquire release = pure a := rfl

@[simp] theorem alone_halt (e : Err) : (halt e : Prog State Lock Err Note α).alone acquire release = throw e := rfl

@[simp] theorem alone_state : (state : Prog State Lock Err Note State).alone acquire release = get := rfl

@[simp] theorem alone_change (f : State → State) :
    (change f : Prog State Lock Err Note Unit).alone acquire release = modify f := rfl

@[simp] theorem alone_acquire (l : Lock) :
    (Prog.acquire l : Prog State Lock Err Note Unit).alone acquire release = acquire l := by
  funext s
  change ((acquire l) >>= fun _ => pure ()).run s = (acquire l).run s
  rw [EStateM.run_bind]
  cases (acquire l).run s <;> rfl

@[simp] theorem alone_release (l : Lock) :
    (Prog.release l : Prog State Lock Err Note Unit).alone acquire release = release l := by
  funext s
  change ((release l) >>= fun _ => pure ()).run s = (release l).run s
  rw [EStateM.run_bind]
  cases (release l).run s <;> rfl

@[simp] theorem alone_tell (n : Note) :
    (tell n : Prog State Lock Err Note Unit).alone acquire release = pure () := rfl

theorem notes_bind (x : Prog State Lock Err Note α) (f : α → Prog State Lock Err Note β) (s : State) :
    (x >>= f).notes acquire release s = x.notes acquire release s ++
      match (x.alone acquire release).run s with
      | .ok a t => (f a).notes acquire release t
      | .error _ _ => [] := by
  induction x generalizing s with
  | done a => rfl
  | halt e => rfl
  | look rest ih => exact ih s s
  | update change rest ih => exact ih (change s)
  | take l rest ih =>
      change (match (acquire l).run s with
        | .ok _ t => (rest >>= f).notes acquire release t
        | .error _ _ => []) = (match (acquire l).run s with
        | .ok _ t => rest.notes acquire release t
        | .error _ _ => []) ++ match ((acquire l) >>= fun _ => rest.alone acquire release).run s with
        | .ok a t => (f a).notes acquire release t
        | .error _ _ => []
      rw [EStateM.run_bind]
      cases (acquire l).run s with
      | ok a t => exact ih t
      | error e t => rfl
  | give l rest ih =>
      change (match (release l).run s with
        | .ok _ t => (rest >>= f).notes acquire release t
        | .error _ _ => []) = (match (release l).run s with
        | .ok _ t => rest.notes acquire release t
        | .error _ _ => []) ++ match ((release l) >>= fun _ => rest.alone acquire release).run s with
        | .ok a t => (f a).notes acquire release t
        | .error _ _ => []
      rw [EStateM.run_bind]
      cases (release l).run s with
      | ok a t => exact ih t
      | error e t => rfl
  | note n rest ih =>
      change n :: (rest >>= f).notes acquire release s = _
      rw [ih]
      rfl

theorem quiet_alone (x : Prog State Lock Err Note α) :
    x.quiet.alone acquire release = x.alone acquire release := by
  induction x with
  | done a => rfl
  | halt e => rfl
  | look rest ih => exact congrArg (get >>= ·) (funext ih)
  | update change rest ih => exact congrArg (modify change >>= ·) (funext fun _ => ih)
  | take l rest ih => exact congrArg (acquire l >>= ·) (funext fun _ => ih)
  | give l rest ih => exact congrArg (release l >>= ·) (funext fun _ => ih)
  | note n rest ih => exact ih

theorem quiet_notes (x : Prog State Lock Err Note α) (s : State) : x.quiet.notes acquire release s = [] := by
  induction x generalizing s with
  | done a => rfl
  | halt e => rfl
  | look rest ih => exact ih s s
  | update change rest ih => exact ih (change s)
  | take l rest ih =>
      rw [quiet, notes]
      cases (acquire l).run s with
      | ok _ t => exact ih t
      | error e t => rfl
  | give l rest ih =>
      rw [quiet, notes]
      cases (release l).run s with
      | ok _ t => exact ih t
      | error e t => rfl
  | note n rest ih => exact ih s

def Returns (x : Prog State Lock Err Note α) (s : State) (made : List Note) (a : α) (t : State) : Prop :=
  (x.alone acquire release).run s = .ok a t ∧ x.notes acquire release s = made

theorem returns_bind (x : Prog State Lock Err Note α) (f : α → Prog State Lock Err Note β) (s t : State)
    (made : List Note) (b : β) :
    Returns acquire release (x >>= f) s made b t ↔
      ∃ a u first rest, Returns acquire release x s first a u ∧ Returns acquire release (f a) u rest b t ∧
        made = first ++ rest := by
  rw [Returns, alone_bind, run_bind_ok, notes_bind]
  constructor
  · rintro ⟨⟨a, u, ran, after⟩, rfl⟩
    rw [ran]
    exact ⟨a, u, _, _, ⟨ran, rfl⟩, ⟨after, rfl⟩, rfl⟩
  · rintro ⟨a, u, _, _, ⟨ran, rfl⟩, ⟨after, rfl⟩, rfl⟩
    refine ⟨⟨a, u, ran, after⟩, ?_⟩
    rw [ran]

theorem returns_pure (a b : α) (s t : State) (made : List Note) :
    Returns acquire release (pure a : Prog State Lock Err Note α) s made b t ↔ a = b ∧ s = t ∧ made = [] := by
  constructor
  · rintro ⟨ran, rfl⟩
    cases ran
    exact ⟨rfl, rfl, rfl⟩
  · rintro ⟨rfl, rfl, rfl⟩
    exact ⟨rfl, rfl⟩

theorem returns_halt (e : Err) (a : α) (s t : State) (made : List Note) :
    ¬Returns acquire release (halt e : Prog State Lock Err Note α) s made a t := by
  rintro ⟨ran, -⟩
  cases ran

theorem returns_tell (n : Note) (f : Unit → Prog State Lock Err Note β) (s t : State) (made : List Note) (b : β) :
    Returns acquire release (tell n >>= f) s made b t ↔
      ∃ rest, Returns acquire release (f ()) s rest b t ∧ made = n :: rest := by
  constructor
  · rintro ⟨ran, rfl⟩
    exact ⟨_, ⟨ran, rfl⟩, rfl⟩
  · rintro ⟨rest, ⟨ran, rfl⟩, rfl⟩
    exact ⟨ran, rfl⟩

def Silent (x : Prog State Lock Err Note α) : Prop := ∀ s, x.notes acquire release s = []

theorem silent_bind (x : Prog State Lock Err Note α) (f : α → Prog State Lock Err Note β)
    (first : Silent acquire release x) (rest : ∀ a, Silent acquire release (f a)) :
    Silent acquire release (x >>= f) := by
  intro s
  rw [notes_bind, first s, List.nil_append]
  cases (x.alone acquire release).run s with
  | ok a t => exact rest a t
  | error e t => rfl

theorem silent_pure (a : α) : Silent acquire release (pure a : Prog State Lock Err Note α) := fun _ => rfl

theorem silent_halt (e : Err) : Silent acquire release (halt e : Prog State Lock Err Note α) := fun _ => rfl

theorem silent_state (f : State → Prog State Lock Err Note β) (rest : ∀ s, Silent acquire release (f s)) :
    Silent acquire release (state >>= f) := fun s => rest s s

theorem silent_change (g : State → State) : Silent acquire release (change g : Prog State Lock Err Note Unit) :=
  fun _ => rfl

theorem silent_acquire (l : Lock) : Silent acquire release (Prog.acquire l : Prog State Lock Err Note Unit) := by
  intro s
  rw [Prog.acquire, notes]
  cases (acquire l).run s with
  | ok _ t => rfl
  | error e t => rfl

theorem silent_release (l : Lock) : Silent acquire release (Prog.release l : Prog State Lock Err Note Unit) := by
  intro s
  rw [Prog.release, notes]
  cases (release l).run s with
  | ok _ t => rfl
  | error e t => rfl

theorem returns_silent (x : Prog State Lock Err Note α) (f : α → Prog State Lock Err Note β) (s t : State)
    (made : List Note) (b : β) (silent : Silent acquire release x)
    (done : Returns acquire release (x >>= f) s made b t) :
    ∃ a u, (x.alone acquire release).run s = .ok a u ∧ Returns acquire release (f a) u made b t := by
  obtain ⟨a, u, _, rest, ⟨ran, rfl⟩, after, rfl⟩ := (returns_bind acquire release x f s t made b).mp done
  rw [silent s]
  exact ⟨a, u, ran, after⟩

def Stops (x : Prog State Lock Err Note α) (s t : State) : Prop :=
  x.notes acquire release s = [] ∧ ∃ e, (x.alone acquire release).run s = .error e t

theorem stops_halt (e : Err) (s : State) : Stops acquire release (halt e : Prog State Lock Err Note α) s s :=
  ⟨rfl, e, rfl⟩

theorem stops_bind (x : Prog State Lock Err Note α) (f : α → Prog State Lock Err Note β) (s t : State) :
    Stops acquire release (x >>= f) s t ↔
      Stops acquire release x s t ∨ ∃ a u, Returns acquire release x s [] a u ∧ Stops acquire release (f a) u t := by
  rw [Stops, notes_bind, alone_bind, List.append_eq_nil_iff]
  constructor
  · rintro ⟨⟨none, rest⟩, e, halted⟩
    rcases (run_bind_error _ _ s t e).mp halted with first | ⟨a, u, ran, after⟩
    · exact .inl ⟨none, e, first⟩
    · rw [ran] at rest
      exact .inr ⟨a, u, ⟨ran, none⟩, rest, e, after⟩
  · rintro (⟨none, e, halted⟩ | ⟨a, u, ⟨ran, none⟩, rest, e, after⟩)
    · rw [halted]
      exact ⟨⟨none, rfl⟩, e, (run_bind_error _ _ s t e).mpr (.inl halted)⟩
    · rw [ran]
      exact ⟨⟨none, rest⟩, e, (run_bind_error _ _ s t e).mpr (.inr ⟨a, u, ran, after⟩)⟩

theorem stops_silent (x : Prog State Lock Err Note α) (s : State) (silent : Silent acquire release x)
    (never : ¬∃ a t, (x.alone acquire release).run s = .ok a t) : ∃ t, Stops acquire release x s t := by
  cases ran : (x.alone acquire release).run s with
  | ok a t => exact absurd ⟨a, t, ran⟩ never
  | error e t => exact ⟨t, silent s, e, ran⟩

end

end Prog

end Yaup.Lib
