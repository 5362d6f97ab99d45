import Yaup.Lib.Outcome

set_option autoImplicit false

namespace Yaup.Lib

variable {Err State α β : Type}

-- From a state with `pre` the action returns into `post` or stops in `halt`.
def Triple (pre : State → Prop) (x : EStateM Err State α) (post : α → State → Prop)
    (halt : Err → State → Prop) : Prop :=
  ∀ s, pre s → (∀ a t, x.run s = .ok a t → post a t) ∧ ∀ e t, x.run s = .error e t → halt e t

theorem triple_pure (pre : State → Prop) (a : α) (post : α → State → Prop) (halt : Err → State → Prop)
    (entails : ∀ s, pre s → post a s) : Triple pre (pure a) post halt := by
  intro s start
  refine ⟨?_, ?_⟩
  · intro b t done
    cases done
    exact entails s start
  · intro e t halted
    cases halted

theorem triple_absurd (x : EStateM Err State α) (post : α → State → Prop) (halt : Err → State → Prop) :
    Triple (fun _ => False) x post halt :=
  fun _ impossible => impossible.elim

theorem triple_throw (pre : State → Prop) (e : Err) (post : α → State → Prop) (halt : Err → State → Prop)
    (entails : ∀ s, pre s → halt e s) : Triple pre (throw e : EStateM Err State α) post halt := by
  intro s start
  refine ⟨?_, ?_⟩
  · intro b t done
    cases done
  · intro e t halted
    cases halted
    exact entails s start

theorem triple_get (pre : State → Prop) (f : State → EStateM Err State β) (post : β → State → Prop)
    (halt : Err → State → Prop) (rest : ∀ s, pre s → Triple pre (f s) post halt) :
    Triple pre (get >>= f) post halt := by
  intro s start
  exact rest s start s start

theorem triple_modify (pre : State → Prop) (f : State → State) (post : Unit → State → Prop)
    (halt : Err → State → Prop) (entails : ∀ s, pre s → post () (f s)) : Triple pre (modify f) post halt := by
  intro s start
  refine ⟨?_, ?_⟩
  · intro a t done
    cases done
    exact entails s start
  · intro e t halted
    cases halted

theorem triple_bind (pre : State → Prop) (x : EStateM Err State α) (f : α → EStateM Err State β)
    (middle : α → State → Prop) (post : β → State → Prop) (halt : Err → State → Prop)
    (first : Triple pre x middle halt) (second : ∀ a, Triple (middle a) (f a) post halt) :
    Triple pre (x >>= f) post halt := by
  intro s start
  obtain ⟨returned, stopped⟩ := first s start
  refine ⟨?_, ?_⟩
  · intro b t done
    obtain ⟨a, u, head, tail⟩ := (run_bind_ok x f s t b).mp done
    exact (second a u (returned a u head)).1 b t tail
  · intro e t halted
    rcases (run_bind_error x f s t e).mp halted with head | ⟨a, u, head, tail⟩
    · exact stopped e t head
    · exact (second a u (returned a u head)).2 e t tail

theorem triple_returns (pre : State → Prop) (x : EStateM Err State α) (post : α → State → Prop)
    (halt : Err → State → Prop) (returns : ∀ s, pre s → ∃ a t, x.run s = .ok a t ∧ post a t) :
    Triple pre x post halt := by
  intro s start
  obtain ⟨a, t, done, reached⟩ := returns s start
  refine ⟨?_, ?_⟩
  · intro b u same
    rw [done] at same
    cases same
    exact reached
  · intro e u same
    rw [done] at same
    cases same

theorem triple_total (pre : State → Prop) (x : EStateM Err State α) (post : α → State → Prop)
    (total : Triple pre x post fun _ _ => False) (s : State) (start : pre s) : ∃ a t, x.run s = .ok a t ∧ post a t := by
  obtain ⟨returned, stopped⟩ := total s start
  cases run : x.run s with
  | ok a t => exact ⟨a, t, rfl, returned a t run⟩
  | error e t => exact (stopped e t run).elim

theorem triple_weaken (pre wider : State → Prop) (x : EStateM Err State α) (post narrower : α → State → Prop)
    (halt : Err → State → Prop) (main : Triple wider x narrower halt) (before : ∀ s, pre s → wider s)
    (after : ∀ a t, narrower a t → post a t) : Triple pre x post halt := by
  intro s start
  obtain ⟨returned, stopped⟩ := main s (before s start)
  exact ⟨fun a t done => after a t (returned a t done), stopped⟩

theorem triple_and (pre pre' : State → Prop) (x : EStateM Err State α) (post post' : α → State → Prop)
    (halt halt' : Err → State → Prop) (first : Triple pre x post halt) (second : Triple pre' x post' halt') :
    Triple (fun s => pre s ∧ pre' s) x (fun a s => post a s ∧ post' a s) fun e s => halt e s ∧ halt' e s := by
  rintro s ⟨start, start'⟩
  obtain ⟨returned, stopped⟩ := first s start
  obtain ⟨returned', stopped'⟩ := second s start'
  exact ⟨fun a t done => ⟨returned a t done, returned' a t done⟩, fun e t halted => ⟨stopped e t halted, stopped' e t halted⟩⟩

-- However the action ends, in a value or a halt, it keeps what holds.
def Keeps (holds : State → Prop) (x : EStateM Err State α) : Prop :=
  Triple holds x (fun _ => holds) fun _ => holds

theorem keeps_pure (holds : State → Prop) (a : α) : Keeps holds (pure a : EStateM Err State α) :=
  triple_pure holds a _ _ fun _ same => same

theorem keeps_throw (holds : State → Prop) (e : Err) : Keeps holds (throw e : EStateM Err State α) :=
  triple_throw holds e _ _ fun _ same => same

theorem keeps_get (holds : State → Prop) (f : State → EStateM Err State β)
    (rest : ∀ s, holds s → Keeps holds (f s)) : Keeps holds (get >>= f) :=
  triple_get holds f _ _ rest

theorem keeps_modify (holds : State → Prop) (f : State → State) (kept : ∀ s, holds s → holds (f s)) :
    Keeps holds (modify f : EStateM Err State PUnit) :=
  triple_modify holds f _ _ kept

theorem keeps_set (holds : State → Prop) (s : State) (kept : holds s) :
    Keeps holds (set s : EStateM Err State PUnit) :=
  triple_modify holds (fun _ => s) _ _ fun _ _ => kept

theorem keeps_bind (holds : State → Prop) (x : EStateM Err State α) (f : α → EStateM Err State β)
    (first : Keeps holds x) (rest : ∀ a, Keeps holds (f a)) : Keeps holds (x >>= f) :=
  triple_bind holds x f _ _ _ first rest

theorem triple_halt (pre : State → Prop) (e : Err) (f : α → EStateM Err State β) (post : β → State → Prop)
    (halt : Err → State → Prop) (entails : ∀ s, pre s → halt e s) :
    Triple pre (throw e >>= f : EStateM Err State β) post halt :=
  triple_bind pre _ f (fun _ _ => False) _ _ (triple_throw pre e _ _ entails) fun _ => triple_absurd _ _ _

theorem keeps_halt (holds : State → Prop) (e : Err) (f : α → EStateM Err State β) :
    Keeps holds (throw e >>= f : EStateM Err State β) :=
  triple_halt holds e f _ _ fun _ same => same

theorem keeps_then (now later : State → Prop) (x : EStateM Err State α) (f : α → EStateM Err State β)
    (first : Keeps now x) (weaker : ∀ s, now s → later s)
    (rest : ∀ a, Triple now (f a) (fun _ => later) fun _ => later) :
    Triple now (x >>= f) (fun _ => later) fun _ => later := by
  refine triple_bind now x f (fun _ => now) _ _ ?_ rest
  intro s start
  obtain ⟨returned, stopped⟩ := first s start
  exact ⟨returned, fun e t halted => weaker t (stopped e t halted)⟩

end Yaup.Lib
