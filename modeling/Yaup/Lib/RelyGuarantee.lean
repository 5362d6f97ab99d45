import Yaup.Lib.LockOrder

set_option autoImplicit false

namespace Yaup.Lib

variable {State Lock Err Note Pid α β : Type} [DecidableEq Lock]

-- The terms on which processes share a state: what stands between any two steps, what a
-- process may rely on of the steps of the others, and what each of its own steps is.
structure Terms (State Pid : Type) where
  inv : State → Prop
  rely : Pid → State → State → Prop
  guar : Pid → State → State → Prop
  refl : ∀ p s, rely p s s
  trans : ∀ p s t u, rely p s t → rely p t u → rely p s u
  kept : ∀ p s t, inv s → guar p s t → inv t

def Terms.Fair (terms : Terms State Pid) : Prop :=
  ∀ p q s t, q ≠ p → terms.inv s → terms.guar q s t → terms.rely p s t

def Terms.Moves (terms : Terms State Pid) (p : Pid) (s t : State) : Prop := t = s ∨ terms.guar p s t

section
variable (table : LockTable State Lock Pid) (terms : Terms State Pid) (p : Pid)

-- From a state that its own last step left, whatever the others do in between: each step of
-- the program is guaranteed, and it returns into `after`.
def Prog.Assures (after : α → State → Prop) : Prog State Lock Err Note α → State → Prop
  | .done a, s => after a s
  | .halt _, _ => True
  | .look rest, s => ∀ t, terms.rely p s t → terms.inv t → (rest (table.seenBy p t)).Assures after t
  | .update change rest, s => ∀ t, terms.rely p s t → terms.inv t →
      terms.guar p t (change (table.seenBy p t)) ∧ rest.Assures after (change (table.seenBy p t))
  | .take l rest, s => ∀ t, terms.rely p s t → terms.inv t → table.owner t l = none →
      terms.guar p t (table.taken p l t) ∧ rest.Assures after (table.taken p l t)
  | .give l rest, s => ∀ t, terms.rely p s t → terms.inv t →
      terms.guar p t (table.given l t) ∧ rest.Assures after (table.given l t)
  | .note _ rest, s => rest.Assures after s

theorem assures_weaken (x : Prog State Lock Err Note α) (after wider : α → State → Prop) (s : State)
    (main : x.Assures table terms p after s) (reaches : ∀ a t, after a t → wider a t) :
    x.Assures table terms p wider s := by
  induction x generalizing s with
  | done a => exact reaches a s main
  | halt e => trivial
  | look rest ih => exact fun t relied good => ih _ t (main t relied good)
  | update change rest ih => exact fun t relied good => ⟨(main t relied good).1, ih _ (main t relied good).2⟩
  | take l rest ih =>
      intro t relied good free
      exact ⟨(main t relied good free).1, ih _ (main t relied good free).2⟩
  | give l rest ih => exact fun t relied good => ⟨(main t relied good).1, ih _ (main t relied good).2⟩
  | note n rest ih => exact ih s main

theorem assures_relied (x : Prog State Lock Err Note α) (after : α → State → Prop) (s t : State)
    (stable : ∀ a u v, terms.rely p u v → after a u → after a v) (main : x.Assures table terms p after s)
    (relied : terms.rely p s t) : x.Assures table terms p after t := by
  have further : ∀ u, terms.rely p t u → terms.rely p s u := fun u => terms.trans p s t u relied
  induction x generalizing s t with
  | done a => exact stable a s t relied main
  | halt e => trivial
  | look rest _ => exact fun u next => main u (further u next)
  | update change rest _ => exact fun u next => main u (further u next)
  | take l rest _ => exact fun u next => main u (further u next)
  | give l rest _ => exact fun u next => main u (further u next)
  | note n rest ih => exact ih s t main relied further

theorem assures_bind (x : Prog State Lock Err Note α) (f : α → Prog State Lock Err Note β)
    (middle : α → State → Prop) (after : β → State → Prop) (s : State) (first : x.Assures table terms p middle s)
    (second : ∀ a t, middle a t → (f a).Assures table terms p after t) : (x >>= f).Assures table terms p after s := by
  induction x generalizing s with
  | done a => exact second a s first
  | halt e => trivial
  | look rest ih => exact fun t relied good => ih _ t (first t relied good)
  | update change rest ih => exact fun t relied good => ⟨(first t relied good).1, ih _ (first t relied good).2⟩
  | take l rest ih =>
      intro t relied good free
      exact ⟨(first t relied good free).1, ih _ (first t relied good free).2⟩
  | give l rest ih => exact fun t relied good => ⟨(first t relied good).1, ih _ (first t relied good).2⟩
  | note n rest ih => exact ih s first

theorem assures_state (f : State → Prog State Lock Err Note β) (after : β → State → Prop) (s : State)
    (rest : ∀ t, terms.rely p s t → terms.inv t → (f (table.seenBy p t)).Assures table terms p after t) :
    (Prog.state >>= f).Assures table terms p after s := rest

theorem assures_change (change : State → State) (f : Unit → Prog State Lock Err Note β) (after : β → State → Prop)
    (s : State) (step : ∀ t, terms.rely p s t → terms.inv t → terms.guar p t (change (table.seenBy p t)))
    (rest : ∀ t, terms.rely p s t → terms.inv t → (f ()).Assures table terms p after (change (table.seenBy p t))) :
    (Prog.change change >>= f).Assures table terms p after s :=
  fun t relied good => ⟨step t relied good, rest t relied good⟩

theorem assures_acquire (l : Lock) (f : Unit → Prog State Lock Err Note β) (after : β → State → Prop) (s : State)
    (step : ∀ t, terms.rely p s t → terms.inv t → table.owner t l = none → terms.guar p t (table.taken p l t))
    (rest : ∀ t, terms.rely p s t → terms.inv t → table.owner t l = none →
      (f ()).Assures table terms p after (table.taken p l t)) :
    (Prog.acquire l >>= f).Assures table terms p after s :=
  fun t relied good free => ⟨step t relied good free, rest t relied good free⟩

theorem assures_release (l : Lock) (f : Unit → Prog State Lock Err Note β) (after : β → State → Prop) (s : State)
    (step : ∀ t, terms.rely p s t → terms.inv t → terms.guar p t (table.given l t))
    (rest : ∀ t, terms.rely p s t → terms.inv t → (f ()).Assures table terms p after (table.given l t)) :
    (Prog.release l >>= f).Assures table terms p after s :=
  fun t relied good => ⟨step t relied good, rest t relied good⟩

def EndsBy (after : α → State → Prop) (s : State) : EStateM.Result Err State α → Prop
  | .ok a t => Relation.ReflTransGen (terms.guar p) s t ∧ after a t
  | .error _ t => Relation.ReflTransGen (terms.guar p) s t

omit [DecidableEq Lock] in
theorem ends_by_steps (after : α → State → Prop) (s t : State) (steps : Relation.ReflTransGen (terms.guar p) s t)
    (result : EStateM.Result Err State α) (ended : EndsBy terms p after t result) : EndsBy terms p after s result := by
  cases result with
  | ok a u => exact ⟨steps.trans ended.1, ended.2⟩
  | error e u => exact steps.trans ended

-- The lock operations as calls of one process that nobody runs beside; `mine` is a state it
-- sees as it is.
structure Plays (acquire release : Lock → EStateM Err State Unit) (mine : State → Prop) : Prop where
  seen : ∀ s, mine s → table.seenBy p s = s
  stays : ∀ s t, mine s → terms.guar p s t → mine t
  takes : ∀ l s, mine s → table.owner s l = none → (acquire l).run s = .ok () (table.taken p l s)
  waits : ∀ l s, table.owner s l ≠ none → ∃ e, (acquire l).run s = .error e s
  gives : ∀ l s, (release l).run s = .ok () (table.given l s)

section
variable (acquire release : Lock → EStateM Err State Unit) (mine : State → Prop)
variable (plays : Plays table terms p acquire release mine)
include plays

theorem plays_along (s t : State) (own : mine s) (good : terms.inv s) (steps : Relation.ReflTransGen (terms.guar p) s t) :
    mine t ∧ terms.inv t := by
  induction steps with
  | refl => exact ⟨own, good⟩
  | tail _ step ih => exact ⟨plays.stays _ _ ih.1 step, terms.kept p _ _ ih.2 step⟩

theorem ends_by_bind (x : Prog State Lock Err Note α) (f : α → Prog State Lock Err Note β) (middle : α → State → Prop)
    (after : β → State → Prop) (s : State) (own : mine s) (good : terms.inv s)
    (first : EndsBy terms p middle s ((x.alone acquire release).run s))
    (second : ∀ a t, mine t → terms.inv t → middle a t → EndsBy terms p after t (((f a).alone acquire release).run t)) :
    EndsBy terms p after s (((x >>= f).alone acquire release).run s) := by
  rw [Prog.alone_bind, EStateM.run_bind]
  cases ran : (x.alone acquire release).run s with
  | ok a t =>
      rw [ran] at first
      obtain ⟨steps, reached⟩ := first
      obtain ⟨ownAfter, goodAfter⟩ := plays_along table terms p acquire release mine plays s t own good steps
      exact ends_by_steps terms p after s t steps _ (second a t ownAfter goodAfter reached)
  | error e t =>
      rw [ran] at first
      exact first

theorem ends_by_acquire (l : Lock) (f : Unit → Prog State Lock Err Note β) (after : β → State → Prop) (s : State)
    (own : mine s) (step : table.owner s l = none → terms.guar p s (table.taken p l s))
    (rest : table.owner s l = none →
      EndsBy terms p after (table.taken p l s) (((f ()).alone acquire release).run (table.taken p l s))) :
    EndsBy terms p after s (((Prog.acquire l >>= f).alone acquire release).run s) := by
  change EndsBy terms p after s ((acquire l >>= fun _ => (f ()).alone acquire release).run s)
  rw [EStateM.run_bind]
  by_cases free : table.owner s l = none
  · rw [plays.takes l s own free]
    exact ends_by_steps terms p after s _ (.single (step free)) _ (rest free)
  · obtain ⟨e, waits⟩ := plays.waits l s free
    rw [waits]
    exact .refl

theorem ends_by_release (l : Lock) (f : Unit → Prog State Lock Err Note β) (after : β → State → Prop) (s : State)
    (step : terms.guar p s (table.given l s))
    (rest : EndsBy terms p after (table.given l s) (((f ()).alone acquire release).run (table.given l s))) :
    EndsBy terms p after s (((Prog.release l >>= f).alone acquire release).run s) := by
  change EndsBy terms p after s ((release l >>= fun _ => (f ()).alone acquire release).run s)
  rw [EStateM.run_bind, plays.gives l s]
  exact ends_by_steps terms p after s _ (.single step) _ rest

end

end

structure SeenAlike (table : LockTable State Lock Pid) (p : Pid) : Prop where
  taken : ∀ l s, table.taken p l (table.seenBy p s) = table.taken p l s
  given : ∀ l s, table.seenBy p (table.given l s) = table.given l (table.seenBy p s)

structure GoesOn [DecidableEq Pid] (table : LockTable State Lock Pid) (ready : Pid → State → Prop)
    (operation : Prog State Lock Err Note Unit → Prop) (p : Pid) (result : EStateM.Result Err State Unit)
    (pool last : Pool State Lock Err Note Pid) (moves : List (Move (Pool State Lock Err Note Pid) Pid)) : Prop where
  run : Run (PoolStep table ready operation) pool moves last
  mine : ∀ move ∈ moves, move.act = p ∧ move.before.running p ≠ none
  others : ∀ q, q ≠ p → last.running q = pool.running q
  returns : ∀ t, result = .ok () t → last.running p = some (.done ()) ∧ table.seenBy p last.state = t

theorem goes_on_step [DecidableEq Pid] (table : LockTable State Lock Pid) (ready : Pid → State → Prop)
    (operation : Prog State Lock Err Note Unit → Prop) (p : Pid) (result : EStateM.Result Err State Unit)
    (pool last : Pool State Lock Err Note Pid) (t : State) (rest : Option (Prog State Lock Err Note Unit))
    (moves : List (Move (Pool State Lock Err Note Pid) Pid)) (inside : pool.running p ≠ none)
    (step : PoolStep table ready operation pool p (pool.goes p t rest))
    (later : GoesOn table ready operation p result (pool.goes p t rest) last moves) :
    GoesOn table ready operation p result pool last (⟨pool, p, pool.goes p t rest⟩ :: moves) where
  run := .cons _ _ _ _ _ step later.run
  mine := List.forall_mem_cons.mpr ⟨⟨rfl, inside⟩, later.mine⟩
  others := fun q other => (later.others q other).trans (Function.update_of_ne other _ _)
  returns := later.returns

theorem alone_goes_on [DecidableEq Pid] (table : LockTable State Lock Pid) (terms : Terms State Pid) (p : Pid)
    (acquire release : Lock → EStateM Err State Unit) (mine : State → Prop)
    (plays : Plays table terms p acquire release mine) (alike : SeenAlike table p) (ready : Pid → State → Prop)
    (operation : Prog State Lock Err Note Unit → Prop) (x : Prog State Lock Err Note Unit) (after : Unit → State → Prop)
    (s : State) (own : mine s) (good : terms.inv s) (assures : x.Assures table terms p after s)
    (pool : Pool State Lock Err Note Pid) (here : table.seenBy p pool.state = s) (running : pool.running p = some x) :
    ∃ last moves, GoesOn table ready operation p ((x.alone acquire release).run s) pool last moves := by
  have inside : pool.running p ≠ none := by simp [running]
  have now := terms.refl p s
  induction x generalizing s pool with
  | done a =>
      refine ⟨pool, [], .nil pool, by simp, fun _ _ => rfl, fun t same => ⟨running, ?_⟩⟩
      cases same
      exact here
  | halt e => exact ⟨pool, [], .nil pool, by simp, fun _ _ => rfl, nofun⟩
  | look rest ih =>
      have onward := assures s now good
      rw [plays.seen s own] at onward
      have step : PoolStep table ready operation pool p _ := .looks pool p rest running
      rw [here] at step
      obtain ⟨last, moves, later⟩ := ih s s own good onward (pool.goes p pool.state (some (rest s))) here
        (Function.update_self _ _ _) (by simp) now
      exact ⟨last, _, goes_on_step table ready operation p _ pool last _ _ moves inside step later⟩
  | update change rest ih =>
      obtain ⟨moved, onward⟩ := assures s now good
      rw [plays.seen s own] at moved onward
      have step : PoolStep table ready operation pool p _ := .updates pool p change rest running
      rw [here] at step
      have ownAfter := plays.stays s _ own moved
      obtain ⟨last, moves, later⟩ := ih (change s) ownAfter (terms.kept p s _ good moved) onward
        (pool.goes p (change s) (some rest)) (plays.seen _ ownAfter) (Function.update_self _ _ _) (by simp) (terms.refl p _)
      exact ⟨last, _, goes_on_step table ready operation p _ pool last _ _ moves inside step later⟩
  | take l rest ih =>
      by_cases free : table.owner s l = none
      · obtain ⟨moved, onward⟩ := assures s now good free
        have unowned : table.owner pool.state l = none := by rw [← table.owner_seen p pool.state, here, free]
        have step : PoolStep table ready operation pool p _ := .takes pool p l rest running unowned
        have same : table.taken p l pool.state = table.taken p l s := by rw [← here, alike.taken]
        rw [same] at step
        have ownAfter := plays.stays s _ own moved
        obtain ⟨last, moves, later⟩ := ih (table.taken p l s) ownAfter (terms.kept p s _ good moved) onward
          (pool.goes p (table.taken p l s) (some rest)) (plays.seen _ ownAfter) (Function.update_self _ _ _) (by simp)
          (terms.refl p _)
        refine ⟨last, _, goes_on_step table ready operation p _ pool last _ _ moves inside step ⟨later.run, later.mine,
          later.others, fun t same => later.returns t ?_⟩⟩
        rw [← same]
        change _ = (acquire l >>= fun _ => rest.alone acquire release).run s
        rw [EStateM.run_bind, plays.takes l s own free]
      · obtain ⟨e, waits⟩ := plays.waits l s free
        refine ⟨pool, [], .nil pool, by simp, fun _ _ => rfl, fun t same => ?_⟩
        change (acquire l >>= fun _ => rest.alone acquire release).run s = _ at same
        rw [EStateM.run_bind, waits] at same
        cases same
  | give l rest ih =>
      obtain ⟨moved, onward⟩ := assures s now good
      have step : PoolStep table ready operation pool p _ := .gives pool p l rest running
      have same : table.seenBy p (table.given l pool.state) = table.given l s := by rw [alike.given, here]
      obtain ⟨last, moves, later⟩ := ih (table.given l s) (plays.stays s _ own moved) (terms.kept p s _ good moved) onward
        (pool.goes p (table.given l pool.state) (some rest)) same (Function.update_self _ _ _) (by simp) (terms.refl p _)
      refine ⟨last, _, goes_on_step table ready operation p _ pool last _ _ moves inside step ⟨later.run, later.mine,
        later.others, fun t same => later.returns t ?_⟩⟩
      rw [← same]
      change _ = (release l >>= fun _ => rest.alone acquire release).run s
      rw [EStateM.run_bind, plays.gives l s]
  | note n rest ih =>
      have step : PoolStep table ready operation pool p _ := .notes pool p n rest running
      obtain ⟨last, moves, later⟩ := ih s own good assures (pool.goes p pool.state (some rest)) here
        (Function.update_self _ _ _) (by simp) now
      exact ⟨last, _, goes_on_step table ready operation p _ pool last _ _ moves inside step later⟩

variable [DecidableEq Pid] (table : LockTable State Lock Pid) (terms : Terms State Pid)

-- A pool that keeps to the terms: what each process has left to do assures its steps.
structure Agreed (pool : Pool State Lock Err Note Pid) : Prop where
  inv : terms.inv pool.state
  each : ∀ p x, pool.running p = some x → x.Assures table terms p (fun _ _ => True) pool.state

omit [DecidableEq Pid] in
theorem moves_relied (fair : terms.Fair) (p q : Pid) (s t : State) (other : q ≠ p) (good : terms.inv s)
    (moved : terms.Moves q s t) : terms.rely p s t := by
  rcases moved with rfl | step
  · exact terms.refl p t
  · exact fair p q s t other good step

theorem agreed_goes (fair : terms.Fair) (pool : Pool State Lock Err Note Pid) (p : Pid) (t : State)
    (rest : Option (Prog State Lock Err Note Unit)) (good : Agreed table terms pool)
    (moved : terms.Moves p pool.state t)
    (mine : ∀ x, rest = some x → x.Assures table terms p (fun _ _ => True) t) :
    Agreed table terms (pool.goes p t rest) := by
  refine ⟨?_, fun q x running => ?_⟩
  · rcases moved with rfl | step
    · exact good.inv
    · exact terms.kept p _ t good.inv step
  · rw [goes_running] at running
    by_cases same : q = p
    · subst same
      rw [Function.update_self] at running
      exact mine x running
    · rw [Function.update_of_ne same] at running
      have relied := moves_relied terms fair q p pool.state t (Ne.symm same) good.inv moved
      exact assures_relied table terms q x _ pool.state t (fun _ _ _ _ _ => trivial) (good.each q x running) relied

theorem agreed_step (fair : terms.Fair) (ready : Pid → State → Prop) (operation : Prog State Lock Err Note Unit → Prop)
    (assures : ∀ x, operation x → ∀ p s, terms.inv s → x.Assures table terms p (fun _ _ => True) s)
    (pool next : Pool State Lock Err Note Pid) (p : Pid) (good : Agreed table terms pool)
    (taken : PoolStep table ready operation pool p next)
    (outside : pool.running p = none → terms.Moves p pool.state next.state) :
    Agreed table terms next ∧ terms.Moves p pool.state next.state := by
  have same : terms.Moves p pool.state pool.state := .inl rfl
  have here := terms.refl p pool.state
  cases taken with
  | begins x idle may op =>
      refine ⟨agreed_goes table terms fair pool p _ _ good same ?_, same⟩
      rintro _ ⟨⟩
      exact assures x op p pool.state good.inv
  | ends inside =>
      refine ⟨agreed_goes table terms fair pool p _ _ good same ?_, same⟩
      rintro _ ⟨⟩
  | looks rest inside =>
      refine ⟨agreed_goes table terms fair pool p _ _ good same ?_, same⟩
      rintro _ ⟨⟩
      exact good.each p _ inside pool.state here good.inv
  | updates change rest inside =>
      obtain ⟨step, left⟩ := good.each p _ inside pool.state here good.inv
      refine ⟨agreed_goes table terms fair pool p _ _ good (.inr step) ?_, .inr step⟩
      rintro _ ⟨⟩
      exact left
  | takes l rest inside free =>
      obtain ⟨step, left⟩ := good.each p _ inside pool.state here good.inv free
      refine ⟨agreed_goes table terms fair pool p _ _ good (.inr step) ?_, .inr step⟩
      rintro _ ⟨⟩
      exact left
  | gives l rest inside =>
      obtain ⟨step, left⟩ := good.each p _ inside pool.state here good.inv
      refine ⟨agreed_goes table terms fair pool p _ _ good (.inr step) ?_, .inr step⟩
      rintro _ ⟨⟩
      exact left
  | notes n rest inside =>
      have left := good.each p _ inside
      refine ⟨agreed_goes table terms fair pool p _ _ good same ?_, same⟩
      rintro _ ⟨⟩
      exact left
  | outside t idle others =>
      have moved := outside idle
      refine ⟨agreed_goes table terms fair pool p _ _ good moved ?_, moved⟩
      rintro _ ⟨⟩

-- Every step of every interleaving is guaranteed, where all start outside their operations.
theorem guaranteed (fair : terms.Fair) (ready : Pid → State → Prop) (operation : Prog State Lock Err Note Unit → Prop)
    (assures : ∀ x, operation x → ∀ p s, terms.inv s → x.Assures table terms p (fun _ _ => True) s)
    (first last : Pool State Lock Err Note Pid) (moves : List (Move (Pool State Lock Err Note Pid) Pid))
    (run : Run (PoolStep table ready operation) first moves last) (start : Agreed table terms first)
    (outside : ∀ move ∈ moves, move.before.running move.act = none →
      terms.Moves move.act move.before.state move.after.state) :
    Throughout (Agreed table terms) moves last ∧
      ∀ move ∈ moves, terms.Moves move.act move.before.state move.after.state := by
  induction run with
  | nil state => exact ⟨⟨by simp, start⟩, by simp⟩
  | cons before after final p moves taken rest ih =>
      have idle := outside ⟨before, p, after⟩ (by simp)
      obtain ⟨next, moved⟩ := agreed_step table terms fair ready operation assures before after p start taken idle
      obtain ⟨⟨along, done⟩, each⟩ := ih next fun move member => outside move (by simp [member])
      exact ⟨⟨List.forall_mem_cons.mpr ⟨start, along⟩, done⟩, List.forall_mem_cons.mpr ⟨moved, each⟩⟩

section
variable {Act : Type} (step : State → Act → State → Prop)

theorem run_relates (related : State → State → Prop) (refl : ∀ s, related s s)
    (trans : ∀ s t u, related s t → related t u → related s u) (first last : State) (moves : List (Move State Act))
    (run : Run step first moves last) (each : ∀ move ∈ moves, related move.before move.after) :
    Throughout (related first) moves last := by
  induction run with
  | nil state => exact ⟨by simp, refl state⟩
  | cons before after final act moves taken rest ih =>
      rw [List.forall_mem_cons] at each
      obtain ⟨along, done⟩ := ih each.2
      have onward : ∀ t, related after t → related before t := fun t => trans before after t each.1
      exact ⟨List.forall_mem_cons.mpr ⟨refl before, fun move member => onward _ (along move member)⟩, onward _ done⟩

theorem run_append (first middle last : State) (moves later : List (Move State Act))
    (run : Run step first moves middle) (rest : Run step middle later last) : Run step first (moves ++ later) last := by
  induction run with
  | nil state => exact rest
  | cons before after final act moves taken _ ih => exact .cons _ _ _ _ _ taken (ih rest)

end

end Yaup.Lib
