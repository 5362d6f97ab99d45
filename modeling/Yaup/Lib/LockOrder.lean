import Mathlib.Logic.Relation
import Mathlib.Order.Basic
import Yaup.Lib.Program
import Yaup.Lib.Run

set_option autoImplicit false

namespace Yaup.Lib

variable {State Lock Err Note Pid Rank α β : Type} [DecidableEq Lock]

-- The part of a state that says who holds which lock; `seenBy` is the state with a
-- process about to run in it.
structure LockTable (State Lock Pid : Type) [DecidableEq Lock] where
  owner : State → Lock → Option Pid
  seenBy : Pid → State → State
  taken : Pid → Lock → State → State
  given : Lock → State → State
  owner_seen : ∀ p s, owner (seenBy p s) = owner s
  owner_taken : ∀ p l s, owner (taken p l s) = Function.update (owner s) l (some p)
  owner_given : ∀ l s, owner (given l s) = Function.update (owner s) l none

theorem owner_taken_cases (table : LockTable State Lock Pid) (p q : Pid) (l m : Lock) (s : State)
    (mine : table.owner (table.taken p l s) m = some q) : m = l ∧ q = p ∨ table.owner s m = some q := by
  rw [table.owner_taken] at mine
  by_cases same : m = l
  · subst same
    rw [Function.update_self, Option.some_inj] at mine
    exact .inl ⟨rfl, mine.symm⟩
  · rw [Function.update_of_ne same] at mine
    exact .inr mine

theorem owner_given_some (table : LockTable State Lock Pid) (q : Pid) (l m : Lock) (s : State)
    (mine : table.owner (table.given l s) m = some q) : m ≠ l ∧ table.owner s m = some q := by
  rw [table.owner_given] at mine
  by_cases same : m = l
  · subst same
    rw [Function.update_self] at mine
    cases mine
  · rw [Function.update_of_ne same] at mine
    exact ⟨same, mine⟩

section
variable [LT Rank] (table : LockTable State Lock Pid) (rank : Lock → Rank)

-- A program that holds at most the locks of `held` asks only for locks above all of them,
-- whatever states it looks at, and returns with at most those of `after`.
def Prog.Climbs (after : α → Lock → Prop) : Prog State Lock Err Note α → (Lock → Prop) → Prop
  | .done a, held => ∀ l, held l → after a l
  | .halt _, _ => True
  | .look rest, held => ∀ p s, (∀ l, table.owner s l = some p → held l) →
      (rest (table.seenBy p s)).Climbs after held
  | .update change rest, held => (∀ s, table.owner (change s) = table.owner s) ∧ rest.Climbs after held
  | .take l rest, held => (∀ m, held m → rank m < rank l) ∧ rest.Climbs after fun m => held m ∨ m = l
  | .give l rest, held => rest.Climbs after fun m => held m ∧ m ≠ l
  | .note _ rest, held => rest.Climbs after held

theorem climbs_weaken (x : Prog State Lock Err Note α) (after wider : α → Lock → Prop) (held fewer : Lock → Prop)
    (main : x.Climbs table rank after held) (before : ∀ l, fewer l → held l)
    (reaches : ∀ a l, after a l → wider a l) : x.Climbs table rank wider fewer := by
  induction x generalizing held fewer with
  | done a => exact fun l inside => reaches a l (main l (before l inside))
  | halt e => trivial
  | look rest ih =>
      exact fun p s mine => ih _ held fewer (main p s fun l owner => before l (mine l owner)) before
  | update change rest ih => exact ⟨main.1, ih held fewer main.2 before⟩
  | take l rest ih =>
      refine ⟨fun m inside => main.1 m (before m inside), ih _ _ main.2 ?_⟩
      rintro m (inside | same)
      · exact .inl (before m inside)
      · exact .inr same
  | give l rest ih => exact ih _ _ main fun m inside => ⟨before m inside.1, inside.2⟩
  | note n rest ih => exact ih held fewer main before

theorem climbs_bind (x : Prog State Lock Err Note α) (f : α → Prog State Lock Err Note β)
    (middle : α → Lock → Prop) (after : β → Lock → Prop) (held : Lock → Prop)
    (first : x.Climbs table rank middle held) (second : ∀ a, (f a).Climbs table rank after (middle a)) :
    (x >>= f).Climbs table rank after held := by
  induction x generalizing held with
  | done a => exact climbs_weaken table rank (f a) after after (middle a) held (second a) first fun _ _ => id
  | halt e => trivial
  | look rest ih => exact fun p s mine => ih _ held (first p s mine)
  | update change rest ih => exact ⟨first.1, ih held first.2⟩
  | take l rest ih => exact ⟨first.1, ih _ first.2⟩
  | give l rest ih => exact ih _ first
  | note n rest ih => exact ih held first

theorem climbs_pure (a : α) (held : Lock → Prop) :
    (pure a : Prog State Lock Err Note α).Climbs table rank (fun _ => held) held := fun _ => id

theorem climbs_halt (e : Err) (after : α → Lock → Prop) (held : Lock → Prop) :
    (.halt e : Prog State Lock Err Note α).Climbs table rank after held := trivial

theorem climbs_state (f : State → Prog State Lock Err Note β) (after : β → Lock → Prop) (held : Lock → Prop)
    (rest : ∀ s, (f s).Climbs table rank after held) : (Prog.state >>= f).Climbs table rank after held :=
  fun p s _ => rest (table.seenBy p s)

theorem climbs_change (change : State → State) (f : Unit → Prog State Lock Err Note β) (after : β → Lock → Prop)
    (held : Lock → Prop) (owners : ∀ s, table.owner (change s) = table.owner s)
    (rest : (f ()).Climbs table rank after held) : (Prog.change change >>= f).Climbs table rank after held :=
  ⟨owners, rest⟩

theorem climbs_acquire (l : Lock) (f : Unit → Prog State Lock Err Note β) (after : β → Lock → Prop)
    (held : Lock → Prop) (above : ∀ m, held m → rank m < rank l)
    (rest : (f ()).Climbs table rank after fun m => held m ∨ m = l) :
    (Prog.acquire l >>= f).Climbs table rank after held :=
  ⟨above, rest⟩

theorem climbs_release_taken (l : Lock) (f : Unit → Prog State Lock Err Note β) (after : β → Lock → Prop)
    (held : Lock → Prop) (rest : (f ()).Climbs table rank after held) :
    (Prog.release l >>= f).Climbs table rank after fun m => held m ∨ m = l := by
  apply climbs_weaken table rank (f ()) after after held _ rest
  · rintro m ⟨inside | same, other⟩
    · exact inside
    · exact absurd same other
  · exact fun _ _ => id

theorem climbs_release_any (l : Lock) (f : Unit → Prog State Lock Err Note β) (after : β → Lock → Prop)
    (held : Lock → Prop) (rest : (f ()).Climbs table rank after held) :
    (Prog.release l >>= f).Climbs table rank after held :=
  climbs_weaken table rank (f ()) after after held _ rest (fun _ inside => inside.1) fun _ _ => id

theorem climbs_tell (n : Note) (f : Unit → Prog State Lock Err Note β) (after : β → Lock → Prop)
    (held : Lock → Prop) (rest : (f ()).Climbs table rank after held) :
    (Prog.tell n >>= f).Climbs table rank after held := rest

structure Within (s : State) (p : Pid) (x : Prog State Lock Err Note Unit) (held : Lock → Prop) : Prop where
  climbs : x.Climbs table rank (fun _ _ => True) held
  holds : ∀ l, table.owner s l = some p → held l
  apart : ∀ l m, held l → held m → rank l = rank m → l = m

theorem within_others (s t : State) (p : Pid) (x : Prog State Lock Err Note Unit) (held : Lock → Prop)
    (within : Within table rank s p x held) (owners : ∀ l, table.owner t l = some p → table.owner s l = some p) :
    Within table rank t p x held :=
  ⟨within.climbs, fun l mine => within.holds l (owners l mine), within.apart⟩

end

-- A system of processes on one state; `running` is what is left of the operation that a
-- process is inside of, none when it is outside all of them.
structure Pool (State Lock Err Note Pid : Type) where
  state : State
  running : Pid → Option (Prog State Lock Err Note Unit)

variable [Preorder Rank] (table : LockTable State Lock Pid) (rank : Lock → Rank)

def InOrder (pool : Pool State Lock Err Note Pid) : Prop :=
  ∀ p x, pool.running p = some x → ∃ held, Within table rank pool.state p x held

theorem within_take (s : State) (p : Pid) (l : Lock) (rest : Prog State Lock Err Note Unit) (held : Lock → Prop)
    (within : Within table rank s p (.take l rest) held) :
    Within table rank (table.taken p l s) p rest fun m => held m ∨ m = l := by
  obtain ⟨above, climbs⟩ := within.climbs
  refine ⟨climbs, fun m mine => ?_, ?_⟩
  · rcases owner_taken_cases table p p l m s mine with ⟨same, -⟩ | before
    · exact .inr same
    · exact .inl (within.holds m before)
  · rintro m n (first | rfl) (second | rfl) same
    · exact within.apart m n first second same
    · exact absurd (above m first) (by rw [same]; exact lt_irrefl _)
    · exact absurd (above n second) (by rw [same]; exact lt_irrefl _)
    · rfl

theorem within_give (s : State) (p : Pid) (l : Lock) (rest : Prog State Lock Err Note Unit) (held : Lock → Prop)
    (within : Within table rank s p (.give l rest) held) :
    Within table rank (table.given l s) p rest fun m => held m ∧ m ≠ l := by
  refine ⟨within.climbs, fun m mine => ?_, fun m n first second => within.apart m n first.1 second.1⟩
  obtain ⟨other, before⟩ := owner_given_some table p l m s mine
  exact ⟨within.holds m before, other⟩

def Waits (pool : Pool State Lock Err Note Pid) (p q : Pid) : Prop :=
  ∃ l rest, pool.running p = some (.take l rest) ∧ table.owner pool.state l = some q

def Climbing (pool : Pool State Lock Err Note Pid) : Prop :=
  ∀ p x, pool.running p = some x →
    (∀ l rest, x = .take l rest → ∀ m, table.owner pool.state m = some p → rank m < rank l) ∧
      ∀ l m, table.owner pool.state l = some p → table.owner pool.state m = some p → rank l = rank m → l = m

theorem in_order_climbing (pool : Pool State Lock Err Note Pid) (good : InOrder table rank pool) :
    Climbing table rank pool := by
  intro p x running
  obtain ⟨held, within⟩ := good p x running
  refine ⟨?_, fun l m first second => within.apart l m (within.holds l first) (within.holds m second)⟩
  rintro l rest rfl m mine
  exact within.climbs.1 m (within.holds m mine)

theorem chain_climbs (pool : Pool State Lock Err Note Pid) (climbing : Climbing table rank pool) (p q : Pid)
    (chain : Relation.TransGen (Waits table pool) p q) :
    ∃ l rest, pool.running p = some (.take l rest) ∧
      ∀ m later, pool.running q = some (.take m later) → rank l < rank m := by
  induction chain with
  | single waits =>
      obtain ⟨l, rest, running, owner⟩ := waits
      exact ⟨l, rest, running, fun m later waiting => (climbing _ _ waiting).1 m later rfl l owner⟩
  | tail before waits ih =>
      obtain ⟨l, rest, running, below⟩ := ih
      obtain ⟨m, later, waiting, owner⟩ := waits
      refine ⟨l, rest, running, fun n last after => lt_trans (below m later waiting) ?_⟩
      exact (climbing _ _ after).1 n last rfl m owner

theorem no_waiting_cycle (pool : Pool State Lock Err Note Pid) (climbing : Climbing table rank pool) (p : Pid) :
    ¬Relation.TransGen (Waits table pool) p p := by
  intro cycle
  obtain ⟨l, rest, running, below⟩ := chain_climbs table rank pool climbing p p cycle
  exact lt_irrefl _ (below l rest running)

variable [DecidableEq Pid]

def Pool.goes (pool : Pool State Lock Err Note Pid) (p : Pid) (state : State)
    (rest : Option (Prog State Lock Err Note Unit)) : Pool State Lock Err Note Pid :=
  ⟨state, Function.update pool.running p rest⟩

omit [DecidableEq Lock] in
@[simp] theorem goes_running (pool : Pool State Lock Err Note Pid) (p : Pid) (s : State)
    (rest : Option (Prog State Lock Err Note Unit)) :
    (pool.goes p s rest).running = Function.update pool.running p rest := rfl

def LockTable.HoldsNone (table : LockTable State Lock Pid) (p : Pid) (s : State) : Prop := ∀ l, table.owner s l ≠ some p

def Whenever (_ : Pid) (_ : State) : Prop := True

-- One process makes one step. It starts an operation where it is ready to; outside of one it
-- may do anything to the state but give locks to others.
inductive PoolStep (table : LockTable State Lock Pid) (ready : Pid → State → Prop)
    (operation : Prog State Lock Err Note Unit → Prop) :
    Pool State Lock Err Note Pid → Pid → Pool State Lock Err Note Pid → Prop where
  | begins (pool : Pool State Lock Err Note Pid) (p : Pid) (x : Prog State Lock Err Note Unit)
      (idle : pool.running p = none) (may : ready p pool.state) (op : operation x) :
      PoolStep table ready operation pool p (pool.goes p pool.state (some x))
  | ends (pool : Pool State Lock Err Note Pid) (p : Pid) (inside : pool.running p = some (.done ())) :
      PoolStep table ready operation pool p (pool.goes p pool.state none)
  | looks (pool : Pool State Lock Err Note Pid) (p : Pid) (rest : State → Prog State Lock Err Note Unit)
      (inside : pool.running p = some (.look rest)) :
      PoolStep table ready operation pool p (pool.goes p pool.state (some (rest (table.seenBy p pool.state))))
  | updates (pool : Pool State Lock Err Note Pid) (p : Pid) (change : State → State)
      (rest : Prog State Lock Err Note Unit) (inside : pool.running p = some (.update change rest)) :
      PoolStep table ready operation pool p (pool.goes p (change (table.seenBy p pool.state)) (some rest))
  | takes (pool : Pool State Lock Err Note Pid) (p : Pid) (l : Lock) (rest : Prog State Lock Err Note Unit)
      (inside : pool.running p = some (.take l rest)) (free : table.owner pool.state l = none) :
      PoolStep table ready operation pool p (pool.goes p (table.taken p l pool.state) (some rest))
  | gives (pool : Pool State Lock Err Note Pid) (p : Pid) (l : Lock) (rest : Prog State Lock Err Note Unit)
      (inside : pool.running p = some (.give l rest)) :
      PoolStep table ready operation pool p (pool.goes p (table.given l pool.state) (some rest))
  | notes (pool : Pool State Lock Err Note Pid) (p : Pid) (n : Note) (rest : Prog State Lock Err Note Unit)
      (inside : pool.running p = some (.note n rest)) :
      PoolStep table ready operation pool p (pool.goes p pool.state (some rest))
  | outside (pool : Pool State Lock Err Note Pid) (p : Pid) (t : State) (idle : pool.running p = none)
      (others : ∀ l q, q ≠ p → table.owner t l = some q → table.owner pool.state l = some q) :
      PoolStep table ready operation pool p (pool.goes p t none)

theorem in_order_goes (pool : Pool State Lock Err Note Pid) (p : Pid) (t : State)
    (rest : Option (Prog State Lock Err Note Unit)) (good : InOrder table rank pool)
    (others : ∀ l q, q ≠ p → table.owner t l = some q → table.owner pool.state l = some q)
    (mine : ∀ x, rest = some x → ∃ held, Within table rank t p x held) : InOrder table rank (pool.goes p t rest) := by
  intro q x running
  rw [goes_running] at running
  by_cases same : q = p
  · subst same
    rw [Function.update_self] at running
    exact mine x running
  · rw [Function.update_of_ne same] at running
    obtain ⟨held, within⟩ := good q x running
    exact ⟨held, within_others table rank pool.state t q x held within fun l => others l q same⟩

theorem step_in_order (operation : Prog State Lock Err Note Unit → Prop)
    (climbs : ∀ x, operation x → x.Climbs table rank (fun _ _ => True) fun _ => False)
    (pool next : Pool State Lock Err Note Pid) (p : Pid) (good : InOrder table rank pool)
    (taken : PoolStep table table.HoldsNone operation pool p next) : InOrder table rank next := by
  cases taken with
  | begins x idle may op =>
      apply in_order_goes table rank pool p _ _ good fun _ _ _ => id
      rintro _ ⟨⟩
      exact ⟨fun _ => False, climbs x op, fun l mine => may l mine, fun _ _ impossible => impossible.elim⟩
  | ends inside =>
      apply in_order_goes table rank pool p _ _ good fun _ _ _ => id
      rintro _ ⟨⟩
  | looks rest inside =>
      obtain ⟨held, within⟩ := good p _ inside
      apply in_order_goes table rank pool p _ _ good fun _ _ _ => id
      rintro _ ⟨⟩
      exact ⟨held, within.climbs p pool.state within.holds, within.holds, within.apart⟩
  | updates change rest inside =>
      obtain ⟨held, within⟩ := good p _ inside
      have owners : table.owner (change (table.seenBy p pool.state)) = table.owner pool.state :=
        (within.climbs.1 _).trans (table.owner_seen p pool.state)
      apply in_order_goes table rank pool p _ _ good
      · intro l q _
        rw [owners]
        exact id
      · rintro _ ⟨⟩
        refine ⟨held, within.climbs.2, fun l mine => ?_, within.apart⟩
        rw [owners] at mine
        exact within.holds l mine
  | takes l rest inside free =>
      obtain ⟨held, within⟩ := good p _ inside
      apply in_order_goes table rank pool p _ _ good
      · intro m q other mine
        exact (owner_taken_cases table p q l m pool.state mine).resolve_left fun same => other same.2
      · rintro _ ⟨⟩
        exact ⟨_, within_take table rank pool.state p l rest held within⟩
  | gives l rest inside =>
      obtain ⟨held, within⟩ := good p _ inside
      apply in_order_goes table rank pool p _ _ good fun m q _ mine => (owner_given_some table q l m pool.state mine).2
      rintro _ ⟨⟩
      exact ⟨_, within_give table rank pool.state p l rest held within⟩
  | notes n rest inside =>
      obtain ⟨held, within⟩ := good p _ inside
      apply in_order_goes table rank pool p _ _ good fun _ _ _ => id
      rintro _ ⟨⟩
      exact ⟨held, within.climbs, within.holds, within.apart⟩
  | outside t idle others =>
      apply in_order_goes table rank pool p _ _ good others
      rintro _ ⟨⟩

theorem climbing_throughout (operation : Prog State Lock Err Note Unit → Prop)
    (climbs : ∀ x, operation x → x.Climbs table rank (fun _ _ => True) fun _ => False)
    (first last : Pool State Lock Err Note Pid) (moves : List (Move (Pool State Lock Err Note Pid) Pid))
    (run : Run (PoolStep table table.HoldsNone operation) first moves last) (idle : ∀ p, first.running p = none) :
    Throughout (fun pool => Climbing table rank pool ∧ ∀ p, ¬Relation.TransGen (Waits table pool) p p) moves last := by
  have start : InOrder table rank first := by
    intro p x running
    rw [idle p] at running
    cases running
  have along := run_invariant (PoolStep table table.HoldsNone operation) (fun _ _ => True) (InOrder table rank)
    (fun before p after good taken _ => step_in_order table rank operation climbs before after p good taken)
    first last moves run start fun _ _ => trivial
  have both : ∀ pool : Pool State Lock Err Note Pid, InOrder table rank pool →
      Climbing table rank pool ∧ ∀ p, ¬Relation.TransGen (Waits table pool) p p := fun pool good =>
    have climbing := in_order_climbing table rank pool good
    ⟨climbing, no_waiting_cycle table rank pool climbing⟩
  exact ⟨fun move member => both _ (along.1 move member), both _ along.2⟩

end Yaup.Lib
