import Mathlib.Data.List.Basic

set_option autoImplicit false

namespace Yaup.Lib

variable {Frame Act Value : Type}

-- What a turn of the running frame comes to: it goes on, it waits below a new one, or it ends.
inductive Turned (Frame Value : Type) where
  | goes (frame : Frame)
  | calls (above below : Frame)
  | ends (value : Value)

-- A frame that waits is given the value of the one above it, and goes on or ends as well.
structure StackMachine (Frame Act Value : Type) where
  turn : Frame → Act → Turned Frame Value
  resume : Value → Frame → Except Value Frame

structure CallStack (Frame : Type) where
  running : Frame
  waiting : List Frame

def CallStack.depth (stack : CallStack Frame) : Nat := stack.waiting.length + 1

def CallStack.over (stack : CallStack Frame) (below : List Frame) : CallStack Frame :=
  ⟨stack.running, stack.waiting ++ below⟩

-- Where a run stands after its acts: `left` are those that nobody was there to take.
inductive Executed (Frame Act Value : Type) where
  | live (stack : CallStack Frame)
  | done (value : Value) (left : List Act)

def Executed.depth : Executed Frame Act Value → Nat
  | .live stack => stack.depth
  | .done _ _ => 0

namespace StackMachine

variable (machine : StackMachine Frame Act Value)

def unwind (value : Value) : List Frame → Except Value (CallStack Frame)
  | [] => .error value
  | frame :: rest =>
      match machine.resume value frame with
      | .ok frame => .ok ⟨frame, rest⟩
      | .error value => unwind value rest

def step (stack : CallStack Frame) (act : Act) : Except Value (CallStack Frame) :=
  match machine.turn stack.running act with
  | .goes frame => .ok ⟨frame, stack.waiting⟩
  | .calls above below => .ok ⟨above, below :: stack.waiting⟩
  | .ends value => machine.unwind value stack.waiting

def exec : CallStack Frame → List Act → Executed Frame Act Value
  | stack, [] => .live stack
  | stack, act :: acts =>
      match machine.step stack act with
      | .ok stack => exec stack acts
      | .error value => .done value acts

def turns : CallStack Frame → List Act → List (Frame × Act)
  | _, [] => []
  | stack, act :: acts =>
      (stack.running, act) ::
        match machine.step stack act with
        | .ok stack => turns stack acts
        | .error _ => []

def isCall (taken : Frame × Act) : Bool :=
  match machine.turn taken.1 taken.2 with
  | .calls _ _ => true
  | _ => false

def isEnd (taken : Frame × Act) : Bool :=
  match machine.turn taken.1 taken.2 with
  | .ends _ => true
  | _ => false

theorem unwind_over (value : Value) (frames below : List Frame) :
    machine.unwind value (frames ++ below) =
      match machine.unwind value frames with
      | .ok stack => .ok (stack.over below)
      | .error value => machine.unwind value below := by
  induction frames generalizing value with
  | nil => rfl
  | cons frame rest ih =>
      rw [List.cons_append, unwind, unwind]
      cases machine.resume value frame with
      | ok frame => rfl
      | error value => exact ih value

theorem step_over (stack : CallStack Frame) (below : List Frame) (act : Act) :
    machine.step (stack.over below) act =
      match machine.step stack act with
      | .ok stack => .ok (stack.over below)
      | .error value => machine.unwind value below := by
  rw [step, step, CallStack.over]
  cases machine.turn stack.running act with
  | goes frame => rfl
  | calls above below => rfl
  | ends value => exact machine.unwind_over value stack.waiting below

-- What runs on top of `below` runs as it does alone, and hands down the value it ends with.
theorem exec_over (stack : CallStack Frame) (below : List Frame) (acts : List Act) :
    machine.exec (stack.over below) acts =
      match machine.exec stack acts with
      | .live stack => .live (stack.over below)
      | .done value left =>
          match machine.unwind value below with
          | .ok stack => machine.exec stack left
          | .error value => .done value left := by
  induction acts generalizing stack with
  | nil => rfl
  | cons act acts ih =>
      rw [exec, exec, step_over]
      cases machine.step stack act with
      | ok next => exact ih next
      | error value => rfl

structure Resumable (Waits : Frame → Prop) : Prop where
  called : ∀ frame act above below, machine.turn frame act = .calls above below → Waits below
  resumed : ∀ value frame, Waits frame → ∃ next, machine.resume value frame = .ok next

section
variable (Waits : Frame → Prop) (resumable : machine.Resumable Waits)

include resumable

theorem step_waiting (stack next : CallStack Frame) (act : Act) (waits : ∀ frame ∈ stack.waiting, Waits frame)
    (taken : machine.step stack act = .ok next) : ∀ frame ∈ next.waiting, Waits frame := by
  rw [step] at taken
  cases turned : machine.turn stack.running act with
  | goes frame =>
      rw [turned] at taken
      cases taken
      exact waits
  | calls above below =>
      rw [turned] at taken
      cases taken
      exact List.forall_mem_cons.mpr ⟨resumable.called _ act above below turned, waits⟩
  | ends value =>
      rw [turned] at taken
      dsimp only at taken
      match below : stack.waiting with
      | [] =>
          rw [below] at taken
          cases taken
      | frame :: rest =>
          rw [below] at taken waits
          obtain ⟨resumed, same⟩ := resumable.resumed value frame (waits frame List.mem_cons_self)
          rw [unwind, same] at taken
          cases taken
          exact fun other member => waits other (List.mem_cons_of_mem _ member)

theorem step_depth (stack : CallStack Frame) (act : Act) (waits : ∀ frame ∈ stack.waiting, Waits frame) :
    (match machine.step stack act with
      | .ok next => next.depth
      | .error _ => 0) + (if machine.isEnd (stack.running, act) then 1 else 0) =
      stack.depth + if machine.isCall (stack.running, act) then 1 else 0 := by
  rw [step, isEnd, isCall]
  cases machine.turn stack.running act with
  | goes frame => rfl
  | calls above below => rfl
  | ends value =>
      dsimp only
      match below : stack.waiting with
      | [] => simp [unwind, CallStack.depth, below]
      | frame :: rest =>
          rw [below] at waits
          obtain ⟨resumed, same⟩ := resumable.resumed value frame (waits frame List.mem_cons_self)
          simp [unwind, same, CallStack.depth, below]

theorem exec_depth (stack : CallStack Frame) (acts : List Act) (waits : ∀ frame ∈ stack.waiting, Waits frame) :
    (machine.exec stack acts).depth + (machine.turns stack acts).countP machine.isEnd =
      stack.depth + (machine.turns stack acts).countP machine.isCall := by
  induction acts generalizing stack with
  | nil => rfl
  | cons act acts ih =>
      have one := machine.step_depth Waits resumable stack act waits
      rw [exec, turns, List.countP_cons, List.countP_cons]
      cases taken : machine.step stack act with
      | ok next =>
          have later := ih next (machine.step_waiting Waits resumable stack next act waits taken)
          simp only [taken] at one
          dsimp only
          omega
      | error value =>
          simp only [taken] at one
          simp only [Executed.depth, List.countP_nil]
          omega

end

end StackMachine

end Yaup.Lib
