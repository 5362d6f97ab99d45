import Yaup.ToolEdits

set_option autoImplicit false

namespace Yaup.Busybox

open Lib

inductive Command where
  | cp (junk : Kind) (fuel : Nat) (argv : List Bytes)
  | rm (junk : Kind) (fuel : Nat) (argv : List Bytes)
  | mv (junk : Kind) (argv : List Bytes)
  | chmod (fuel : Nat) (junk : Node Stat) (argv : List Arg)
  | chgrp (fuel : Nat) (junk : Node Stat) (gidJunk : GidJunk) (groups : Bytes) (argv : List Arg)
  | chown (fuel turns : Nat) (junk : Node Stat) (argv : List Arg)

def Command.run (sys : System) : Command → Cmd Unit
  | .cp junk fuel argv => discard (cpMain sys junk fuel argv)
  | .rm junk fuel argv => rmMain sys junk fuel argv
  | .mv junk argv => mvMain sys junk argv
  | .chmod fuel junk argv => chmodMain sys fuel junk argv
  | .chgrp fuel junk gidJunk groups argv => chgrpMain sys fuel junk gidJunk groups argv
  | .chown fuel turns junk argv => discard (chownMain sys fuel turns junk argv)

def Command.plain : Command → Bool
  | .cp _ _ _ | .rm _ _ _ | .mv _ _ => true
  | _ => false

structure Called where
  sys : System
  cwd : Place
  command : Command

def Called.after (call : Called) (t : Tree Name Stat) : Tree Name Stat :=
  match (call.command.run call.sys).run ⟨t, call.cwd⟩ with
  | .ok _ s => s.tree
  | .error _ s => s.tree

def session (calls : List Called) (t : Tree Name Stat) : Tree Name Stat := calls.foldl (fun t call => call.after t) t

section
variable (fresh : Stat → Prop) (given : Bytes → Prop) (plain : Prop)

theorem command_edits (sys : System) (fs : Fs) (new : ∀ p, fresh (sys.fresh p)) (gives : ∀ p, given (sys.stream p))
    (command : Command) (may : command.plain = false → ¬plain) : Keeps (Edited (statRules fresh given plain) fs) (command.run sys) := by
  cases command with
  | cp junk fuel argv =>
      exact keeps_bind _ _ _ (cp_main_edits sys fresh given plain fs new gives junk fuel argv) fun _ => keeps_pure _ _
  | rm junk fuel argv => exact rm_main_edits sys _ fs junk fuel argv
  | mv junk argv => exact mv_main_edits sys _ fs junk argv
  | chmod fuel junk argv => exact chmod_main_edits sys fresh given plain (may rfl) fs fuel junk argv
  | chgrp fuel junk gidJunk groups argv =>
      exact chgrp_main_edits sys fresh given plain (may rfl) fs fuel junk gidJunk groups argv
  | chown fuel turns junk argv =>
      exact keeps_bind _ _ _ (chown_main_edits sys fresh given plain (may rfl) fs fuel turns junk argv) fun _ => keeps_pure _ _

theorem called_edits (call : Called) (t u : Tree Name Stat) (new : ∀ p, fresh (call.sys.fresh p))
    (gives : ∀ p, given (call.sys.stream p))
    (may : call.command.plain = false → ¬plain) (edits : Relation.ReflTransGen (Edit (statRules fresh given plain)) t u) :
    Relation.ReflTransGen (Edit (statRules fresh given plain)) t (call.after u) := by
  have kept := command_edits fresh given plain call.sys ⟨t, call.cwd⟩ new gives call.command may ⟨u, call.cwd⟩ edits
  rw [Called.after]
  cases ran : (call.command.run call.sys).run ⟨u, call.cwd⟩ with
  | ok a s => exact kept.1 a s ran
  | error e s => exact kept.2 e s ran

theorem session_edits (calls : List Called) (t u : Tree Name Stat)
    (each : ∀ call ∈ calls, (∀ p, fresh (call.sys.fresh p)) ∧ (∀ p, given (call.sys.stream p)) ∧
      (call.command.plain = false → ¬plain))
    (edits : Relation.ReflTransGen (Edit (statRules fresh given plain)) t u) :
    Relation.ReflTransGen (Edit (statRules fresh given plain)) t (session calls u) := by
  induction calls generalizing u with
  | nil => exact edits
  | cons call rest ih =>
      obtain ⟨new, gives, may⟩ := each call List.mem_cons_self
      exact ih (call.after u) (fun later member => each later (List.mem_cons_of_mem _ member))
        (called_edits fresh given plain call t u new gives may edits)

end

-- What a session leaves was there, or is a new file; its bytes were there, or came out of a
-- device or FIFO; and where no command asks for other rights, each entry has those it had, and a
-- new file those of one, but for set-id bits that a write cleared.
theorem session_traced (calls : List Called) (t : Tree Name Stat) :
    ∃ origin, Traced (statRules (fun attr => ∃ call ∈ calls, ∃ p, call.sys.fresh p = attr)
      (fun data => ∃ call ∈ calls, ∃ p, call.sys.stream p = data)
      (∀ call ∈ calls, call.command.plain = true)) t (session calls t) origin := by
  have edits := session_edits (fun attr => ∃ call ∈ calls, ∃ p, call.sys.fresh p = attr)
    (fun data => ∃ call ∈ calls, ∃ p, call.sys.stream p = data) (∀ call ∈ calls, call.command.plain = true) calls t t
    (fun call member => ⟨fun p => ⟨call, member, p, rfl⟩, fun p => ⟨call, member, p, rfl⟩, fun changes all => by
      rw [all call member] at changes
      cases changes⟩) .refl
  exact edits_traced _ t _ edits

end Yaup.Busybox
