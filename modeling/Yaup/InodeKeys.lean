import Yaup.CallFrame
import Yaup.Lib.Run

set_option autoImplicit false

namespace Yaup

open Lib

inductive CacheCall where
  | iget (dev : Dev) (num : Ino)
  | iput (i : InodeId)
  | irelease (i : InodeId)
  | ifree (i : InodeId)

structure CacheAct where
  p : Pid
  wild : Wild
  call : CacheCall

def CacheCall.Leaves (k t : Kernel) : CacheCall → Prop
  | .iget dev num => Yaup.Leaves (Yaup.iget dev num) k t
  | .iput i => Yaup.Leaves (Yaup.iput i) k t
  | .irelease i => Yaup.Leaves (Yaup.irelease i) k t
  | .ifree i => Yaup.Leaves (Yaup.ifree i) k t

def CacheStep (k : Kernel) (act : CacheAct) (t : Kernel) : Prop := act.call.Leaves (begun k act.p act.wild) t

def zeroInode : Inode := ⟨⟨0, 0, 0, 0, fun _ => 0, 0, fun _ => 0, 0, 0, 0⟩, 0, 0, 0, 0⟩

def Kernel.bootInodes (k : Kernel) : Kernel := { k with inodes := fun _ => zeroInode }

def InodesUnique (k : Kernel) : Prop :=
  ∀ i j, (k.inodes i).named = (k.inodes j).named → (k.inodes i).named ≠ (0, 0) → i = j

def GivesAsked (move : Move Kernel CacheAct) : Prop :=
  match move.act.call with
  | .iget dev num => ∀ i, (iget dev num).run (begun move.before move.act.p move.act.wild) = .ok i move.after →
      (move.after.inodes i).named = (dev, num)
  | _ => True

def SparesUsed (move : Move Kernel CacheAct) : Prop :=
  match move.act.call with
  | .iget _ _ => ∀ i, (move.before.inodes i).iCount ≠ 0 → move.after.inodes i = move.before.inodes i
  | _ => True

structure LoadsFresh (k t : Kernel) (dev : Dev) (num : Ino) (i : InodeId) (x : Inode) : Prop where
  miss : findInode k dev num = none
  unused : (k.inodes i).iCount = 0
  named : x.named = (dev, num)
  inodes : t.inodes = Function.update k.inodes i x

theorem slots_steady (k : Kernel) : Steady fun s => s.inodes = k.inodes :=
  fun _ _ frame same => frame.inodes.trans same

theorem iget_slots (k t : Kernel) (dev : Dev) (num : Ino) (left : Leaves (iget dev num) k t) :
    t.inodes = k.inodes ∨ ∃ i x, LoadsFresh k t dev num i x := by
  rcases left with ⟨i, done⟩ | ⟨e, halted⟩
  · obtain ⟨-, ⟨-, rfl⟩ | ⟨miss, unused, b, s, read, rfl⟩⟩ := iget_cases k t dev num i done
    · exact .inl rfl
    · have inodes : s.inodes = k.inodes := (bread_frame _ s _ _ b read).inodes
      let record := loadRecord sizeofDInode (s.blocks b).bData (s.wild.pastBlock b) num
      refine .inr ⟨i, (s.inodes i).loaded dev num record, miss, ((free_inode_some k i).mp unused).1, rfl, ?_⟩
      rw [Kernel.loadedInode, Kernel.unlock_inodes, (released_frame _ b).inodes, Kernel.unlock_inodes,
        Kernel.setInode_inodes, inodes]
  · by_cases free : k.locks .icache = none
    · cases hit : findInode k dev num with
      | some i =>
          rw [iget_hit k dev num i free hit] at halted
          cases halted
      | none =>
          cases unused : freeInode k with
          | none =>
              rw [iget_full k dev num free hit unused] at halted
              cases halted
              exact .inl rfl
          | some i =>
              rw [iget_missed k dev num i free hit unused] at halted
              cases read : (bread dev (tableBlk k dev num)).run (k.lock .icache) with
              | ok b s =>
                  rw [read] at halted
                  cases halted
              | error d s =>
                  rw [read] at halted
                  cases halted
                  exact .inl ((bread_keeps _ (slots_steady k) dev _ (k.lock .icache) rfl).2 _ _ read)
    · rw [iget_blocked k dev num free] at halted
      cases halted
      exact .inl rfl

def SameNames (k t : Kernel) : Prop := ∀ i, (t.inodes i).named = (k.inodes i).named

theorem same_names_steady (k : Kernel) : Steady (SameNames k) := by
  intro s t frame same i
  rw [frame.inodes]
  exact same i

theorem set_inode_names (k s : Kernel) (i : InodeId) (x : Inode) (same : SameNames k s)
    (named : x.named = (s.inodes i).named) : SameNames k (s.setInode i x) := by
  intro j
  rw [Kernel.setInode_inodes]
  by_cases here : j = i
  · subst here
    rw [Function.update_self, named]
    exact same j
  · rw [Function.update_of_ne here]
    exact same j

theorem iput_names (k : Kernel) (i : InodeId) : Keeps (SameNames k) (iput i) :=
  iput_keeps _ (same_names_steady k) i fun s same _ => set_inode_names k s i _ same rfl

theorem irelease_names (k : Kernel) (i : InodeId) : Keeps (SameNames k) (irelease i) := by
  intro s same
  rw [irelease_run]
  refine ended_ok _ _ _ ?_
  split
  · exact set_inode_names k s i _ same rfl
  · exact same

theorem ifree_names (k : Kernel) (i : InodeId) : Keeps (SameNames k) (ifree i) := by
  have steady := same_names_steady k
  refine keeps_bind _ _ _ (acquire_keeps _ steady _) fun _ => keeps_get _ _ fun s _ => ?_
  refine keeps_bind _ _ _ (bread_keeps _ steady _ _) fun b => ?_
  refine keeps_bind _ _ _ (modify_keeps _ steady _ fun _ => ⟨rfl, rfl, rfl, rfl, rfl⟩) fun _ => ?_
  refine keeps_bind _ _ _ (bwrite_keeps _ steady b) fun _ => ?_
  exact keeps_bind _ _ _ (release_keeps _ steady _) fun _ => keeps_pure _ _

theorem same_names_unique (k t : Kernel) (unique : InodesUnique k) (same : SameNames k t) : InodesUnique t := by
  intro i j equal used
  rw [same, same] at equal
  rw [same] at used
  exact unique i j equal used

theorem loads_fresh_unique (k t : Kernel) (dev : Dev) (num : Ino) (i : InodeId) (x : Inode) (unique : InodesUnique k)
    (loads : LoadsFresh k t dev num i x) : InodesUnique t := by
  have absent : ∀ j, (k.inodes j).named ≠ (dev, num) := by
    intro j named
    obtain ⟨sameDev, sameNum⟩ := Prod.mk.inj named
    exact (find_inode_none k dev num).mp loads.miss j ⟨sameDev, sameNum⟩
  intro a b
  rw [loads.inodes]
  by_cases atA : a = i
  · by_cases atB : b = i
    · exact fun _ _ => atA.trans atB.symm
    · subst atA
      rw [Function.update_self, Function.update_of_ne atB, loads.named]
      exact fun equal => absurd equal.symm (absent b)
  · by_cases atB : b = i
    · subst atB
      rw [Function.update_self, Function.update_of_ne atA, loads.named]
      exact fun equal => absurd equal (absent a)
    · rw [Function.update_of_ne atA, Function.update_of_ne atB]
      exact unique a b

theorem cache_step_unique (k t : Kernel) (act : CacheAct) (unique : InodesUnique k) (step : CacheStep k act t) :
    InodesUnique t := by
  obtain ⟨p, w, call⟩ := act
  have start : SameNames k (begun k p w) := fun _ => rfl
  cases call with
  | iget dev num =>
      rcases iget_slots (begun k p w) t dev num step with same | ⟨i, x, loads⟩
      · exact same_names_unique k t unique fun i => by rw [same]; rfl
      · exact loads_fresh_unique (begun k p w) t dev num i x unique loads
  | iput i => exact same_names_unique k t unique (leaves_keeps _ _ (iput_names k i) _ t start step)
  | irelease i => exact same_names_unique k t unique (leaves_keeps _ _ (irelease_names k i) _ t start step)
  | ifree i => exact same_names_unique k t unique (leaves_keeps _ _ (ifree_names k i) _ t start step)

theorem cache_step_gives (k t : Kernel) (act : CacheAct) : GivesAsked ⟨k, act, t⟩ := by
  obtain ⟨p, w, call⟩ := act
  cases call with
  | iget dev num => exact fun i done => iget_named _ t dev num i done
  | _ => trivial

theorem cache_step_spares (k t : Kernel) (act : CacheAct) (step : CacheStep k act t) : SparesUsed ⟨k, act, t⟩ := by
  obtain ⟨p, w, call⟩ := act
  cases call with
  | iget dev num =>
      intro i used
      rcases iget_slots (begun k p w) t dev num step with same | ⟨j, x, loads⟩
      · exact congrFun same i
      · have other : i ≠ j := by
          rintro rfl
          exact used loads.unused
        exact (congrFun loads.inodes i).trans (Function.update_of_ne other x (begun k p w).inodes)
  | _ => trivial

theorem inode_keys_unique (k : Kernel) (moves : List (Move Kernel CacheAct)) (last : Kernel)
    (run : Run CacheStep k.bootInodes moves last) :
    Throughout InodesUnique moves last ∧ (∀ move ∈ moves, GivesAsked move) ∧ ∀ move ∈ moves, SparesUsed move := by
  have boot : InodesUnique k.bootInodes := fun _ _ _ used => absurd rfl used
  refine ⟨?_, fun move _ => cache_step_gives _ _ _, fun move member => ?_⟩
  · exact run_invariant CacheStep (fun _ _ => True) InodesUnique
      (fun before act after unique step _ => cache_step_unique before after act unique step) _ last moves run boot
      fun _ _ => trivial
  · exact cache_step_spares _ _ _ (run_moves_taken CacheStep _ last moves run move member)

theorem inode_keys_unique_loaded :
    ∃ (moves : List (Move Kernel CacheAct)) (last : Kernel), moves.length = 2 ∧
      Run CacheStep Kernel.zero.bootInodes moves last ∧ Throughout InodesUnique moves last ∧
      (∀ move ∈ moves, GivesAsked move) ∧ ∀ move ∈ moves, SparesUsed move := by
  obtain ⟨s, first⟩ : ∃ s, CacheStep Kernel.zero.bootInodes ⟨0, Kernel.zero.wild, .iget 1 2⟩ s := leaves_somewhere _ _
  obtain ⟨t, second⟩ : ∃ t, CacheStep s ⟨1, Kernel.zero.wild, .iput 0⟩ t := leaves_somewhere _ _
  have run := Run.cons _ _ _ _ _ first (.cons _ _ _ _ _ second (.nil t))
  exact ⟨_, t, rfl, run, inode_keys_unique Kernel.zero _ t run⟩

end Yaup
