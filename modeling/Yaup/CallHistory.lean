import Mathlib.Order.Interval.Finset.Nat
import Yaup.CallRuns
import Yaup.LiveBuffers

set_option autoImplicit false

namespace Yaup

open Lib

-- A call of a process from its start to its end, whichever that is, with no other in between.
structure CallAct where
  p : Pid
  wild : Wild
  call : SysCall

def HistoryStep (k : Kernel) (act : CallAct) (t : Kernel) : Prop := Leaves act.call.run (begun k act.p act.wild) t

theorem begun_quiet (k : Kernel) (p : Pid) (w : Wild) (quiet : Quiet k) : Quiet (begun k p w) := ⟨quiet.clean, quiet.loose⟩

theorem history_step_effects (k t : Kernel) (act : CallAct) (quiet : Quiet k) (taken : HistoryStep k act t) :
    Relation.ReflTransGen (Effect (byItself act.call) act.p) (begun k act.p act.wild) t :=
  call_by_effects act.call act.p _ t rfl (begun_quiet k _ _ quiet) taken

theorem effects_relate (related : Kernel → Kernel → Prop) (refl : ∀ s, related s s)
    (trans : ∀ s t u, related s t → related t u → related s u) (mode : Mode) (p : Pid) (s t : Kernel)
    (effects : Relation.ReflTransGen (Effect mode p) s t) (each : ∀ s t, Effect mode p s t → related s t) : related s t := by
  induction effects with
  | refl => exact refl s
  | tail _ step ih => exact trans _ _ _ ih (each _ _ step)

theorem history_step_quiet (k t : Kernel) (act : CallAct) (quiet : Quiet k) (taken : HistoryStep k act t) : Quiet t :=
  effects_relate (fun s u => Quiet s → Quiet u) (fun _ => id) (fun _ _ _ one two => two ∘ one) _ _ _ t
    (history_step_effects k t act quiet taken) (fun s u effect good => effect_quiet _ _ s u good effect)
    (begun_quiet k _ _ quiet)

section
variable (first last : Kernel) (moves : List (Move Kernel CallAct))

theorem history_quiet (run : Run HistoryStep first moves last) (quiet : Quiet first) : Throughout Quiet moves last :=
  run_invariant HistoryStep (fun _ _ => True) Quiet (fun k act t good taken _ => history_step_quiet k t act good taken)
    first last moves run quiet fun _ _ => trivial

-- What each effect of the calls of a run leads to, and the start of a call, leads from the
-- first state to all others.
theorem history_relates (run : Run HistoryStep first moves last) (quiet : Quiet first)
    (related : Kernel → Kernel → Prop) (refl : ∀ s, related s s)
    (trans : ∀ s t u, related s t → related t u → related s u) (begins : ∀ k p w, related k (begun k p w))
    (effects : ∀ move ∈ moves, ∀ s t, Effect (byItself move.act.call) move.act.p s t → related s t) :
    Throughout (related first) moves last := by
  have calm := history_quiet first last moves run quiet
  refine run_relates HistoryStep related refl trans first last moves run fun move member => ?_
  have taken := run_moves_taken HistoryStep first last moves run move member
  have steps := history_step_effects _ _ move.act (calm.1 move member) taken
  exact trans _ _ _ (begins _ _ _) (effects_relate related refl trans _ _ _ _ steps (effects move member))

end

theorem one_call (k : Kernel) (act : CallAct) : ∃ t, Run HistoryStep k [⟨k, act, t⟩] t := by
  obtain ⟨t, left⟩ := leaves_somewhere act.call.run (begun k act.p act.wild)
  exact ⟨t, .cons _ _ _ _ _ left (.nil t)⟩

def readsTen : CallAct := ⟨0, Kernel.zero.wild, .sysRead setLocals 3 10⟩

def SlotsStay (s t : Kernel) : Prop :=
  ∀ b, (s.blocks b).bCount ≠ 0 → (t.blocks b).key = (s.blocks b).key ∧ (t.blocks b).bCount = (s.blocks b).bCount

theorem slots_stay_refl (s : Kernel) : SlotsStay s s := fun _ _ => ⟨rfl, rfl⟩

theorem slots_stay_trans (s t u : Kernel) (one : SlotsStay s t) (two : SlotsStay t u) : SlotsStay s u := by
  intro b used
  obtain ⟨key, count⟩ := one b used
  have still : (t.blocks b).bCount ≠ 0 := fun zero => used (count.symm.trans zero)
  exact ⟨(two b still).1.trans key, (two b still).2.trans count⟩

theorem idle_slot_stays (s : Kernel) (b : BufId) (x : Buffer) (unused : (s.blocks b).bCount = 0) : SlotsStay s (s.setBlock b x) := by
  intro c used
  have other : c ≠ b := by
    rintro rfl
    exact used unused
  rw [Kernel.setBlock_blocks, Function.update_of_ne other]
  exact ⟨rfl, rfl⟩

theorem same_slot_stays (s : Kernel) (b : BufId) (x : Buffer) (key : x.key = (s.blocks b).key)
    (count : x.bCount = (s.blocks b).bCount) : SlotsStay s (s.setBlock b x) := by
  intro c _
  by_cases same : c = b
  · subst same
    rw [Kernel.setBlock_blocks, Function.update_self]
    exact ⟨key, count⟩
  · rw [Kernel.setBlock_blocks, Function.update_of_ne same]
    exact ⟨rfl, rfl⟩

theorem effect_slots_stay (mode : Mode) (p : Pid) (s t : Kernel) (solo : mode.solo) (effect : Effect mode p s t) :
    SlotsStay s t := by
  cases effect with
  | rekeys b dev blk alone mine absent unused => exact idle_slot_stays s b _ unused
  | stores b x among => exact absurd solo among
  | fills b unused => exact idle_slot_stays s b _ (unused solo)
  | counts b unused filled found => exact idle_slot_stays s b _ (unused solo)
  | puts b i byte allowed => exact same_slot_stays s b _ rfl rfl
  | marks b allowed => exact same_slot_stays s b _ rfl rfl
  | _ => exact slots_stay_refl s

theorem slots_stay_live (s t : Kernel) (stay : SlotsStay s t) : liveKeys s ⊆ liveKeys t := by
  intro key member
  obtain ⟨b, used, named⟩ := (mem_live_keys s key).mp member
  obtain ⟨same, count⟩ := stay b used
  exact (mem_live_keys t key).mpr ⟨b, fun zero => used (count.symm.trans zero), same.trans named⟩

theorem slots_stay_full (s t : Kernel) (stay : SlotsStay s t) (full : ∀ b, (s.blocks b).bCount ≠ 0) (dev : Dev) (blk : Blk)
    (absent : (dev, blk) ∉ liveKeys s) (b : BufId) (u : Kernel) : (bread dev blk).run t ≠ .ok b u := by
  have miss : findBlock t dev blk = none := by
    refine (find_block_none t dev blk).mpr fun c named => absent ?_
    exact (mem_live_keys s _).mpr ⟨c, full c, (stay c (full c)).1.symm.trans named⟩
  have unused : freeBlock t = none := by
    refine (free_block_none t).mpr fun c zero => full c ?_
    exact (stay c (full c)).2.symm.trans zero
  intro done
  obtain ⟨-, ⟨hit, -⟩ | ⟨hit, -⟩ | ⟨-, found, -⟩⟩ := bread_cases t u dev blk b done
  · rw [miss] at hit
    cases hit
  · rw [miss] at hit
    cases hit
  · rw [unused] at found
    cases found

theorem cache_never_evicts (first last : Kernel) (moves : List (Move Kernel CallAct))
    (run : Run HistoryStep first moves last) (quiet : Quiet first) :
    Throughout (fun k => SlotsStay first k ∧ liveKeys first ⊆ liveKeys k ∧ (liveKeys k).card ≤ nrBuf ∧
      ((∀ b, (first.blocks b).bCount ≠ 0) → ∀ dev blk, (dev, blk) ∉ liveKeys first →
        ∀ b u, (bread dev blk).run k ≠ .ok b u)) moves last := by
  have stay := history_relates first last moves run quiet SlotsStay slots_stay_refl slots_stay_trans
    (fun _ _ _ => slots_stay_refl _) fun move _ s t => effect_slots_stay _ _ s t trivial
  have all : ∀ k, SlotsStay first k → SlotsStay first k ∧ liveKeys first ⊆ liveKeys k ∧ (liveKeys k).card ≤ nrBuf ∧
      ((∀ b, (first.blocks b).bCount ≠ 0) → ∀ dev blk, (dev, blk) ∉ liveKeys first →
        ∀ b u, (bread dev blk).run k ≠ .ok b u) := fun k kept =>
    ⟨kept, slots_stay_live first k kept, live_keys_fit k, slots_stay_full first k kept⟩
  exact ⟨fun move member => all _ (stay.1 move member), all _ stay.2⟩

-- Every slot of the cache is in use, slot 0 with the block of the file of ten bytes.
def fullCache : Kernel :=
  { tenByteFile 0 with
    blocks := fun b => { Kernel.zero.blocks b with bDev := 1, bBlk := UInt64.ofNat (b.val + 5), bCount := 1 } }

theorem two_calls (k : Kernel) (act later : CallAct) :
    ∃ s t, Run HistoryStep k [⟨k, act, s⟩, ⟨s, later, t⟩] t := by
  obtain ⟨s, left⟩ := leaves_somewhere act.call.run (begun k act.p act.wild)
  obtain ⟨t, rest⟩ := one_call s later
  exact ⟨s, t, .cons _ _ _ _ _ left rest⟩

theorem cache_never_evicts_full :
    ∃ s t, Run HistoryStep fullCache [⟨fullCache, readsTen, s⟩, ⟨s, ⟨1, Kernel.zero.wild, .sbread 0⟩, t⟩] t ∧
      (t.blocks 0).key = (1, 5) ∧ (t.blocks 0).bCount = 1 ∧ (liveKeys t).card ≤ nrBuf ∧
      ∀ b u, (bread 0 4).run t ≠ .ok b u := by
  obtain ⟨s, t, run⟩ := two_calls fullCache readsTen ⟨1, Kernel.zero.wild, .sbread 0⟩
  have quiet : Quiet fullCache := ⟨(ten_byte_file_quiet 0).clean, (ten_byte_file_quiet 0).loose⟩
  have used : ∀ b, (fullCache.blocks b).bCount ≠ 0 := fun _ => by simp [fullCache]
  have absent : ((0, 4) : Dev × Blk) ∉ liveKeys fullCache := by
    intro live
    obtain ⟨b, -, named⟩ := (mem_live_keys fullCache _).mp live
    exact absurd (congrArg Prod.fst named) (by simp [fullCache, Buffer.key])
  obtain ⟨stay, -, fit, full⟩ := (cache_never_evicts fullCache t _ run quiet).2
  obtain ⟨key, count⟩ := stay 0 (used 0)
  exact ⟨s, t, run, key, count, fit, full used 0 4 absent⟩

def InodesStay (s t : Kernel) : Prop := ∀ i, (s.inodes i).iCount ≠ 0 → t.inodes i = s.inodes i

theorem inodes_stay_trans (s t u : Kernel) (one : InodesStay s t) (two : InodesStay t u) : InodesStay s u := by
  intro i used
  have same := one i used
  rw [two i (by rw [same]; exact used), same]

theorem idle_inode_stays (s : Kernel) (i : InodeId) (x : Inode) (unused : (s.inodes i).iCount = 0) :
    InodesStay s (s.setInode i x) := by
  intro j used
  have other : j ≠ i := by
    rintro rfl
    exact used unused
  rw [Kernel.setInode_inodes, Function.update_of_ne other]

theorem effect_inodes_stay (mode : Mode) (p : Pid) (s t : Kernel) (solo : mode.solo) (none : ¬mode.stating)
    (effect : Effect mode p s t) : InodesStay s t := by
  cases effect with
  | loads i x flag named mine unused => exact idle_inode_stays s i _ (unused solo)
  | names i x flag mine unused => exact idle_inode_stays s i _ (unused solo)
  | drops i allowed => exact absurd allowed none
  | _ => exact fun _ _ => rfl

theorem inodes_in_use_stay (first last : Kernel) (moves : List (Move Kernel CallAct))
    (run : Run HistoryStep first moves last) (quiet : Quiet first) (none : ∀ move ∈ moves, ¬move.act.call.stats) :
    Throughout (InodesStay first) moves last :=
  history_relates first last moves run quiet InodesStay (fun _ _ _ => rfl) inodes_stay_trans (fun _ _ _ _ _ => rfl)
    fun move member s t => effect_inodes_stay _ _ s t trivial (none move member)

theorem inodes_in_use_stay_ten :
    ∃ s t, Run HistoryStep (tenByteFile 0) [⟨tenByteFile 0, ⟨0, Kernel.zero.wild, writesTwo⟩, s⟩,
      ⟨s, ⟨0, Kernel.zero.wild, .sysClose 3⟩, t⟩] t ∧ t.inodes 0 = tenBytes := by
  obtain ⟨s, t, run⟩ := two_calls (tenByteFile 0) ⟨0, Kernel.zero.wild, writesTwo⟩ ⟨0, Kernel.zero.wild, .sysClose 3⟩
  have plain : ∀ move ∈ [(⟨tenByteFile 0, ⟨0, Kernel.zero.wild, writesTwo⟩, s⟩ : Move Kernel CallAct),
      ⟨s, ⟨0, Kernel.zero.wild, .sysClose 3⟩, t⟩], ¬move.act.call.stats := by
    rw [List.forall_mem_cons, List.forall_mem_singleton]
    exact ⟨id, id⟩
  have stay := (inodes_in_use_stay _ t _ run (ten_byte_file_quiet 0) plain).2 0 (by simp [tenByteFile, tenBytes])
  exact ⟨s, t, run, stay.trans (by simp [tenByteFile])⟩

def Proc.handedOut (x : Proc) : Finset (Fin nrOfiles) := Finset.univ.filter fun fd => 3 ≤ fd.val ∧ x.pFilp fd ≠ none

theorem mem_handed_out (x : Proc) (fd : Fin nrOfiles) : fd ∈ x.handedOut ↔ 3 ≤ fd.val ∧ x.pFilp fd ≠ none := by
  simp [Proc.handedOut]

theorem handed_out_fit (x : Proc) : x.handedOut.card ≤ nrOfiles - 3 := by
  rw [← Nat.card_Ico 3 nrOfiles]
  refine Finset.card_le_card_of_injOn Fin.val (fun fd member => ?_) (Fin.val_injective.injOn)
  have high := ((mem_handed_out x fd).mp member).1
  exact Finset.mem_coe.mpr (Finset.mem_Ico.mpr ⟨high, fd.isLt⟩)

theorem handed_out_stays (p : Pid) (s t : Kernel) (handed : Handed p s t) :
    (s.procs p).handedOut ⊆ (t.procs p).handedOut := by
  intro fd member
  obtain ⟨high, set⟩ := (mem_handed_out _ fd).mp member
  obtain ⟨f, given⟩ := Option.ne_none_iff_exists'.mp set
  refine (mem_handed_out _ fd).mpr ⟨high, ?_⟩
  rw [handed.stay fd f given]
  exact Option.some_ne_none f

theorem history_step_handed (p : Pid) (k t : Kernel) (act : CallAct) (quiet : Quiet k) (taken : HistoryStep k act t) :
    Handed p k t := by
  have steps := history_step_effects k t act quiet taken
  have handed := effects_relate (Handed p) (fun _ => same_entry_handed p _ _ rfl) (handed_trans p) _ _ _ t steps
    fun s u effect => effect_handed _ p _ s u effect
  exact handed_trans p k _ t (same_entry_handed p k (begun k act.p act.wild) rfl) handed

theorem discard_leaves {α : Type} (x : Kern α) (k t : Kernel) (left : Leaves (discard x) k t) : Leaves x k t := by
  rcases left with ⟨a, done⟩ | ⟨e, halted⟩
  · obtain ⟨b, s, first, rest⟩ := (run_bind_ok x (fun _ => pure ()) k t a).mp done
    cases rest
    exact .inl ⟨b, first⟩
  · rcases (run_bind_error x (fun _ => pure ()) k t e).mp halted with first | ⟨b, s, -, rest⟩
    · exact .inr ⟨e, first⟩
    · cases rest

def Returned {α : Type} (call : Kern α) (k : Kernel) : Bool :=
  match call.run k with
  | .ok _ _ => true
  | .error _ _ => false

def openedBy (p : Pid) (move : Move Kernel CallAct) : Bool :=
  match move.act.call with
  | .sysOpen path flags mode =>
      decide (move.act.p = p) && Returned (sysOpen path flags mode) (begun move.before move.act.p move.act.wild)
  | _ => false

theorem opened_step (p : Pid) (k t : Kernel) (act : CallAct) (quiet : Quiet k) (taken : HistoryStep k act t)
    (opened : openedBy p ⟨k, act, t⟩ = true) : (k.procs p).handedOut.card + 1 ≤ (t.procs p).handedOut.card := by
  have stays := handed_out_stays p k t (history_step_handed p k t act quiet taken)
  obtain ⟨q, w, call⟩ := act
  cases call with
  | sysOpen path flags mode =>
      simp only [openedBy, Bool.and_eq_true, decide_eq_true_eq] at opened
      obtain ⟨rfl, returned⟩ := opened
      obtain ⟨r, done⟩ : ∃ r, (sysOpen path flags mode).run (begun k q w) = .ok r t := by
        rcases discard_leaves _ _ t taken with done | ⟨e, halted⟩
        · exact done
        · rw [Returned, halted] at returned
          cases returned
      obtain ⟨fd, f, high, unused, set⟩ := sys_open_sets _ t path flags mode r done
      have fresh : fd ∉ (k.procs q).handedOut := fun member => ((mem_handed_out _ fd).mp member).2 unused
      have member : fd ∈ (t.procs q).handedOut := (mem_handed_out _ fd).mpr ⟨high, fun none => by
        exact absurd (none.symm.trans set) nofun⟩
      rw [← Finset.card_insert_of_notMem fresh]
      exact Finset.card_le_card (Finset.insert_subset member stays)
  | _ => cases opened

theorem opens_bounded (first last : Kernel) (moves : List (Move Kernel CallAct)) (p : Pid)
    (run : Run HistoryStep first moves last) (quiet : Quiet first) :
    moves.countP (openedBy p) + (first.procs p).handedOut.card ≤ nrOfiles - 3 := by
  suffices grown : moves.countP (openedBy p) + (first.procs p).handedOut.card ≤ (last.procs p).handedOut.card from
    grown.trans (handed_out_fit _)
  induction run with
  | nil state => simp
  | cons before after final act moves taken rest ih =>
      have later := ih (history_step_quiet before after act quiet taken)
      by_cases opened : openedBy p ⟨before, act, after⟩ = true
      · have one := opened_step p before after act quiet taken opened
        rw [List.countP_cons_of_pos opened]
        omega
      · have stays := Finset.card_le_card (handed_out_stays p before after (history_step_handed p before after act quiet taken))
        rw [List.countP_cons_of_neg opened]
        omega

def opensRoot : CallAct := ⟨0, Kernel.zero.wild, .sysOpen [47, 0] 1 0⟩

theorem opens_bounded_root :
    ∃ s t, Run HistoryStep (tenByteFile 0) [⟨tenByteFile 0, opensRoot, s⟩, ⟨s, ⟨0, Kernel.zero.wild, .sysClose 4⟩, t⟩] t ∧
      [(⟨tenByteFile 0, opensRoot, s⟩ : Move Kernel CallAct), ⟨s, ⟨0, Kernel.zero.wild, .sysClose 4⟩, t⟩].countP (openedBy 0) = 1 ∧
      1 + ((tenByteFile 0).procs 0).handedOut.card ≤ 125 := by
  obtain ⟨s, t, run⟩ := two_calls (tenByteFile 0) opensRoot ⟨0, Kernel.zero.wild, .sysClose 4⟩
  obtain ⟨u, opened⟩ := ten_byte_file_opens_root
  have returned : openedBy 0 ⟨tenByteFile 0, opensRoot, s⟩ = true := by
    have same : begun (tenByteFile 0) 0 Kernel.zero.wild = tenByteFile 0 := rfl
    simp only [openedBy, opensRoot, same, Returned, opened, decide_true, Bool.and_self]
  have once : [(⟨tenByteFile 0, opensRoot, s⟩ : Move Kernel CallAct), ⟨s, ⟨0, Kernel.zero.wild, .sysClose 4⟩, t⟩].countP
      (openedBy 0) = 1 := by
    rw [List.countP_cons_of_pos returned]
    rfl
  have bound := opens_bounded (tenByteFile 0) t _ 0 run (ten_byte_file_quiet 0)
  rw [once] at bound
  exact ⟨s, t, run, once, bound⟩

end Yaup
