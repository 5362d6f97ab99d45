import Yaup.CallFrame
import Yaup.Effects

set_option autoImplicit false

namespace Yaup

open Lib

structure Aside (s t : Kernel) : Prop where
  procs : t.procs = s.procs
  inodes : t.inodes = s.inodes
  locks : ∀ l, l.guards → l ≠ .buffer → t.locks l = s.locks l

structure Carried (mode : Mode) (p : Pid) (holds : Kernel → Prop) : Prop where
  relied : ∀ s t, Relied mode p s t → holds s → holds t
  aside : ∀ s t, Aside s t → holds s → holds t

def Anywhere : Kernel → Prop := fun _ => True

theorem anywhere_carried (mode : Mode) (p : Pid) : Carried mode p Anywhere :=
  ⟨fun _ _ _ _ => trivial, fun _ _ _ _ => trivial⟩

theorem holding_carried (mode : Mode) (p : Pid) (l : Lock) (guard : l.guards) (other : l ≠ .buffer) :
    Carried mode p fun s => s.locks l = some p where
  relied := fun _ _ relied mine => relied.excluded.locks l guard mine
  aside := fun _ _ aside mine => (aside.locks l guard other).trans mine

structure Naming (p : Pid) (named : InodeId → Dev × Ino) (s : Kernel) : Prop where
  mine : s.locks .icache = some p
  same : inodeNames s = named

theorem naming_carried (mode : Mode) (p : Pid) (named : InodeId → Dev × Ino) : Carried mode p (Naming p named) where
  relied := fun s t relied found =>
    ⟨relied.excluded.locks .icache trivial found.mine, (funext (relied.excluded.names found.mine)).trans found.same⟩
  aside := by
    intro s t aside found
    refine ⟨(aside.locks .icache trivial (by simp)).trans found.mine, ?_⟩
    rw [← found.same]
    exact funext fun i => congrArg (fun inodes => (inodes i).named) aside.inodes

structure Searching (mode : Mode) (p : Pid) (named : InodeId → Dev × Ino) (free : InodeId) (s : Kernel) : Prop where
  naming : Naming p named s
  unused : mode.solo → (s.inodes free).iCount = 0

theorem searching_carried (mode : Mode) (p : Pid) (named : InodeId → Dev × Ino) (free : InodeId) :
    Carried mode p (Searching mode p named free) where
  relied := by
    intro s t relied found
    refine ⟨(naming_carried mode p named).relied s t relied found.naming, fun solo => ?_⟩
    rw [relied.still solo]
    exact found.unused solo
  aside := by
    intro s t aside found
    refine ⟨(naming_carried mode p named).aside s t aside found.naming, fun solo => ?_⟩
    rw [aside.inodes]
    exact found.unused solo

structure Keying (p : Pid) (keys : BufId → Dev × Blk) (s : Kernel) : Prop where
  mine : s.locks .buffer = some p
  same : bufferKeys s = keys

theorem keying_relied (mode : Mode) (p : Pid) (keys : BufId → Dev × Blk) (s t : Kernel) (relied : Relied mode p s t)
    (found : Keying p keys s) : Keying p keys t :=
  ⟨relied.excluded.locks .buffer trivial found.mine, (funext (relied.excluded.keys found.mine)).trans found.same⟩

theorem keying_stored (p : Pid) (keys : BufId → Dev × Blk) (s : Kernel) (b : BufId) (x : Buffer) (found : Keying p keys s) :
    Keying p (Function.update keys b x.key) ((s.runAs p).setBlock b x) := by
  refine ⟨found.mine, ?_⟩
  rw [buffer_keys_set, ← found.same]
  rfl

theorem naming_stored (p : Pid) (named : InodeId → Dev × Ino) (s : Kernel) (i : InodeId) (x : Inode)
    (found : Naming p named s) : Naming p (Function.update named i x.named) ((s.runAs p).setInode i x) := by
  refine ⟨found.mine, ?_⟩
  rw [inode_names_set, ← found.same]
  rfl

theorem aside_set_block (s : Kernel) (p : Pid) (b : BufId) (x : Buffer) : Aside s ((s.runAs p).setBlock b x) :=
  ⟨rfl, rfl, fun _ _ _ => rfl⟩

theorem carried_set_block (mode : Mode) (p : Pid) (holds : Kernel → Prop) (carried : Carried mode p holds) (s t : Kernel)
    (relied : Relied mode p s t) (held : holds s) (b : BufId) (x : Buffer) : holds ((t.runAs p).setBlock b x) :=
  carried.aside t _ (aside_set_block t p b x) (carried.relied s t relied held)

theorem aside_take (s : Kernel) (p : Pid) (l : Lock) (plain : l.guards → l = .buffer) : Aside s ((s.runAs p).lock l) where
  procs := rfl
  inodes := rfl
  locks := fun _ guard other => Function.update_of_ne (fun same => other (same.trans (plain (same ▸ guard)))) _ _

theorem aside_give (s : Kernel) (l : Lock) (plain : l.guards → l = .buffer) : Aside s (s.unlock l) where
  procs := rfl
  inodes := rfl
  locks := fun _ guard other => Function.update_of_ne (fun same => other (same.trans (plain (same ▸ guard)))) _ _

theorem effect_current (mode : Mode) (p : Pid) (s t : Kernel) (mine : s.current = p) (effect : Effect mode p s t) :
    t.current = p := by
  cases effect with
  | strays w => exact mine
  | gives l own settled => exact mine
  | _ => rfl

theorem kernel_plays (mode : Mode) (p : Pid) :
    Plays kernelLocks (callTerms mode) p acquire release fun k => k.current = p where
  seen := by
    rintro s rfl
    rfl
  stays := effect_current mode p
  takes := by
    rintro l s rfl free
    exact acquire_free s l free
  waits := fun l s taken => ⟨_, acquire_blocked s l taken⟩
  gives := fun l s => release_run s l

namespace Steps

section
variable {α β : Type} (mode : Mode) (p : Pid)

theorem ends_by_weaken (after wider : α → Kernel → Prop) (s : Kernel) (result : EStateM.Result Halt Kernel α)
    (ended : EndsBy (callTerms mode) p after s result) (reaches : ∀ a t, after a t → wider a t) :
    EndsBy (callTerms mode) p wider s result := by
  cases result with
  | ok a t => exact ⟨ended.1, reaches a t ended.2⟩
  | error e t => exact ended

theorem relied_refl (s : Kernel) : Relied mode p s s := ⟨excluded_refl p s, fun _ => rfl⟩

theorem assures_bind (x : Steps α) (f : α → Steps β) (middle : α → Kernel → Prop) (after : β → Kernel → Prop)
    (s : Kernel) (first : Assures mode p x middle s) (second : ∀ a t, middle a t → Assures mode p (f a) after t) :
    Assures mode p (x >>= f) after s where
  among := fun among => Lib.assures_bind kernelLocks (callTerms mode) p x f middle after s (first.among among)
    fun a t start => (second a t start).among among
  alone := fun solo own standing => ends_by_bind kernelLocks (callTerms mode) p _ _ _ (kernel_plays mode p) x f middle after s
    own standing (first.alone solo own standing) fun a t mine good start => (second a t start).alone solo mine good

theorem assures_pure (a : α) (after : α → Kernel → Prop) (s : Kernel) (reaches : after a s) : Assures mode p (pure a) after s :=
  ⟨fun _ => reaches, fun _ _ _ => ⟨.refl, reaches⟩⟩

theorem assures_halt (e : Halt) (after : α → Kernel → Prop) (s : Kernel) : Assures mode p (.halt e : Steps α) after s :=
  ⟨fun _ => trivial, fun _ _ _ => .refl⟩

theorem assures_panic_then (msg : String) (f : β → Steps α) (after : α → Kernel → Prop) (s : Kernel) :
    Assures mode p (panic msg >>= f) after s := assures_halt mode p (.panic msg) after s

theorem assures_state (f : Kernel → Steps β) (after : β → Kernel → Prop) (s : Kernel)
    (rest : ∀ t, Relied mode p s t → Standing mode t → Assures mode p (f (t.runAs p)) after t) :
    Assures mode p (Prog.state >>= f) after s where
  among := fun among t relied good => (rest t relied good).among among
  alone := by
    rintro solo rfl good
    exact (rest s (relied_refl mode _ s) good).alone solo rfl good

theorem assures_change (change : Kernel → Kernel) (f : Unit → Steps β) (after : β → Kernel → Prop) (s : Kernel)
    (step : ∀ t, Relied mode p s t → Effect mode p t (change (t.runAs p)))
    (rest : ∀ t, Relied mode p s t → Assures mode p (f ()) after (change (t.runAs p))) :
    Assures mode p (Prog.change change >>= f) after s where
  among := fun among t relied _ => ⟨step t relied, (rest t relied).among among⟩
  alone := by
    rintro solo rfl good
    have moved : Effect mode s.current s (change s) := step s (relied_refl mode _ s)
    have onward := (rest s (relied_refl mode _ s)).alone solo (effect_current mode _ s _ rfl moved)
      ((callTerms mode).kept _ _ _ good moved)
    exact ends_by_steps (callTerms mode) _ after s _ (.single moved) _ onward

theorem assures_acquire (l : Lock) (f : Unit → Steps β) (after : β → Kernel → Prop) (s : Kernel)
    (plain : ∀ b, l ≠ .buf b)
    (rest : ∀ t, Relied mode p s t → Standing mode t → t.locks l = none → Assures mode p (f ()) after ((t.runAs p).lock l)) :
    Assures mode p (Prog.acquire l >>= f) after s where
  among := fun among t relied good free => ⟨.takes l free plain, (rest t relied good free).among among⟩
  alone := by
    intro solo own good
    have moved : ∀ free : s.locks l = none, Effect mode p s ((s.runAs p).lock l) := fun free => .takes l free plain
    refine ends_by_acquire kernelLocks (callTerms mode) p _ _ _ (kernel_plays mode p) l f after s own moved fun free => ?_
    exact (rest s (relied_refl mode p s) good free).alone solo rfl ((callTerms mode).kept p s _ good (moved free))

theorem settled_relied (l : Lock) (s t : Kernel) (guard : l = .buffer ∨ l = .icache → s.locks l = some p)
    (relied : Relied mode p s t) (settled : KeysSettled l s) : KeysSettled l t where
  blocks := by
    rintro rfl
    have same : bufferKeys t = bufferKeys s := funext (relied.excluded.keys (guard (.inl rfl)))
    rw [same]
    exact settled.blocks rfl
  inodes := by
    rintro rfl
    have same : inodeNames t = inodeNames s := funext (relied.excluded.names (guard (.inr rfl)))
    rw [same]
    exact settled.inodes rfl

theorem assures_release_settled (l : Lock) (f : Unit → Steps β) (after : β → Kernel → Prop) (s : Kernel)
    (own : l.guards → s.locks l = some p) (settled : mode.apart → KeysSettled l s)
    (rest : ∀ t, Relied mode p s t → Assures mode p (f ()) after (t.unlock l)) :
    Assures mode p (Prog.release l >>= f) after s := by
  have guard : l = .buffer ∨ l = .icache → s.locks l = some p := by
    rintro (rfl | rfl)
    · exact own trivial
    · exact own trivial
  have moved : ∀ t, Relied mode p s t → Effect mode p t (t.unlock l) := fun t relied =>
    .gives l (fun guard => relied.excluded.locks l guard (own guard))
      fun apart => settled_relied mode p l s t guard relied (settled apart)
  refine ⟨fun among t relied _ => ⟨moved t relied, (rest t relied).among among⟩, fun solo mine good => ?_⟩
  have here := moved s (relied_refl mode p s)
  refine ends_by_release kernelLocks (callTerms mode) p _ _ _ (kernel_plays mode p) l f after s here ?_
  exact (rest s (relied_refl mode p s)).alone solo mine ((callTerms mode).kept p s _ good here)

theorem assures_release (l : Lock) (f : Unit → Steps β) (after : β → Kernel → Prop) (s : Kernel)
    (plain : l ≠ .buffer ∧ l ≠ .icache) (own : l.guards → s.locks l = some p)
    (rest : ∀ t, Relied mode p s t → Assures mode p (f ()) after (t.unlock l)) :
    Assures mode p (Prog.release l >>= f) after s :=
  assures_release_settled mode p l f after s own
    (fun _ => ⟨fun same => absurd same plain.1, fun same => absurd same plain.2⟩) rest

theorem assures_tell (n : Note) (f : Unit → Steps β) (after : β → Kernel → Prop) (s : Kernel)
    (rest : Assures mode p (f ()) after s) : Assures mode p (Prog.tell n >>= f) after s := ⟨rest.among, rest.alone⟩

theorem assures_holdingsleep (l : Lock) (f : Bool → Steps β) (after : β → Kernel → Prop) (s : Kernel)
    (rest : ∀ t, Relied mode p s t → Standing mode t → Assures mode p (f (decide (t.locks l = some p))) after t) :
    Assures mode p (holdingsleep l >>= f) after s :=
  assures_state mode p (fun k => f (decide (k.locks l = some k.current))) after s rest

theorem assures_weaken (x : Steps α) (after wider : α → Kernel → Prop) (s : Kernel) (main : Assures mode p x after s)
    (reaches : ∀ a t, after a t → wider a t) : Assures mode p x wider s where
  among := fun among => Lib.assures_weaken kernelLocks (callTerms mode) p x after wider s (main.among among) reaches
  alone := fun solo own good => ends_by_weaken mode p after wider s _ (main.alone solo own good) reaches

theorem assures_merged (solo : mode.solo) (f g h whole : Kernel → Kernel) (same : ∀ k, whole k = h (g (f k)))
    (rest : Unit → Steps β) (after : β → Kernel → Prop) (s : Kernel) (main : Assures mode p (Prog.change whole >>= rest) after s) :
    Assures mode p (Prog.change f >>= fun _ => Prog.change g >>= fun _ => Prog.change h >>= rest) after s := by
  obtain rfl := funext same
  exact ⟨fun among => absurd solo among, main.alone⟩

theorem holds_lock (t : Kernel) (l : Lock) : ((t.runAs p).lock l).locks l = some p := by simp

theorem brelease_assures (holds : Kernel → Prop) (carried : Carried mode p holds) (b : BufId) (s : Kernel) (start : holds s) :
    Assures mode p (brelease b) (fun _ => holds) s := by
  unfold brelease
  apply assures_tell
  apply assures_state
  intro t relied _
  dsimp only
  split
  · exact assures_panic_then mode p _ _ _ _
  · apply assures_holdingsleep
    intro u seen good
    rw [good.quiet.loose b]
    exact assures_pure mode p _ _ _ (carried.relied t u seen (carried.relied s t relied start))

structure Handed (mode : Mode) (holds : Kernel → Prop) (dev : Dev) (blk : Blk) (b : BufId) (s : Kernel) : Prop where
  kept : holds s
  found : mode.solo → findBlock s dev blk = some b

theorem found_relied (s t : Kernel) (relied : Relied mode p s t) (dev : Dev) (blk : Blk) (b : BufId)
    (found : mode.solo → findBlock s dev blk = some b) (solo : mode.solo) : findBlock t dev blk = some b := by
  rw [relied.still solo]
  exact found solo

theorem rekeyed_found (s : Kernel) (b : BufId) (dev : Dev) (blk : Blk) (absent : ∀ c, (s.blocks c).key ≠ (dev, blk)) :
    findBlock (s.setBlock b ((s.blocks b).rekey dev blk)) dev blk = some b := by
  refine (find_block_some _ dev blk b).mpr ⟨by simp [Buffer.key, Buffer.rekey], fun c below => ?_⟩
  simpa [ne_of_lt below] using absent c

theorem bget_gives (holds : Kernel → Prop) (carried : Carried mode p holds) (dev : Dev) (blk : Blk) (b : BufId)
    (keys : BufId → Dev × Blk) (s : Kernel) (held : Keying p keys s) (apart : mode.apart → ApartBut keys (0, 0) none)
    (start : Handed mode holds dev blk b s) :
    Assures mode p (Prog.release .buffer >>= fun _ => pure b : Steps BufId) (Handed mode holds dev blk) s := by
  apply assures_release_settled mode p _ _ _ _ fun _ => held.mine
  · refine fun mine => ⟨fun _ => ?_, nofun⟩
    rw [held.same]
    exact apart mine
  · intro t relied
    have given := carried.aside t _ (aside_give t .buffer fun _ => rfl) (carried.relied s t relied start.kept)
    exact assures_pure mode p b _ _ ⟨given, found_relied mode p s t relied dev blk b start.found⟩

theorem store_assures (among : ¬mode.solo) (holds : Kernel → Prop) (carried : Carried mode p holds) (b : BufId)
    (x : Kernel → Buffer) (keys : BufId → Dev × Blk) (key : Dev × Blk) (f : Unit → Steps β) (after : β → Kernel → Prop)
    (s : Kernel) (held : Keying p keys s) (start : holds s) (others : mode.apart → ApartBut keys (0, 0) (some b))
    (named : ∀ t, bufferKeys t = keys → (x t).key = key)
    (rest : ∀ t, Keying p (Function.update keys b key) t → holds t → Assures mode p (f ()) after t) :
    Assures mode p (Prog.change (fun k => k.setBlock b (x k)) >>= f) after s := by
  apply assures_change
  · intro t relied
    have found := keying_relied mode p keys s t relied held
    refine .stores b _ among found.mine fun apart => ?_
    rw [found.same]
    exact others apart
  · intro t relied
    have found := keying_relied mode p keys s t relied held
    have stored := keying_stored p keys t b (x (t.runAs p)) found
    rw [named (t.runAs p) found.same] at stored
    exact rest _ stored (carried_set_block mode p holds carried s t relied start b _)

theorem rekey_stores (b : BufId) (dev : Dev) (blk : Blk) (k : Kernel) :
    k.setBlock b ((k.blocks b).rekey dev blk) =
      (fun k => k.setBlock b { k.blocks b with bDirty := false }) ((fun k => k.setBlock b { k.blocks b with bDev := dev })
        (k.setBlock b { k.blocks b with bBlk := blk })) := by
  simp only [Kernel.setBlock_blocks, Function.update_self, set_block_twice]
  rfl

theorem bget_renew_assures (holds : Kernel → Prop) (carried : Carried mode p holds) (dev : Dev) (blk : Blk) (b : BufId)
    (keys : BufId → Dev × Blk) (s : Kernel) (held : Keying p keys s) (apart : mode.apart → ApartBut keys (0, 0) none)
    (absent : ∀ c, keys c ≠ (dev, blk)) (idle : mode.solo → (s.blocks b).bCount = 0) (start : holds s) :
    Assures mode p (bgetFound dev blk none (some b)) (Handed mode holds dev blk) s := by
  have closes : ∀ t, Keying p (Function.update keys b (dev, blk)) t → Handed mode holds dev blk b t →
      Assures mode p (initlock (.buf b) >>= fun _ => Prog.release .buffer >>= fun _ => pure b : Steps BufId)
        (Handed mode holds dev blk) t := by
    intro t renewed handed
    refine assures_release mode p (.buf b) _ _ _ ⟨by simp, by simp⟩ (fun guard => guard.elim) fun u relied => ?_
    obtain ⟨mine, same⟩ := keying_relied mode p _ t u relied renewed
    refine bget_gives mode p holds carried dev blk b _ _ ⟨by simpa using mine, same⟩ (fun given => ?_) ⟨?_, ?_⟩
    · exact apart_put_fresh _ _ _ b (apart_leaving_out _ _ _ (apart given)) fun c _ => absent c
    · exact carried.aside u _ (aside_give u (.buf b) fun guard => guard.elim) (carried.relied t u relied handed.kept)
    · exact found_relied mode p t u relied dev blk b handed.found
  unfold bgetFound
  by_cases solo : mode.solo
  · refine assures_merged mode p solo _ _ _ _ (rekey_stores b dev blk) _ _ s ?_
    have away : ∀ t, Relied mode p s t → ∀ c, (t.blocks c).key ≠ (dev, blk) := fun t relied c clash =>
      absent c ((congrFun (keying_relied mode p keys s t relied held).same c).symm.trans clash)
    apply assures_change
    · intro t relied
      refine .rekeys b dev blk solo (keying_relied mode p keys s t relied held).mine (away t relied) ?_
      rw [relied.still solo]
      exact idle solo
    · intro t relied
      have stored := keying_stored p keys t b ((t.blocks b).rekey dev blk) (keying_relied mode p keys s t relied held)
      refine closes _ stored ⟨?_, fun _ => ?_⟩
      · exact carried_set_block mode p holds carried s t relied start b _
      · exact rekeyed_found (t.runAs p) b dev blk (away t relied)
  · have left := fun given => apart_leaving_out keys (0, 0) (some b) (apart given)
    refine store_assures mode p solo holds carried b _ keys ((keys b).1, blk) _ _ s held start left (fun t same => ?_) ?_
    · rw [← same]
      rfl
    intro t first kept
    have put := fun given => apart_put_out keys (0, 0) ((keys b).1, blk) b (left given)
    refine store_assures mode p solo holds carried b _ _ (dev, blk) _ _ t first kept put (fun u same => ?_) ?_
    · have here := congrFun same b
      rw [Function.update_self] at here
      exact congrArg (Prod.mk dev) (Prod.mk.inj here).2
    intro u second kept
    have again := fun given => apart_put_out _ (0, 0) (dev, blk) b (put given)
    refine store_assures mode p solo holds carried b _ _ (dev, blk) _ _ u second kept again (fun v same => ?_) ?_
    · have here := congrFun same b
      rw [Function.update_self] at here
      exact here
    intro v third kept
    rw [Function.update_idem, Function.update_idem] at third
    exact closes v third ⟨kept, fun alone => absurd alone solo⟩

theorem bget_assures (holds : Kernel → Prop) (carried : Carried mode p holds) (dev : Dev) (blk : Blk) (s : Kernel)
    (start : holds s) : Assures mode p (bget dev blk) (Handed mode holds dev blk) s := by
  unfold bget
  apply assures_acquire mode p _ _ _ _ (by simp)
  intro t relied good free
  have apart : mode.apart → ApartBut (bufferKeys t) (0, 0) none := fun given => tidy_free _ _ (good.tidy given).blocks free
  have kept := carried.aside t _ (aside_take t p .buffer fun _ => rfl) (carried.relied s t relied start)
  apply assures_state
  intro u seen _
  have held : Keying p (bufferKeys t) u := keying_relied mode p _ _ u seen ⟨holds_lock p t .buffer, rfl⟩
  replace kept := carried.relied _ u seen kept
  cases found : findBlock (u.runAs p) dev blk with
  | some b => exact bget_gives mode p holds carried dev blk b _ u held apart ⟨kept, fun _ => found⟩
  | none =>
      cases unused : freeBlock (u.runAs p) with
      | none => exact assures_halt mode p _ _ _
      | some b =>
          refine bget_renew_assures mode p holds carried dev blk b _ u held apart ?_ (fun _ => ?_) kept
          · rw [← held.same]
            exact (find_block_none (u.runAs p) dev blk).mp found
          · exact ((free_block_some (u.runAs p) b).mp unused).1

theorem bread_body_assures (holds : Kernel → Prop) (carried : Carried mode p holds) (dev : Dev) (blk : Blk) (b : BufId)
    (s : Kernel) (start : Handed mode holds dev blk b s) : Assures mode p (breadBody b) (fun _ => holds) s := by
  unfold breadBody
  apply assures_state
  intro t relied _
  have held := carried.relied s t relied start.kept
  have found := found_relied mode p s t relied dev blk b start.found
  dsimp only
  split
  · rename_i idle
    have unused : ∀ u, Relied mode p t u → mode.solo → (u.blocks b).bCount = 0 := by
      intro u relied solo
      rw [relied.still solo]
      exact idle
    apply assures_change
    · exact fun u relied => .fills b (unused u relied)
    intro u filled
    apply assures_change
    · intro v relied
      have here : mode.solo → v = (u.runAs p).setBlock b { u.blocks b with bData := u.disk (u.blocks b).key } :=
        relied.still
      refine .counts b (fun solo => ?_) (fun solo => ?_) fun solo => ?_
      · rw [here solo]
        simpa using unused u filled solo
      · rw [here solo]
        simp [Buffer.key]
      · have searched := found_relied mode p t u filled dev blk b found solo
        obtain ⟨onDev, onBlk⟩ := Prod.mk.inj ((find_block_some u dev blk b).mp searched).1
        have keys : ∀ c, (v.blocks c).key = (u.blocks c).key := by
          intro c
          rw [here solo]
          exact set_block_key u b c { u.blocks b with bData := u.disk (u.blocks b).key } rfl
        obtain ⟨sameDev, sameBlk⟩ := Prod.mk.inj (keys b)
        rw [find_block_keys u v keys, sameDev, sameBlk, onDev, onBlk]
        exact searched
    · intro v counted
      refine assures_pure mode p b _ _ (carried_set_block mode p holds carried _ v counted ?_ b _)
      exact carried_set_block mode p holds carried t u filled held b _
  · exact assures_pure mode p b _ _ held

theorem bread_assures (holds : Kernel → Prop) (carried : Carried mode p holds) (dev : Dev) (blk : Blk) (s : Kernel)
    (start : holds s) : Assures mode p (bread dev blk) (fun _ => holds) s := by
  unfold bread
  apply assures_bind mode p _ _ _ _ _ (bget_assures mode p holds carried dev blk s start)
  intro b t handed
  apply assures_bind mode p _ _ _ _ _ (bread_body_assures mode p holds carried dev blk b t handed)
  intro c u held
  apply assures_tell
  exact assures_pure mode p c _ _ held

-- iput only takes the inode: none is to be written back.
theorem iput_assures (holds : Kernel → Prop) (carried : Carried mode p holds) (i : InodeId) (s : Kernel) (start : holds s) :
    Assures mode p (iput i) (fun _ => holds) s := by
  unfold iput
  apply assures_acquire mode p _ _ _ _ (by simp)
  intro t relied _ _
  have held := carried.aside t _ (aside_take t p (.ino i) fun guard => guard.elim) (carried.relied s t relied start)
  apply assures_state
  intro u relied good
  have clean : ¬ ((u.runAs p).inodes i).iFlag &&& idirt ≠ 0 := not_not.mpr (good.quiet.clean i)
  simp only [if_neg clean]
  exact assures_pure mode p _ _ _ (carried.relied _ u relied held)

theorem ilock_assures (i : InodeId) (s : Kernel) : Assures mode p (ilock i) (fun _ => Anywhere) s := by
  unfold ilock
  apply assures_holdingsleep
  intro t _ _
  cases decide (t.locks .icache = some p) with
  | false => exact assures_pure mode p _ _ _ trivial
  | true =>
      apply assures_acquire mode p _ _ _ _ (by simp)
      exact fun _ _ _ _ => assures_pure mode p _ _ _ trivial

theorem irelease_assures (stating : mode.stating) (i : InodeId) (s : Kernel) :
    Assures mode p (irelease i) (fun _ => Anywhere) s := by
  unfold irelease
  apply assures_state
  intro t _ _
  dsimp only
  split
  · exact assures_panic_then mode p _ _ _ _
  · apply assures_holdingsleep
    intro u _ _
    cases decide (u.locks (.ino i) = some p) with
    | false => exact assures_pure mode p _ _ _ trivial
    | true =>
        apply assures_change
        · exact fun v _ => .drops i stating
        · intro v _
          refine assures_release mode p (.ino i) _ _ _ ⟨by simp, by simp⟩ (fun guard => guard.elim) ?_
          exact fun _ _ => assures_pure mode p _ _ _ trivial

theorem iget_gives (i : InodeId) (named : InodeId → Dev × Ino) (s : Kernel) (held : Naming p named s)
    (apart : mode.apart → ApartBut named (0, 0) none) :
    Assures mode p (Prog.release .icache >>= fun _ => pure i : Steps InodeId) (fun _ => Anywhere) s := by
  apply assures_release_settled mode p _ _ _ _ fun _ => held.mine
  · refine fun mine => ⟨nofun, fun _ => ?_⟩
    rw [held.same]
    exact apart mine
  · exact fun _ _ => assures_pure mode p _ _ _ trivial

theorem name_assures (i : InodeId) (x : Kernel → Inode) (named : InodeId → Dev × Ino) (name : Dev × Ino)
    (f : Unit → Steps β) (after : β → Kernel → Prop) (s : Kernel) (held : Searching mode p named i s)
    (others : mode.apart → ApartBut named (0, 0) (some i)) (flag : ∀ t, (x t).iFlag = (t.inodes i).iFlag)
    (count : ∀ t, (x t).iCount = (t.inodes i).iCount) (names : ∀ t, inodeNames t = named → (x t).named = name)
    (rest : ∀ t, Searching mode p (Function.update named i name) i t → Assures mode p (f ()) after t) :
    Assures mode p (Prog.change (fun k => k.setInode i (x k)) >>= f) after s := by
  apply assures_change
  · intro t relied
    obtain ⟨found, unused⟩ := (searching_carried mode p named i).relied s t relied held
    refine .names i _ (flag (t.runAs p)) found.mine unused fun apart => ?_
    rw [found.same]
    exact others apart
  · intro t relied
    obtain ⟨found, unused⟩ := (searching_carried mode p named i).relied s t relied held
    have stored := naming_stored p named t i (x (t.runAs p)) found
    rw [names (t.runAs p) found.same] at stored
    refine rest _ ⟨stored, fun solo => ?_⟩
    rw [Kernel.setInode_inodes, Function.update_self, count]
    exact unused solo

theorem iget_load_assures (free : InodeId) (dev : Dev) (num : Ino) (named : InodeId → Dev × Ino) (s : Kernel)
    (absent : ∀ j, named j ≠ (dev, num)) (apart : mode.apart → ApartBut named (0, 0) none)
    (start : Searching mode p named free s) : Assures mode p (igetLoad free dev num) (fun _ => Anywhere) s := by
  have carried := searching_carried mode p named free
  have left := fun given => apart_leaving_out named (0, 0) (some free) (apart given)
  unfold igetLoad
  apply assures_state
  intro t relied _
  apply assures_bind mode p _ _ _ _ _ (bread_assures mode p _ carried _ _ t (carried.relied s t relied start))
  intro b u found
  refine name_assures mode p free _ named (named free) _ _ u found left (fun _ => rfl) (fun _ => rfl) (fun v same => ?_) ?_
  · rw [← same]
    rfl
  intro v found
  rw [Function.update_eq_self] at found
  refine name_assures mode p free _ named ((named free).1, num) _ _ v found left (fun _ => rfl) (fun _ => rfl)
    (fun w same => ?_) ?_
  · rw [← same]
    rfl
  intro w found
  have put := fun given => apart_put_out named (0, 0) ((named free).1, num) free (left given)
  refine name_assures mode p free _ _ (dev, num) _ _ w found put (fun _ => rfl) (fun _ => rfl) (fun x same => ?_) ?_
  · have here := congrFun same free
    rw [Function.update_self] at here
    exact congrArg (Prod.mk dev) (Prod.mk.inj here).2
  intro x found
  rw [Function.update_idem] at found
  have whole := naming_carried mode p (Function.update named free (dev, num))
  apply assures_change
  · intro y relied
    obtain ⟨loaded, unused⟩ := (searching_carried mode p _ free).relied x y relied found
    exact .loads free _ rfl rfl loaded.mine unused
  intro y relied
  have counted := naming_stored p _ y free { y.inodes free with iCount := (y.inodes free).iCount + 1 }
    (whole.relied x y relied found.naming)
  have name : ({ y.inodes free with iCount := (y.inodes free).iCount + 1 } : Inode).named = (dev, num) := by
    have here := congrFun (whole.relied x y relied found.naming).same free
    rwa [Function.update_self] at here
  rw [name, Function.update_idem] at counted
  refine assures_release mode p (.ino free) _ _ _ ⟨by simp, by simp⟩ (fun guard => guard.elim) fun z relied => ?_
  have held := whole.aside z _ (aside_give z (.ino free) fun guard => guard.elim) (whole.relied _ z relied counted)
  apply assures_bind mode p _ _ _ _ _ (brelease_assures mode p _ whole b _ held)
  intro _ z held
  exact iget_gives mode p free _ z held fun given => apart_put_fresh _ _ _ free (left given) fun j _ => absent j

theorem iget_assures (dev : Dev) (num : Ino) (s : Kernel) : Assures mode p (iget dev num) (fun _ => Anywhere) s := by
  unfold iget
  apply assures_acquire mode p _ _ _ _ (by simp)
  intro t _ good free
  have apart : mode.apart → ApartBut (inodeNames t) (0, 0) none := fun given => tidy_free _ _ (good.tidy given).inodes free
  apply assures_state
  intro u relied _
  have held : Naming p (inodeNames t) u :=
    (naming_carried mode p _).relied _ u relied ⟨holds_lock p t .icache, rfl⟩
  rw [iget_loop_searches]
  cases found : findInode (u.runAs p) dev num with
  | some i => exact iget_gives mode p i _ u held apart
  | none =>
      cases unused : freeInode (u.runAs p) with
      | none => exact assures_halt mode p _ _ _
      | some free =>
          have idle : (u.inodes free).iCount = 0 := ((free_inode_some (u.runAs p) free).mp unused).1
          refine iget_load_assures mode p free dev num _ u (fun j clash => ?_) apart ⟨held, fun _ => idle⟩
          rw [← held.same] at clash
          exact (find_inode_none (u.runAs p) dev num).mp found j (Prod.ext_iff.mp clash)

theorem dir_search_assures (ip : InodeId) (entry : List UInt8) (slots : List Nat) (s : Kernel) :
    Assures mode p (dirSearch ip entry slots) (fun _ => Anywhere) s := by
  induction slots generalizing s with
  | nil => exact assures_pure mode p _ _ _ trivial
  | cons n rest ih =>
      unfold dirSearch
      apply assures_state
      intro t _ _
      apply assures_bind mode p _ _ _ _ _ (bread_assures mode p _ (anywhere_carried mode p) _ _ t trivial)
      intro b u _
      apply assures_state
      intro v _ _
      generalize searchBlock (v.runAs p) b entry = found
      cases found with
      | some num => exact assures_pure mode p _ _ _ trivial
      | none =>
          apply assures_bind mode p _ _ _ _ _ (brelease_assures mode p _ (anywhere_carried mode p) b v trivial)
          exact fun _ w _ => ih w

theorem dir_lookup_assures (ip : InodeId) (entry : List UInt8) (s : Kernel) :
    Assures mode p (dirLookup ip entry) (fun _ => Anywhere) s := by
  unfold dirLookup
  apply assures_bind mode p _ _ _ _ _ (dir_search_assures mode p ip entry _ s)
  intro found t _
  cases found with
  | none => exact assures_pure mode p _ _ _ trivial
  | some key =>
      apply assures_bind mode p _ _ _ _ _ (iget_assures mode p key.1 key.2 t)
      exact fun i u _ => assures_pure mode p _ _ _ trivial

theorem namei_loop_assures (i : Option InodeId) (path : List UInt8) (s : Kernel) :
    Assures mode p (nameiLoop i path) (fun _ => Anywhere) s := by
  fun_induction nameiLoop i path generalizing s with
  | case1 i => exact assures_halt mode p _ _ _
  | case2 more ip => exact assures_pure mode p _ _ _ trivial
  | case3 more => exact assures_halt mode p _ _ _
  | case4 i byte more named found => exact assures_halt mode p _ _ _
  | case5 byte more named entry rest found => exact assures_halt mode p _ _ _
  | case6 byte more named entry rest found ip ih =>
      apply assures_bind mode p _ _ _ _ _ (dir_lookup_assures mode p ip entry s)
      intro answer t _
      cases answer with
      | none => exact assures_halt mode p _ _ _
      | some j => exact ih j t

theorem namei_assures (path : List UInt8) (s : Kernel) : Assures mode p (namei path) (fun _ => Anywhere) s := by
  unfold namei
  apply assures_state
  intro t _ _
  cases path with
  | nil => exact assures_halt mode p _ _ _
  | cons byte rest =>
      dsimp only
      split
      · exact namei_loop_assures mode p _ _ t
      · exact namei_loop_assures mode p _ _ t

theorem set_file_assures (f : FileId) (x : Kernel → File) (rest : Unit → Steps β) (after : β → Kernel → Prop) (s : Kernel)
    (mine : s.locks .openFiles = some p) (onward : ∀ t, t.locks .openFiles = some p → Assures mode p (rest ()) after t) :
    Assures mode p (Prog.change (fun k => k.setFile f (x k)) >>= rest) after s := by
  have table := holding_carried mode p .openFiles trivial (by simp)
  apply assures_change
  · exact fun t relied => .files f _ (.inl (table.relied s t relied mine))
  · exact fun t relied => onward _ (table.relied s t relied mine)

theorem open_files_gives (a : α) (s : Kernel) (mine : s.locks .openFiles = some p) :
    Assures mode p (Prog.release .openFiles >>= fun _ => pure a : Steps α) (fun _ => Anywhere) s := by
  apply assures_release mode p _ _ _ _ ⟨by simp, by simp⟩ fun _ => mine
  exact fun _ _ => assures_pure mode p _ _ _ trivial

theorem fget_assures (i : InodeId) (flags : UInt32) (s : Kernel) : Assures mode p (fget i flags) (fun _ => Anywhere) s := by
  unfold fget
  apply assures_acquire mode p _ _ _ _ (by simp)
  intro t _ _ _
  apply assures_state
  intro u relied _
  have mine : u.locks .openFiles = some p := relied.excluded.locks .openFiles trivial (holds_lock p t .openFiles)
  generalize fgetLoop (u.runAs p) i = found
  rcases found with f | _ | empty
  · unfold fgetFound
    apply assures_state
    intro v relied _
    replace mine := relied.excluded.locks .openFiles trivial mine
    dsimp only
    split
    · exact assures_halt mode p _ _ _
    · exact set_file_assures mode p f _ _ _ v mine fun w mine => open_files_gives mode p _ w mine
  · exact open_files_gives mode p none u mine
  · unfold fgetFound
    refine set_file_assures mode p empty _ _ _ u mine fun u mine => ?_
    refine set_file_assures mode p empty _ _ _ u mine fun u mine => ?_
    refine set_file_assures mode p empty _ _ _ u mine fun u mine => ?_
    refine set_file_assures mode p empty _ _ _ u mine fun u mine => ?_
    refine set_file_assures mode p empty _ _ _ u mine fun u mine => ?_
    refine assures_release mode p (.file empty) _ _ _ ⟨by simp, by simp⟩ (fun guard => guard.elim) fun v relied => ?_
    replace mine : v.locks .openFiles = some p := relied.excluded.locks .openFiles trivial mine
    exact open_files_gives mode p _ _ (by simpa using mine)

def Offered (p : Pid) (answer : Option (Fin nrOfiles)) (s : Kernel) : Prop :=
  ∀ fd, answer = some fd → 3 ≤ fd.val ∧ (s.procs p).pFilp fd = none

theorem offered_relied (answer : Option (Fin nrOfiles)) (s t : Kernel) (relied : Relied mode p s t)
    (offered : Offered p answer s) : Offered p answer t := by
  intro fd same
  rw [relied.excluded.procs]
  exact offered fd same

theorem fdget_assures (s : Kernel) : Assures mode p fdget (fun fd => Offered p fd) s := by
  unfold fdget
  apply assures_acquire mode p _ _ _ _ (by simp)
  intro t _ _ _
  apply assures_state
  intro u relied _
  have mine : u.locks .procTable = some p := relied.excluded.locks .procTable trivial (holds_lock p t .procTable)
  generalize search : freeFd ((u.runAs p).procs (u.runAs p).current) = found
  cases found with
  | none => exact assures_pure mode p _ _ _ nofun
  | some c =>
      have offered : Offered p (some c) u := by
        rintro fd ⟨⟩
        exact of_decide_eq_true (Fin.find?_eq_some_iff.mp search).1
      apply assures_release mode p _ _ _ _ ⟨by simp, by simp⟩ fun _ => mine
      intro v relied
      exact assures_pure mode p _ (fun fd => Offered p fd) _ (offered_relied mode p _ u v relied offered)

theorem open_inode_assures (i : InodeId) (flags : UInt32) (s : Kernel) :
    Assures mode p (openInode i flags) (fun _ => Anywhere) s := by
  have puts := iput_assures mode p _ (anywhere_carried mode p) i
  unfold openInode
  apply assures_state
  intro t _ _
  dsimp only
  split
  · apply assures_bind mode p _ _ _ _ _ (puts t trivial)
    exact fun _ _ _ => assures_panic_then mode p _ _ _ _
  · apply assures_bind mode p _ _ _ _ _ (fget_assures mode p i flags t)
    intro file u _
    cases file with
    | none =>
        apply assures_bind mode p _ _ _ _ _ (puts u trivial)
        exact fun _ _ _ => assures_halt mode p _ _ _
    | some f =>
        apply assures_bind mode p _ _ _ _ _ (fdget_assures mode p u)
        intro answer v offered
        cases answer with
        | none =>
            apply assures_bind mode p _ _ _ _ _ (puts v trivial)
            intro _ w _
            apply assures_change
            · exact fun x _ => .files f _ (.inr ⟨rfl, rfl, rfl⟩)
            · exact fun _ _ => assures_halt mode p _ _ _
        | some fd =>
            apply assures_state
            intro w relied _
            replace offered := offered_relied mode p _ v w relied offered
            change Assures mode p (Prog.acquire (.proc p) >>= fun _ => _) _ w
            apply assures_acquire mode p _ _ _ _ (by simp)
            intro x relied _ _
            replace offered : Offered p (some fd) ((x.runAs p).lock (.proc p)) := offered_relied mode p _ w x relied offered
            have mine := holds_lock p x (.proc p)
            apply assures_change
            · intro y relied
              obtain ⟨low, empty⟩ := offered_relied mode p _ _ y relied offered fd rfl
              exact .points fd f low empty
            · intro y relied
              replace mine : y.locks (.proc p) = some p := relied.excluded.locks (.proc p) trivial mine
              refine assures_release mode p (.proc p) _ _ _ ⟨by simp, by simp⟩ (fun _ => mine) ?_
              exact fun _ _ => assures_pure mode p _ _ _ trivial

theorem sys_open_assures (path : List UInt8) (flags : UInt32) (perms : UInt16) (s : Kernel) :
    Assures mode p (sysOpen path flags perms) (fun _ => Anywhere) s := by
  unfold sysOpen
  apply assures_bind mode p _ _ _ _ _ (namei_assures mode p path s)
  exact fun i t _ => open_inode_assures mode p i flags t

theorem close_last_assures (f : FileId) (s : Kernel) (mine : s.locks .openFiles = some p) :
    Assures mode p (closeLast f) (fun _ t => t.locks .openFiles = some p) s := by
  have table := holding_carried mode p .openFiles trivial (by simp)
  unfold closeLast
  refine set_file_assures mode p f _ _ _ s mine fun t mine => ?_
  apply assures_state
  intro u relied _
  replace mine : u.locks .openFiles = some p := relied.excluded.locks .openFiles trivial mine
  dsimp only
  cases ((u.runAs p).files f).fInode with
  | none => exact assures_halt mode p _ _ _
  | some i =>
      apply assures_bind mode p _ _ _ _ _ (iput_assures mode p _ table i u mine)
      intro _ v mine
      refine set_file_assures mode p f _ _ _ v mine fun v mine => ?_
      refine set_file_assures mode p f _ _ _ v mine fun v mine => ?_
      refine set_file_assures mode p f _ _ _ v mine fun v mine => ?_
      refine assures_release mode p (.file f) (fun _ => pure ()) _ _ ⟨by simp, by simp⟩ (fun guard => guard.elim)
        fun w relied => ?_
      replace mine : w.locks .openFiles = some p := relied.excluded.locks .openFiles trivial mine
      exact assures_pure mode p () (fun _ t => t.locks .openFiles = some p) _ (by simpa using mine)

theorem sys_close_assures (fd : Int) (s : Kernel) : Assures mode p (sysClose fd) (fun _ => Anywhere) s := by
  unfold sysClose
  dsimp only
  split
  · exact assures_panic_then mode p _ _ _ _
  · apply assures_state
    intro t _ _
    split
    · rename_i inside
      generalize ((t.runAs p).procs (t.runAs p).current).pFilp ⟨fd.toNat, inside⟩ = slot
      cases slot with
      | none => exact assures_halt mode p _ _ _
      | some f =>
          apply assures_acquire mode p _ _ _ _ (by simp)
          intro u _ _ _
          refine set_file_assures mode p f _ _ _ _ (holds_lock p u .openFiles) fun v mine => ?_
          apply assures_state
          intro w relied _
          replace mine : w.locks .openFiles = some p := relied.excluded.locks .openFiles trivial mine
          split
          · apply assures_bind mode p _ _ _ _ _ (close_last_assures mode p f w mine)
            exact fun _ x mine => open_files_gives mode p 0 x mine
          · exact open_files_gives mode p 0 w mine
    · exact assures_halt mode p _ _ _

theorem stat_inode_assures (stating : mode.stating) (i : InodeId) (s : Kernel) :
    Assures mode p (statInode i) (fun _ => Anywhere) s := by
  unfold statInode
  apply assures_bind mode p _ _ _ _ _ (ilock_assures mode p i s)
  intro _ t _
  apply assures_state
  intro u _ _
  apply assures_bind mode p _ _ _ _ _ (iput_assures mode p _ (anywhere_carried mode p) i u trivial)
  intro _ v _
  apply assures_bind mode p _ _ _ _ _ (irelease_assures mode p stating i v)
  exact fun _ _ _ => assures_pure mode p _ _ _ trivial

theorem sys_stat_assures (stating : mode.stating) (path : List UInt8) (s : Kernel) :
    Assures mode p (sysStat path) (fun _ => Anywhere) s := by
  unfold sysStat
  apply assures_bind mode p _ _ _ _ _ (namei_assures mode p path s)
  exact fun i t _ => stat_inode_assures mode p stating i t

theorem fstat_inode_assures (stating : mode.stating) (i : InodeId) (s : Kernel) :
    Assures mode p (fstatInode i) (fun _ => Anywhere) s := by
  unfold fstatInode
  apply assures_bind mode p _ _ _ _ _ (ilock_assures mode p i s)
  intro _ t _
  apply assures_state
  intro u _ _
  apply assures_bind mode p _ _ _ _ _ (irelease_assures mode p stating i u)
  exact fun _ _ _ => assures_pure mode p _ _ _ trivial

theorem sys_fstat_assures (stating : mode.stating) (ebadfd : Int) (fd : Int) (s : Kernel) :
    Assures mode p (sysFstat ebadfd fd) (fun _ => Anywhere) s := by
  unfold sysFstat
  split
  · exact assures_pure mode p _ _ _ trivial
  · apply assures_state
    intro t _ _
    generalize ((t.runAs p).procs (t.runAs p).current).filp fd = slot
    rcases slot with _ | _ | f
    · exact assures_halt mode p _ _ _
    · exact assures_pure mode p _ _ _ trivial
    · dsimp only
      cases ((t.runAs p).files f).fInode with
      | none => exact assures_halt mode p _ _ _
      | some i => exact fstat_inode_assures mode p stating i t

theorem open_file_assures (unset : Unset) (fd : Int) (usr grp oth : UInt16) (bad denied : String) (s : Kernel) :
    Assures mode p (openFile unset fd usr grp oth bad denied) (fun _ => Anywhere) s := by
  unfold openFile
  split
  · exact assures_panic_then mode p _ _ _ _
  · apply assures_state
    intro t _ _
    change Assures mode p (Prog.acquire (.proc p) >>= fun _ => _) _ t
    apply assures_acquire mode p _ _ _ _ (by simp)
    intro u _ _ _
    split
    · exact assures_halt mode p _ _ _
    · split
      · exact assures_panic_then mode p _ _ _ _
      · refine assures_release mode p (.proc p) _ _ _ ⟨by simp, by simp⟩ (fun _ => holds_lock p u (.proc p)) ?_
        exact fun _ _ => assures_pure mode p _ _ _ trivial
    · exact assures_halt mode p _ _ _

theorem file_block_assures (f : FileId) (s : Kernel) : Assures mode p (fileBlock f) (fun _ => Anywhere) s := by
  unfold fileBlock
  apply assures_state
  intro t _ _
  generalize fileKey (t.runAs p) f = key
  cases key with
  | none => exact assures_halt mode p _ _ _
  | some key => exact bread_assures mode p _ (anywhere_carried mode p) key.1 key.2 t trivial

theorem read_loop_assures (f : FileId) (n : Nat) (b : BufId) (i : Fin blkSz) (s : Kernel) :
    Assures mode p (readLoop f n b i) (fun _ => Anywhere) s := by
  induction n generalizing b i s with
  | zero => exact assures_pure mode p _ _ _ trivial
  | succ n ih =>
      unfold readLoop
      apply assures_state
      intro t _ _
      apply assures_change
      · exact fun u _ => .files f _ (.inr ⟨rfl, rfl, rfl⟩)
      intro u _
      split
      · apply assures_bind mode p _ _ _ _ _ (ih b _ _)
        exact fun _ _ _ => assures_pure mode p _ _ _ trivial
      · apply assures_bind mode p _ _ _ _ _ (brelease_assures mode p _ (anywhere_carried mode p) b _ trivial)
        intro _ v _
        apply assures_bind mode p _ _ _ _ _ (file_block_assures mode p f v)
        intro c w _
        apply assures_state
        intro x _ _
        apply assures_bind mode p _ _ _ _ _ (ih c _ x)
        exact fun _ _ _ => assures_pure mode p _ _ _ trivial

theorem sys_read_assures (unset : Unset) (fd : Int) (buffsize : UInt64) (s : Kernel) :
    Assures mode p (sysRead unset fd buffsize) (fun _ => Anywhere) s := by
  unfold sysRead
  cases unset.clamp with
  | none => exact assures_halt mode p _ _ _
  | some pair =>
      dsimp only
      apply assures_bind mode p _ _ _ _ _ (open_file_assures mode p unset fd _ _ _ _ _ s)
      intro f t _
      apply assures_state
      intro u _ _
      generalize (if fread = 0 then (1 : UInt8) else 0) = mask
      split
      · exact assures_panic_then mode p _ _ _ _
      · apply assures_bind mode p _ _ _ _ _ (file_block_assures mode p f u)
        intro b v _
        apply assures_state
        intro w _ _
        apply assures_bind mode p _ _ _ _ _ (read_loop_assures mode p f _ b _ w)
        exact fun _ _ _ => assures_pure mode p _ _ _ trivial

theorem balloc_scan_assures (getFreePosAt : Kernel → UInt8 → Option UInt64) (dev : Dev) (b : BufId) (left : Nat)
    (s : Kernel) : Assures mode p (ballocScan getFreePosAt dev b left) (fun _ => Anywhere) s := by
  induction left generalizing s with
  | zero => exact assures_pure mode p _ _ _ trivial
  | succ left ih =>
      unfold ballocScan
      apply assures_state
      intro t _ _
      split
      · exact assures_halt mode p _ _ _
      · rename_i blk _
        split
        · have handed := bget_assures mode p _ (anywhere_carried mode p) dev blk t trivial
          exact assures_weaken mode p _ _ _ t handed fun _ _ _ => trivial
        · exact ih t

theorem balloc_assures (getFreePosAt : Kernel → UInt8 → Option UInt64) (unset : Option BufId) (turns : Nat) (dev : Dev)
    (s : Kernel) : Assures mode p (balloc getFreePosAt unset turns dev) (fun _ => Anywhere) s := by
  unfold balloc
  induction turns generalizing unset s with
  | zero => exact assures_halt mode p _ _ _
  | succ turns ih =>
      unfold ballocLoop
      apply assures_state
      intro t _ _
      split
      · apply assures_bind mode p _ _ _ _ _ (bread_assures mode p _ (anywhere_carried mode p) dev _ t trivial)
        intro b u _
        apply assures_bind mode p _ _ _ _ _ (balloc_scan_assures mode p getFreePosAt dev b blkSz u)
        exact fun c v _ => ih (some c) v
      · exact assures_pure mode p _ _ _ trivial

theorem new_block_assures (getFreePosAt : Kernel → UInt8 → Option UInt64) (block : Option BufId) (turns : Nat)
    (f : FileId) (s : Kernel) :
    Assures mode p (newBlock (ballocBuffer getFreePosAt block turns) f) (fun _ => Anywhere) s := by
  unfold newBlock
  apply assures_state
  intro t _ _
  split
  · exact assures_halt mode p _ _ _
  · apply assures_bind mode p _ _ (fun _ => Anywhere)
    · unfold ballocBuffer
      apply assures_bind mode p _ _ _ _ _ (balloc_assures mode p getFreePosAt block turns _ t)
      intro answer u _
      cases answer with
      | none => exact assures_halt mode p _ _ _
      | some b => exact assures_pure mode p _ _ _ trivial
    · intro b u _
      apply assures_tell
      exact assures_pure mode p _ _ _ trivial

theorem write_loop_assures (writing : mode.writing) (getFreePosAt : Kernel → UInt8 → Option UInt64)
    (block : Option BufId) (turns : Nat)
    (f : FileId) (data : Bytes) (b : BufId) (i : Fin blkSz) (s : Kernel) :
    Assures mode p (writeLoop (ballocBuffer getFreePosAt block turns) f data b i) (fun _ => Anywhere) s := by
  induction data generalizing b i s with
  | nil => exact assures_pure mode p _ _ _ trivial
  | cons byte rest ih =>
      unfold writeLoop
      apply assures_change
      · exact fun t _ => .puts b i byte writing
      intro t _
      apply assures_change
      · exact fun u _ => .files f _ (.inr ⟨rfl, rfl, rfl⟩)
      intro u _
      split
      · exact ih b _ _
      · apply assures_change
        · exact fun u _ => .marks b writing
        intro u _
        apply assures_bind mode p _ _ _ _ _ (brelease_assures mode p _ (anywhere_carried mode p) b _ trivial)
        intro _ v _
        apply assures_bind mode p _ _ _ _ _ (new_block_assures mode p getFreePosAt block turns f v)
        intro c w _
        apply assures_state
        intro x _ _
        apply assures_bind mode p _ _ _ _ _ (ih c _ x)
        exact fun _ _ _ => assures_pure mode p _ _ _ trivial

theorem sys_write_assures (writing : mode.writing) (getFreePosAt : Kernel → UInt8 → Option UInt64)
    (block : Option BufId) (turns : Nat)
    (unset : Unset) (fd : Int) (buf : Bytes) (s : Kernel) :
    Assures mode p (sysWrite (ballocBuffer getFreePosAt block turns) unset fd buf) (fun _ => Anywhere) s := by
  unfold sysWrite
  apply assures_bind mode p _ _ _ _ _ (open_file_assures mode p unset fd _ _ _ _ _ s)
  intro f t _
  apply assures_state
  intro u _ _
  generalize (if fwrt = 0 then (1 : UInt8) else 0) = mask
  dsimp only
  split
  · exact assures_panic_then mode p _ _ _ _
  · apply assures_bind mode p _ _ _ _ _ (file_block_assures mode p f u)
    intro b v _
    apply assures_state
    intro w _ _
    apply assures_bind mode p _ _ _ _ _ (write_loop_assures mode p writing getFreePosAt block turns f buf b _ w)
    exact fun _ _ _ => assures_pure mode p _ _ _ trivial

theorem sys_seek_assures (fd : Int) (offset : UInt64) (whence : Int) (s : Kernel) :
    Assures mode p (sysSeek fd offset whence) (fun _ => Anywhere) s := by
  unfold sysSeek
  split
  · exact assures_panic_then mode p _ _ _ _
  · apply assures_state
    intro t _ _
    change Assures mode p (Prog.acquire (.proc p) >>= fun _ => _) _ t
    apply assures_acquire mode p _ _ _ _ (by simp)
    intro u _ _ _
    split
    · exact assures_halt mode p _ _ _
    · exact assures_halt mode p _ _ _
    · rename_i f named
      refine assures_release mode p (.proc p) _ _ _ ⟨by simp, by simp⟩ (fun _ => holds_lock p u (.proc p)) fun v _ => ?_
      apply assures_state
      intro w _ _
      split
      · exact assures_halt mode p _ _ _
      · dsimp only
        split
        · exact assures_panic_then mode p _ _ _ _
        · split
          · exact assures_halt mode p _ _ _
          · split
            · exact assures_panic_then mode p _ _ _ _
            · apply assures_change
              · exact fun x _ => .files f _ (.inr ⟨rfl, rfl, rfl⟩)
              · exact fun _ _ => assures_pure mode p _ _ _ trivial

theorem sbread_assures (dev : Dev) (s : Kernel) : Assures mode p (sbread dev) (fun _ => Anywhere) s := by
  have table := holding_carried mode p .mtable trivial (by simp)
  unfold sbread
  apply assures_acquire mode p _ _ _ _ (by simp)
  intro t _ _ _
  apply assures_bind mode p _ _ _ _ _ (bread_assures mode p _ table dev 1 _ (holds_lock p t .mtable))
  intro b u mine
  apply assures_state
  intro v relied _
  replace mine := table.relied u v relied mine
  apply assures_change
  · exact fun w _ => .mounts dev _
  intro w relied
  replace mine : w.locks .mtable = some p := table.relied v w relied mine
  refine assures_bind mode p _ _ _ _ _ (brelease_assures mode p _ table b _ mine) ?_
  intro _ x mine
  apply assures_release mode p _ _ _ _ ⟨by simp, by simp⟩ fun _ => mine
  exact fun _ _ => assures_pure mode p _ _ _ trivial

end

end Steps

def SysCall.writes : SysCall → Prop
  | .sysWrite _ _ _ _ _ _ => True
  | _ => False

def SysCall.stats : SysCall → Prop
  | .sysStat _ | .sysFstat _ _ => True
  | _ => False

theorem only_assures {α : Type} (mode : Mode) (p : Pid) (x : Steps α) (s : Kernel)
    (main : Assures mode p x (fun _ => Anywhere) s) : Assures mode p x.only (fun _ => Anywhere) s :=
  Steps.assures_bind mode p x (fun _ => pure ()) (fun _ => Anywhere) (fun _ => Anywhere) s main fun _ t _ =>
    Steps.assures_pure mode p () (fun _ => Anywhere) t trivial

theorem sys_call_assures (mode : Mode) (call : SysCall) (writing : call.writes → mode.writing)
    (stating : call.stats → mode.stating) (p : Pid) (s : Kernel) : Assures mode p call.steps (fun _ => Anywhere) s := by
  cases call with
  | sysOpen path flags perms => exact only_assures mode p _ s (Steps.sys_open_assures mode p path flags perms s)
  | sysClose fd => exact only_assures mode p _ s (Steps.sys_close_assures mode p fd s)
  | sysRead unset fd buffsize => exact only_assures mode p _ s (Steps.sys_read_assures mode p unset fd buffsize s)
  | sysWrite getFreePosAt block turns unset fd buf =>
      have main := Steps.sys_write_assures mode p (writing trivial) getFreePosAt block turns unset fd buf s
      exact only_assures mode p _ s main
  | sysSeek fd offset whence => exact only_assures mode p _ s (Steps.sys_seek_assures mode p fd offset whence s)
  | sysStat path => exact only_assures mode p _ s (Steps.sys_stat_assures mode p (stating trivial) path s)
  | sysFstat ebadfd fd => exact only_assures mode p _ s (Steps.sys_fstat_assures mode p (stating trivial) ebadfd fd s)
  | sbread dev => exact only_assures mode p _ s (Steps.sbread_assures mode p dev s)

def Calls (x : Steps Unit) : Prop := ∃ call : SysCall, x = call.steps

abbrev ProcessStep : Processes → Pid → Processes → Prop := PoolStep kernelLocks Whenever Calls

def amongOthers (apart : Prop) : Mode := ⟨False, True, True, apart⟩

-- Outside of its calls a process leaves the kernel alone; what a stray read answers may change.
def StaysOut (move : Move Processes Pid) : Prop :=
  move.before.running move.act = none → ∃ w, move.after.state = move.before.state.withWild w

structure Served (first last : Processes) (moves : List (Move Processes Pid)) : Prop where
  run : Run ProcessStep first moves last
  idle : ∀ p, first.running p = none
  quiet : Quiet first.state
  out : ∀ move ∈ moves, StaysOut move

theorem calls_have_effects (first last : Processes) (moves : List (Move Processes Pid)) (apart : Prop)
    (served : Served first last moves) (tidy : apart → Tidy first.state) :
    Throughout (fun pool => Standing (amongOthers apart) pool.state) moves last ∧
      ∀ move ∈ moves, (callTerms (amongOthers apart)).Moves move.act move.before.state move.after.state := by
  have start : Agreed kernelLocks (callTerms (amongOthers apart)) first := by
    refine ⟨⟨served.quiet, tidy⟩, fun p x running => ?_⟩
    rw [served.idle p] at running
    cases running
  have assures : ∀ x, Calls x → ∀ p s, (callTerms (amongOthers apart)).inv s →
      x.Assures kernelLocks (callTerms (amongOthers apart)) p (fun _ _ => True) s := by
    rintro x ⟨call, rfl⟩ p s _
    exact (sys_call_assures (amongOthers apart) call (fun _ => trivial) (fun _ => trivial) p s).among id
  have outside : ∀ move ∈ moves, move.before.running move.act = none →
      (callTerms (amongOthers apart)).Moves move.act move.before.state move.after.state := by
    intro move member away
    obtain ⟨w, same⟩ := served.out move member away
    rw [same]
    exact .inr (.strays w)
  obtain ⟨⟨along, done⟩, each⟩ := guaranteed kernelLocks (callTerms (amongOthers apart)) (call_terms_fair _ id) Whenever
    Calls assures first last moves served.run start outside
  exact ⟨⟨fun move member => (along move member).inv, done.inv⟩, each⟩

def byItself (call : SysCall) : Mode := ⟨True, call.writes, call.stats, False⟩

theorem steps_by_effects {α : Type} (mode : Mode) (p : Pid) (x : Steps α) (after : α → Kernel → Prop) (k t : Kernel)
    (solo : mode.solo) (mine : k.current = p) (good : Standing mode k) (assures : Assures mode p x after k)
    (left : Leaves (Prog.alone acquire release x) k t) : Relation.ReflTransGen (Effect mode p) k t := by
  have ended := assures.alone solo mine good
  rcases left with ⟨a, done⟩ | ⟨e, halted⟩
  · rw [done] at ended
    exact ended.1
  · rw [halted] at ended
    exact ended

theorem call_by_effects (call : SysCall) (p : Pid) (k t : Kernel) (mine : k.current = p) (quiet : Quiet k)
    (left : Leaves call.run k t) : Relation.ReflTransGen (Effect (byItself call) p) k t := by
  have same : Prog.alone acquire release call.steps = call.run := sys_call_alone call
  rw [← same] at left
  exact steps_by_effects _ p call.steps _ k t trivial mine ⟨quiet, False.elim⟩
    (sys_call_assures (byItself call) call id id p k) left

end Yaup
