import Yaup.Lib.RelyGuarantee
import Yaup.Lib.Slots
import Yaup.SysCalls

set_option autoImplicit false

namespace Yaup

open Lib

-- The locks of a table or a process, which only their holder gives back; an inode's is also
-- given up by who loads its slot.
def Lock.guards : Lock → Prop
  | .buf _ | .ino _ | .file _ => False
  | _ => True

def bufferKeys (k : Kernel) (b : BufId) : Dev × Blk := (k.blocks b).key

def inodeNames (k : Kernel) (i : InodeId) : Dev × Ino := (k.inodes i).named

structure KeysSettled (l : Lock) (k : Kernel) : Prop where
  blocks : l = .buffer → ApartBut (bufferKeys k) (0, 0) none
  inodes : l = .icache → ApartBut (inodeNames k) (0, 0) none

structure File.Alike (x y : File) : Prop where
  inode : x.fInode = y.fInode
  mode : x.fMode = y.fMode
  flag : x.fFlag = y.fFlag

-- How the calls run: with no other process in between, with which calls among them, and from
-- where no key is in two slots of its table.
structure Mode where
  solo : Prop
  writing : Prop
  stating : Prop
  apart : Prop

-- What a step of a process inside a call does to the state, with what stands when it does; with
-- no other process in between, the three stores of a key are one.
inductive Effect (mode : Mode) (p : Pid) (s : Kernel) : Kernel → Prop where
  | strays (w : Wild) : Effect mode p s (s.withWild w)
  | takes (l : Lock) (free : s.locks l = none) (plain : ∀ b, l ≠ .buf b) : Effect mode p s ((s.runAs p).lock l)
  | gives (l : Lock) (own : l.guards → s.locks l = some p) (settled : mode.apart → KeysSettled l s) :
      Effect mode p s (s.unlock l)
  | rekeys (b : BufId) (dev : Dev) (blk : Blk) (alone : mode.solo) (mine : s.locks .buffer = some p)
      (absent : ∀ c, (s.blocks c).key ≠ (dev, blk)) (unused : (s.blocks b).bCount = 0) :
      Effect mode p s ((s.runAs p).setBlock b ((s.blocks b).rekey dev blk))
  | stores (b : BufId) (x : Buffer) (among : ¬mode.solo) (mine : s.locks .buffer = some p)
      (others : mode.apart → ApartBut (bufferKeys s) (0, 0) (some b)) : Effect mode p s ((s.runAs p).setBlock b x)
  | fills (b : BufId) (unused : mode.solo → (s.blocks b).bCount = 0) :
      Effect mode p s ((s.runAs p).setBlock b { s.blocks b with bData := s.disk (s.blocks b).key })
  | counts (b : BufId) (unused : mode.solo → (s.blocks b).bCount = 0)
      (filled : mode.solo → (s.blocks b).bData = s.disk (s.blocks b).key)
      (found : mode.solo → findBlock s (s.blocks b).bDev (s.blocks b).bBlk = some b) :
      Effect mode p s ((s.runAs p).setBlock b { s.blocks b with bCount := (s.blocks b).bCount + 1 })
  | puts (b : BufId) (i : Fin blkSz) (byte : UInt8) (allowed : mode.writing) :
      Effect mode p s ((s.runAs p).setBlock b ((s.blocks b).putAt i byte))
  | marks (b : BufId) (allowed : mode.writing) :
      Effect mode p s ((s.runAs p).setBlock b { s.blocks b with bDirty := true })
  | mounts (dev : Dev) (sb : Superblock) : Effect mode p s ((s.runAs p).setSuperblock dev sb)
  | loads (i : InodeId) (x : Inode) (flag : x.iFlag = (s.inodes i).iFlag) (named : x.named = (s.inodes i).named)
      (mine : s.locks .icache = some p) (unused : mode.solo → (s.inodes i).iCount = 0) :
      Effect mode p s ((s.runAs p).setInode i x)
  | names (i : InodeId) (x : Inode) (flag : x.iFlag = (s.inodes i).iFlag) (mine : s.locks .icache = some p)
      (unused : mode.solo → (s.inodes i).iCount = 0)
      (others : mode.apart → ApartBut (inodeNames s) (0, 0) (some i)) : Effect mode p s ((s.runAs p).setInode i x)
  | drops (i : InodeId) (allowed : mode.stating) :
      Effect mode p s ((s.runAs p).setInode i { s.inodes i with iCount := (s.inodes i).iCount - 1 })
  | files (f : FileId) (x : File) (under : s.locks .openFiles = some p ∨ x.Alike (s.files f)) :
      Effect mode p s ((s.runAs p).setFile f x)
  | points (fd : Fin nrOfiles) (f : FileId) (low : 3 ≤ fd.val) (empty : (s.procs p).pFilp fd = none) :
      Effect mode p s ((s.runAs p).setProc p { s.procs p with pFilp := Function.update (s.procs p).pFilp fd (some f) })

structure Quiet (k : Kernel) : Prop where
  clean : ∀ i, (k.inodes i).iFlag &&& idirt = 0
  loose : ∀ b, k.locks (.buf b) = none

-- Of each table no key is in two slots, but for the slot whose key the holder of the table's lock
-- is storing.
structure Tidy (k : Kernel) : Prop where
  blocks : ∃ but, ApartBut (bufferKeys k) (0, 0) but ∧ (but ≠ none → k.locks .buffer ≠ none)
  inodes : ∃ but, ApartBut (inodeNames k) (0, 0) but ∧ (but ≠ none → k.locks .icache ≠ none)

structure Excluded (p : Pid) (s t : Kernel) : Prop where
  procs : t.procs p = s.procs p
  locks : ∀ l, l.guards → s.locks l = some p → t.locks l = some p
  keys : s.locks .buffer = some p → ∀ b, (t.blocks b).key = (s.blocks b).key
  names : s.locks .icache = some p → ∀ i, (t.inodes i).named = (s.inodes i).named
  opened : s.locks .openFiles = some p → ∀ f, (t.files f).Alike (s.files f)

theorem alike_refl (x : File) : x.Alike x := ⟨rfl, rfl, rfl⟩

theorem alike_trans (x y z : File) (first : x.Alike y) (second : y.Alike z) : x.Alike z :=
  ⟨first.inode.trans second.inode, first.mode.trans second.mode, first.flag.trans second.flag⟩

theorem excluded_refl (p : Pid) (s : Kernel) : Excluded p s s :=
  ⟨rfl, fun _ _ => id, fun _ _ => rfl, fun _ _ => rfl, fun _ _ => alike_refl _⟩

theorem excluded_trans (p : Pid) (s t u : Kernel) (first : Excluded p s t) (second : Excluded p t u) : Excluded p s u where
  procs := second.procs.trans first.procs
  locks := fun l guard mine => second.locks l guard (first.locks l guard mine)
  keys := fun mine b => (second.keys (first.locks .buffer trivial mine) b).trans (first.keys mine b)
  names := fun mine i => (second.names (first.locks .icache trivial mine) i).trans (first.names mine i)
  opened := fun mine f =>
    alike_trans _ _ _ (second.opened (first.locks .openFiles trivial mine) f) (first.opened mine f)

theorem set_inode_clean (s : Kernel) (i j : InodeId) (x : Inode) (quiet : Quiet s) (same : x.iFlag = (s.inodes i).iFlag) :
    ((s.setInode i x).inodes j).iFlag &&& idirt = 0 := by
  by_cases here : j = i
  · subst here
    rw [Kernel.setInode_inodes, Function.update_self, same]
    exact quiet.clean j
  · rw [Kernel.setInode_inodes, Function.update_of_ne here]
    exact quiet.clean j

theorem effect_quiet (mode : Mode) (p : Pid) (s t : Kernel) (quiet : Quiet s) (effect : Effect mode p s t) : Quiet t := by
  cases effect with
  | takes l free plain =>
      refine ⟨quiet.clean, fun b => ?_⟩
      rw [Kernel.lock_locks, Function.update_of_ne (plain b).symm]
      exact quiet.loose b
  | gives l own settled =>
      refine ⟨quiet.clean, fun b => ?_⟩
      by_cases same : Lock.buf b = l
      · rw [Kernel.unlock_locks, same, Function.update_self]
      · rw [Kernel.unlock_locks, Function.update_of_ne same]
        exact quiet.loose b
  | loads i x flag => exact ⟨fun j => set_inode_clean s i j x quiet flag, quiet.loose⟩
  | names i x flag => exact ⟨fun j => set_inode_clean s i j x quiet flag, quiet.loose⟩
  | drops i allowed => exact ⟨fun j => set_inode_clean s i j _ quiet rfl, quiet.loose⟩
  | _ => exact ⟨quiet.clean, quiet.loose⟩

theorem set_block_key (s : Kernel) (b c : BufId) (x : Buffer) (same : x.key = (s.blocks b).key) :
    ((s.setBlock b x).blocks c).key = (s.blocks c).key := by
  by_cases here : c = b
  · subst here
    rw [Kernel.setBlock_blocks, Function.update_self, same]
  · rw [Kernel.setBlock_blocks, Function.update_of_ne here]

theorem set_inode_named (s : Kernel) (i j : InodeId) (x : Inode) (same : x.named = (s.inodes i).named) :
    ((s.setInode i x).inodes j).named = (s.inodes j).named := by
  by_cases here : j = i
  · subst here
    rw [Kernel.setInode_inodes, Function.update_self, same]
  · rw [Kernel.setInode_inodes, Function.update_of_ne here]

theorem other_holder (p q : Pid) (s : Kernel) (l : Lock) (other : q ≠ p) (mine : s.locks l = some p) :
    s.locks l ≠ some q := by
  intro yours
  exact other (Option.some.inj (yours.symm.trans mine))

theorem set_file_alike (s : Kernel) (f g : FileId) (x : File) (same : x.Alike (s.files f)) :
    ((s.setFile f x).files g).Alike (s.files g) := by
  by_cases here : g = f
  · subst here
    rw [Kernel.setFile_files, Function.update_self]
    exact same
  · rw [Kernel.setFile_files, Function.update_of_ne here]
    exact alike_refl _

theorem excluded_tables (p : Pid) (s t : Kernel) (procs : t.procs p = s.procs p) (locks : t.locks = s.locks)
    (keys : ∀ b, (t.blocks b).key = (s.blocks b).key) (names : ∀ i, (t.inodes i).named = (s.inodes i).named)
    (opened : ∀ f, (t.files f).Alike (s.files f)) : Excluded p s t where
  procs := procs
  locks := fun l _ mine => (congrFun locks l).trans mine
  keys := fun _ => keys
  names := fun _ => names
  opened := fun _ => opened

theorem effect_excluded (mode : Mode) (p q : Pid) (s t : Kernel) (other : q ≠ p) (effect : Effect mode q s t) : Excluded p s t := by
  have same : ∀ f, (s.files f).Alike (s.files f) := fun _ => alike_refl _
  cases effect with
  | takes l free plain =>
      refine ⟨rfl, fun m _ mine => ?_, fun _ _ => rfl, fun _ _ => rfl, fun _ => same⟩
      have apart : m ≠ l := by
        rintro rfl
        exact absurd (free.symm.trans mine) nofun
      rw [Kernel.lock_locks, Function.update_of_ne apart]
      exact mine
  | gives l own settled =>
      refine ⟨rfl, fun m guard mine => ?_, fun _ _ => rfl, fun _ _ => rfl, fun _ => same⟩
      have apart : m ≠ l := by
        rintro rfl
        exact other_holder p q s m other mine (own guard)
      rw [Kernel.unlock_locks, Function.update_of_ne apart]
      exact mine
  | rekeys b dev blk alone yours | stores b x among yours =>
      refine ⟨rfl, fun _ _ => id, fun mine => ?_, fun _ _ => rfl, fun _ => same⟩
      exact absurd yours (other_holder p q s .buffer other mine)
  | fills b | counts b | marks b | puts b =>
      exact excluded_tables p s _ rfl rfl (fun c => set_block_key s b c _ rfl) (fun _ => rfl) same
  | loads i x flag named => exact excluded_tables p s _ rfl rfl (fun _ => rfl) (fun j => set_inode_named s i j x named) same
  | drops i allowed => exact excluded_tables p s _ rfl rfl (fun _ => rfl) (fun j => set_inode_named s i j _ rfl) same
  | names i x flag yours =>
      refine ⟨rfl, fun _ _ => id, fun _ _ => rfl, fun mine => ?_, fun _ => same⟩
      exact absurd yours (other_holder p q s .icache other mine)
  | files f x under =>
      refine ⟨rfl, fun _ _ => id, fun _ _ => rfl, fun _ _ => rfl, fun mine g => ?_⟩
      exact set_file_alike s f g x (under.resolve_left (other_holder p q s .openFiles other mine))
  | points fd f low empty =>
      refine excluded_tables p s _ ?_ rfl (fun _ => rfl) (fun _ => rfl) same
      rw [Kernel.setProc_procs, Function.update_of_ne (Ne.symm other)]
      rfl
  | strays w => exact excluded_tables p s _ rfl rfl (fun _ => rfl) (fun _ => rfl) same
  | mounts dev sb => exact excluded_tables p s _ rfl rfl (fun _ => rfl) (fun _ => rfl) same

theorem buffer_keys_set (s : Kernel) (b : BufId) (x : Buffer) :
    bufferKeys (s.setBlock b x) = Function.update (bufferKeys s) b x.key := by
  funext c
  rw [bufferKeys, Kernel.setBlock_blocks]
  exact Function.apply_update (fun _ y => Buffer.key y) s.blocks b x c

theorem inode_names_set (s : Kernel) (i : InodeId) (x : Inode) :
    inodeNames (s.setInode i x) = Function.update (inodeNames s) i x.named := by
  funext j
  rw [inodeNames, Kernel.setInode_inodes]
  exact Function.apply_update (fun _ y => Inode.named y) s.inodes i x j

theorem same_tables_tidy (s t : Kernel) (tidy : Tidy s) (keys : bufferKeys t = bufferKeys s)
    (names : inodeNames t = inodeNames s) (locks : t.locks = s.locks) : Tidy t where
  blocks := by
    rw [keys, locks]
    exact tidy.blocks
  inodes := by
    rw [names, locks]
    exact tidy.inodes

theorem tidy_free {α β : Type} (keys : α → β) (blank : β) {s : Kernel} {l : Lock}
    (now : ∃ but, ApartBut keys blank but ∧ (but ≠ none → s.locks l ≠ none)) (free : s.locks l = none) :
    ApartBut keys blank none := by
  obtain ⟨but, apart, held⟩ := now
  have same : but = none := not_not.mp fun out => held out free
  rwa [same] at apart

theorem left_out_unlocked {α β : Type} (keys : α → β) (blank : β) (s : Kernel) (l m : Lock)
    (now : ∃ but, ApartBut keys blank but ∧ (but ≠ none → s.locks m ≠ none)) (settled : l = m → ApartBut keys blank none) :
    ∃ but, ApartBut keys blank but ∧ (but ≠ none → (s.unlock l).locks m ≠ none) := by
  by_cases same : l = m
  · exact ⟨none, settled same, fun out => absurd rfl out⟩
  · obtain ⟨but, apart, held⟩ := now
    refine ⟨but, apart, fun out => ?_⟩
    rw [Kernel.unlock_locks, Function.update_of_ne (Ne.symm same)]
    exact held out

theorem left_out_locked {α β : Type} (keys : α → β) (blank : β) (s : Kernel) (l m : Lock)
    (now : ∃ but, ApartBut keys blank but ∧ (but ≠ none → s.locks m ≠ none)) :
    ∃ but, ApartBut keys blank but ∧ (but ≠ none → (s.lock l).locks m ≠ none) := by
  obtain ⟨but, apart, held⟩ := now
  refine ⟨but, apart, fun out => ?_⟩
  by_cases same : m = l
  · rw [Kernel.lock_locks, same, Function.update_self]
    exact Option.some_ne_none _
  · rw [Kernel.lock_locks, Function.update_of_ne same]
    exact held out

theorem effect_tidy (mode : Mode) (p : Pid) (s t : Kernel) (apart : mode.apart) (tidy : Tidy s)
    (effect : Effect mode p s t) : Tidy t := by
  cases effect with
  | takes l free plain =>
      exact ⟨left_out_locked _ _ (s.runAs p) l _ tidy.blocks, left_out_locked _ _ (s.runAs p) l _ tidy.inodes⟩
  | gives l own settled =>
      obtain ⟨blocks, inodes⟩ := settled apart
      exact ⟨left_out_unlocked _ _ s l _ tidy.blocks blocks, left_out_unlocked _ _ s l _ tidy.inodes inodes⟩
  | rekeys b dev blk alone mine absent =>
      obtain ⟨but, others, held⟩ := tidy.blocks
      refine ⟨⟨but, ?_, held⟩, tidy.inodes⟩
      have keys : bufferKeys ((s.runAs p).setBlock b ((s.blocks b).rekey dev blk)) = _ := buffer_keys_set s b _
      rw [keys]
      exact apart_put_absent _ _ _ b but others absent
  | stores b x _ mine others =>
      refine ⟨⟨some b, ?_, fun _ free => absurd (free.symm.trans mine) nofun⟩, tidy.inodes⟩
      have keys : bufferKeys ((s.runAs p).setBlock b x) = _ := buffer_keys_set s b x
      rw [keys]
      exact apart_put_out _ _ _ b (others apart)
  | names i x flag mine unused others =>
      refine ⟨tidy.blocks, some i, ?_, fun _ free => absurd (free.symm.trans mine) nofun⟩
      have names : inodeNames ((s.runAs p).setInode i x) = _ := inode_names_set s i x
      rw [names]
      exact apart_put_out _ _ _ i (others apart)
  | fills b | counts b | marks b | puts b =>
      exact same_tables_tidy s _ tidy (funext fun c => set_block_key s b c _ rfl) rfl rfl
  | loads i x flag named => exact same_tables_tidy s _ tidy rfl (funext fun j => set_inode_named s i j x named) rfl
  | drops i => exact same_tables_tidy s _ tidy rfl (funext fun j => set_inode_named s i j _ rfl) rfl
  | _ => exact same_tables_tidy s _ tidy rfl rfl rfl

structure Relied (mode : Mode) (p : Pid) (s t : Kernel) : Prop where
  excluded : Excluded p s t
  still : mode.solo → t = s

structure Standing (mode : Mode) (k : Kernel) : Prop where
  quiet : Quiet k
  tidy : mode.apart → Tidy k

def callTerms (mode : Mode) : Terms Kernel Pid where
  inv := Standing mode
  rely := Relied mode
  guar := Effect mode
  refl p s := ⟨excluded_refl p s, fun _ => rfl⟩
  trans p s t u first second :=
    ⟨excluded_trans p s t u first.excluded second.excluded, fun solo => (second.still solo).trans (first.still solo)⟩
  kept p s t good effect :=
    ⟨effect_quiet mode p s t good.quiet effect, fun apart => effect_tidy mode p s t apart (good.tidy apart) effect⟩

theorem call_terms_fair (mode : Mode) (among : ¬mode.solo) : (callTerms mode).Fair :=
  fun p q s t other _ effect => ⟨effect_excluded mode p q s t other effect, fun solo => absurd solo among⟩

structure Assures {α : Type} (mode : Mode) (p : Pid) (x : Steps α) (after : α → Kernel → Prop) (s : Kernel) : Prop where
  among : ¬mode.solo → Prog.Assures kernelLocks (callTerms mode) p after x s
  alone : mode.solo → s.current = p → Standing mode s → EndsBy (callTerms mode) p after s ((Prog.alone acquire release x).run s)

end Yaup
