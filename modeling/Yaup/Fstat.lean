import Yaup.InodeRefs
import Yaup.Seek

set_option autoImplicit false

namespace Yaup

open Lib

def enoent : Int := 2

-- The fields as sys_fstat fills them: st_blocks is i_size / 512*1024.
def Inode.fstat (x : Inode) : Stat := { x.stat with stBlocks := (x.iSize / 512 * 1024).toUInt32 }

def fstatInode (i : InodeId) : Kern (Int × Option Stat) := do
  let _ ← ilock i
  let k ← get
  let st := (k.inodes i).fstat
  let _ ← irelease i
  return (0, some st)

-- The answer is paired with what it leaves in the caller's struct stat, none where that stays
-- as it was. EBADFD has no definition in the headers.
def sysFstat (ebadfd : Int) (fd : Int) : Kern (Int × Option Stat) := do
  if fd ≥ nrOfiles then return (-ebadfd, none)
  let k ← get
  match (k.procs k.current).filp fd with
  | none => fault
  | some none => return (-enoent, none)
  | some (some f) =>
      match (k.files f).fInode with
      | none => panic "sys_fstat: cannot get inode"
      | some i => fstatInode i

-- Slots of the inode cache through a walk: a slot stays as it was, or it was not in use and
-- then is loaded once, with an inode that no slot had.
def SlotsWalked (k t : Kernel) : Prop :=
  ∀ j, t.inodes j = k.inodes j ∨
    ((k.inodes j).iCount = 0 ∧ (t.inodes j).iCount = 1 ∧ (t.inodes j).named ≠ (k.inodes j).named ∧
      ∀ n, (k.inodes n).named = (t.inodes j).named → (t.inodes n).named ≠ (k.inodes n).named)

theorem slots_walked_same (k t : Kernel) (same : t.inodes = k.inodes) : SlotsWalked k t :=
  fun j => .inl (congrFun same j)

theorem slots_walked_load (k u t : Kernel) (slot : InodeId) (x : Inode) (unused : (k.inodes slot).iCount = 0)
    (loaded : u.inodes = Function.update k.inodes slot x) (one : x.iCount = 1)
    (absent : ∀ n, (k.inodes n).named ≠ x.named) (tail : SlotsWalked u t) : SlotsWalked k t := by
  have there : u.inodes slot = x := by rw [loaded, Function.update_self]
  have elsewhere : ∀ j, j ≠ slot → u.inodes j = k.inodes j := by
    intro j other
    rw [loaded, Function.update_of_ne other]
  have stays : t.inodes slot = x := by
    rcases tail slot with same | ⟨zero, -⟩
    · exact same.trans there
    · rw [there, one] at zero
      exact absurd zero (by decide)
  intro j
  by_cases here : j = slot
  · subst here
    rw [stays]
    exact .inr ⟨unused, one, (absent j).symm, fun n same => absurd same (absent n)⟩
  · rcases tail j with same | ⟨zero, single, renamed, moved⟩
    · exact .inl (same.trans (elsewhere j here))
    · rw [elsewhere j here] at zero renamed
      refine .inr ⟨zero, single, renamed, fun n same => ?_⟩
      by_cases at_slot : n = slot
      · subst at_slot
        rw [stays]
        exact (absent n).symm
      · rw [← elsewhere n at_slot] at same ⊢
        exact moved n same

theorem walked_slots (ip i : InodeId) (path : List UInt8) (k t : Kernel) (lookups : List Lookup)
    (walked : Walked ip path k lookups i t) : SlotsWalked k t := by
  induction walked with
  | stop => exact slots_walked_same _ _ rfl
  | next ip byte more entry rest k s u t dev num slot i lookups named split searched got tail ih =>
      have searchedInodes : s.inodes = k.inodes := (dir_search_frame ip entry _ k s _ searched).inodes
      cases found : findInode s dev num with
      | some j =>
          obtain ⟨-, ⟨-, rfl⟩ | ⟨miss, -⟩⟩ := iget_cases s u dev num slot got
          · intro j
            rw [← searchedInodes]
            exact ih j
          · rw [found] at miss
            cases miss
      | none =>
          obtain ⟨-, zero, x, loaded, one, sameDev, sameNum⟩ := iget_miss s u dev num slot got found
          rw [searchedInodes] at zero loaded
          refine slots_walked_load k u t slot x zero loaded one (fun n same => ?_) ih
          have away := (find_inode_none s dev num).mp found n
          rw [searchedInodes] at away
          rw [Inode.named, Inode.named, Prod.mk.injEq, sameDev, sameNum] at same
          exact away same

theorem namei_slots (path : List UInt8) (k t : Kernel) (i : InodeId) (done : (namei path).run k = .ok i t) :
    SlotsWalked k t := by
  obtain ⟨lookups, start, -, walked⟩ := namei_walks path k t i done
  exact walked_slots _ i _ k t lookups walked

def StatsAgree (ebadfd : Int) (k : Kernel) (path : List UInt8) (fd : Int) (i : InodeId) : Prop :=
  ∃ st s t, (sysStat path).run k = .ok (0, st) s ∧ (sysFstat ebadfd fd).run k = .ok (0, some st) t ∧
    ∀ n, (k.inodes n).named = (k.inodes i).named → s.inodes n = k.inodes n ∧ t.inodes n = k.inodes n

section
variable (ebadfd : Int) (k s : Kernel) (path : List UInt8) (fd : Int) (f : FileId) (i j : InodeId)

theorem sys_stat_split (looked : (namei path).run k = .ok j s) : (sysStat path).run k = (statInode j).run s := by
  rw [sysStat, EStateM.run_bind, looked]

theorem count_drops (c : UInt8) : c - 1 ≠ c := by
  intro same
  have whole := congrArg UInt8.toNat same
  have small := c.toNat_lt
  simp only [UInt8.toNat_sub, UInt8.reduceToNat] at whole
  omega

theorem sys_stat_changes (looked : (namei path).run k = .ok j s) (same : (s.inodes j).named = (k.inodes i).named)
    (answer : Int × Stat) (t : Kernel) (done : (sysStat path).run k = .ok answer t) :
    ∃ n, (k.inodes n).named = (k.inodes i).named ∧ t.inodes n ≠ k.inodes n := by
  rw [sys_stat_split k s path j looked] at done
  obtain ⟨-, -, -, -, x, inodes, count, sameDev, sameNum⟩ := stat_inode_cases s t j answer done
  rcases namei_slots path k s j looked j with kept | ⟨-, -, renamed, moved⟩
  · refine ⟨j, kept ▸ same, fun unchanged => ?_⟩
    rw [inodes, Function.update_self, ← kept] at unchanged
    rw [unchanged] at count
    exact count_drops _ count.symm
  · have away : (s.inodes i).named ≠ (k.inodes i).named := moved i same.symm
    refine ⟨i, rfl, fun unchanged => ?_⟩
    have other : i ≠ j := by
      rintro rfl
      exact away same
    rw [inodes, Function.update_of_ne other] at unchanged
    exact away (congrArg Inode.named unchanged)

theorem sys_fstat_fills (named : (k.procs k.current).filp fd = some (some f)) (inode : (k.files f).fInode = some i)
    (answer : Int × Option Stat) (t : Kernel) (done : (sysFstat ebadfd fd).run k = .ok answer t) :
    answer = (0, some (k.inodes i).fstat) := by
  rw [sysFstat] at done
  simp only [if_neg (Int.not_le.mpr (filp_low _ fd _ named))] at done
  rw [run_get_bind, named] at done
  dsimp only at done
  rw [inode] at done
  obtain ⟨_, u, locked, rest⟩ := (run_bind_ok _ _ _ _ _).mp done
  rw [run_get_bind] at rest
  obtain ⟨_, v, released, rest⟩ := (run_bind_ok _ _ _ _ _).mp rest
  cases rest
  rcases ilock_cases k u i _ locked with rfl | ⟨-, rfl⟩
  · rfl
  · rfl

theorem fstat_same_iff (x : Inode) :
    x.fstat = x.stat ↔ (x.iSize / 512 * 1024).toUInt32 = (x.iSize / 1024).toUInt32 := by
  constructor
  · exact congrArg Stat.stBlocks
  · intro blocks
    rw [Inode.fstat, blocks]
    rfl

theorem stats_never_agree (named : (k.procs k.current).filp fd = some (some f)) (inode : (k.files f).fInode = some i)
    (looked : (namei path).run k = .ok j s) (same : (s.inodes j).named = (k.inodes i).named) :
    ¬StatsAgree ebadfd k path fd i ∧
      (∀ answer t, (sysStat path).run k = .ok answer t → answer = (0, (s.inodes j).stat)) ∧
      (∀ answer t, (sysFstat ebadfd fd).run k = .ok answer t → answer = (0, some (k.inodes i).fstat)) ∧
      ∀ x : Inode, x.fstat = x.stat ↔ (x.iSize / 512 * 1024).toUInt32 = (x.iSize / 1024).toUInt32 := by
  refine ⟨?_, fun answer t done => ?_, sys_fstat_fills ebadfd k fd f i named inode, fstat_same_iff⟩
  · rintro ⟨st, t, u, done, -, kept⟩
    obtain ⟨n, holds, changed⟩ := sys_stat_changes k s path i j looked same _ t done
    exact changed (kept n holds).1
  · rw [sys_stat_split k s path j looked] at done
    exact (stat_inode_cases s t j answer done).1

end

theorem stats_never_agree_root : ¬StatsAgree 77 (tenByteFile 0) [47, 0] 3 0 :=
  (stats_never_agree 77 (tenByteFile 0) (tenByteFile 0) [47, 0] 3 0 0 rootInode
    (ten_byte_file_open 0 (by decide)).named rfl (namei_root _ []) rfl).1

theorem stat_drops_count :
    ∃ st t, (sysStat [47, 0]).run (tenByteFile 0) = .ok (0, st) t ∧ ((tenByteFile 0).inodes 0).iCount = 1 ∧
      (t.inodes 0).iCount = 0 ∧ ¬StatsAgree 77 (tenByteFile 0) [47, 0] 3 0 := by
  have looked := namei_root (tenByteFile 0) []
  have locked : (ilock 0).run (tenByteFile 0) = .ok 0 (tenByteFile 0) := by
    rw [ilock_run, if_neg]
    exact fun held => nomatch held
  have put := iput_clean (tenByteFile 0) 0 rfl rfl
  obtain ⟨answer, t, done⟩ : ∃ answer t, (sysStat [47, 0]).run (tenByteFile 0) = .ok answer t := by
    rw [sys_stat_split _ _ _ _ looked, statInode]
    simp only [EStateM.run_bind, rootInode, locked, EStateM.run_get, put, irelease_run, EStateM.run_pure]
    exact ⟨_, _, rfl⟩
  have split := done
  rw [sys_stat_split _ _ _ _ looked] at split
  obtain ⟨rfl, -, -, -, x, inodes, count, -⟩ := stat_inode_cases _ t rootInode answer split
  refine ⟨_, t, done, rfl, ?_, ?_⟩
  · change (t.inodes rootInode).iCount = 0
    rw [inodes, Function.update_self, count]
    rfl
  · rintro ⟨st, s, u, again, -, kept⟩
    obtain ⟨n, holds, changed⟩ := sys_stat_changes _ _ _ 0 _ looked rfl _ s again
    exact changed (kept n holds).1

end Yaup
