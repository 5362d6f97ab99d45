import Mathlib.Data.Fintype.Card
import Yaup.InodePersistence
import Yaup.Lib.Run
import Yaup.OpenClose
import Yaup.Stat

set_option autoImplicit false

namespace Yaup

open Lib

structure LookupFrame (k t : Kernel) : Prop where
  current : t.current = k.current
  files : t.files = k.files
  procs : t.procs = k.procs

theorem lookup_frame_trans (k s t : Kernel) (first : LookupFrame k s) (second : LookupFrame s t) : LookupFrame k t where
  current := second.current.trans first.current
  files := second.files.trans first.files
  procs := second.procs.trans first.procs

theorem buffer_lookup_frame (k t : Kernel) (frame : BufferFrame k t) : LookupFrame k t :=
  ⟨frame.current, frame.files, frame.procs⟩

theorem dir_search_frame (ip : InodeId) (entry : List UInt8) (slots : List Nat) (k t : Kernel)
    (found : Option (Dev × Ino)) (done : (dirSearch ip entry slots).run k = .ok found t) : BufferFrame k t := by
  induction slots generalizing k with
  | nil =>
      cases done
      exact buffer_frame_refl _
  | cons n rest ih =>
      obtain ⟨_, _, seen, after⟩ := (run_bind_ok _ _ _ _ _).mp done
      cases seen
      obtain ⟨b, s, read, after⟩ := (run_bind_ok _ _ _ _ _).mp after
      obtain ⟨_, _, seen, after⟩ := (run_bind_ok _ _ _ _ _).mp after
      cases seen
      have first := bread_frame k s _ _ b read
      cases answer : searchBlock s b entry with
      | some num =>
          rw [answer] at after
          cases after
          exact first
      | none =>
          rw [answer] at after
          obtain ⟨r, u, released, after⟩ := (run_bind_ok _ _ _ _ _).mp after
          exact buffer_frame_trans k s t first
            (buffer_frame_trans s u t (brelease_frame s u b r released) (ih u after))

theorem iget_miss (k t : Kernel) (dev : Dev) (num : Ino) (i : InodeId) (done : (iget dev num).run k = .ok i t)
    (miss : findInode k dev num = none) :
    LookupFrame k t ∧ (k.inodes i).iCount = 0 ∧
      ∃ x : Inode, t.inodes = Function.update k.inodes i x ∧ x.iCount = 1 ∧ x.iDev = dev ∧ x.iNum = num := by
  obtain ⟨-, ⟨hit, -⟩ | ⟨-, unused, b, s, read, rfl⟩⟩ := iget_cases k t dev num i done
  · rw [miss] at hit
    cases hit
  · have zero := ((free_inode_some k i).mp unused).1
    have frame := bread_frame _ s _ _ b read
    have inodes : s.inodes = k.inodes := frame.inodes
    let x := (s.inodes i).loaded dev num (loadRecord sizeofDInode (s.blocks b).bData (s.wild.pastBlock b) num)
    have loaded := released_frame ((s.setInode i x).unlock (.ino i)) b
    refine ⟨⟨loaded.current.trans frame.current, loaded.files.trans frame.files, loaded.procs.trans frame.procs⟩,
      zero, x, loaded.inodes.trans ?_, ?_, rfl, rfl⟩
    · rw [Kernel.unlock_inodes, Kernel.setInode_inodes, inodes]
    · simp [x, Inode.loaded, inodes, zero]

structure Lookup where
  slot : InodeId
  cached : Bool

-- The loop of namei as it runs, with the igets it makes.
inductive Walked : InodeId → List UInt8 → Kernel → List Lookup → InodeId → Kernel → Prop where
  | stop (i : InodeId) (more : List UInt8) (k : Kernel) : Walked i (0 :: more) k [] i k
  | next (ip : InodeId) (byte : UInt8) (more entry rest : List UInt8) (k s u t : Kernel) (dev : Dev) (num : Ino)
      (j i : InodeId) (lookups : List Lookup) (named : byte ≠ 0)
      (split : nextEntry (byte :: more) = some (entry, rest))
      (searched : (dirSearch ip entry (List.range ndirect)).run k = .ok (some (dev, num)) s)
      (got : (iget dev num).run s = .ok j u) (tail : Walked j (rest.drop 1) u lookups i t) :
      Walked ip (byte :: more) k (⟨j, (findInode s dev num).isSome⟩ :: lookups) i t

theorem namei_loop_walked (start : Option InodeId) (path : List UInt8) (k t : Kernel) (i : InodeId)
    (done : (nameiLoop start path).run k = .ok i t) :
    ∃ ip lookups, start = some ip ∧ Walked ip path k lookups i t := by
  fun_induction nameiLoop start path generalizing k with
  | case1 start => cases done
  | case2 more ip =>
      cases done
      exact ⟨i, [], rfl, .stop i more _⟩
  | case3 more => cases done
  | case4 start byte more named found => cases done
  | case5 byte more named entry rest found => cases done
  | case6 byte more named entry rest found ip ih =>
      obtain ⟨answer, u, looked, after⟩ := (run_bind_ok _ _ _ _ _).mp done
      obtain ⟨key, s, searched, got⟩ := (run_bind_ok _ _ _ _ _).mp looked
      cases key with
      | none =>
          cases got
          cases after
      | some key =>
          obtain ⟨j, v, got, same⟩ := (run_bind_ok _ _ _ _ _).mp got
          cases same
          obtain ⟨_, lookups, same, tail⟩ := ih j u after
          cases same
          exact ⟨ip, _, rfl, .next ip byte more entry rest k s u t key.1 key.2 j i lookups named found searched got tail⟩

def startOf (k : Kernel) : List UInt8 → Option (InodeId × List UInt8)
  | [] => none
  | byte :: rest =>
      if byte = 47 then some (rootInode, rest)
      else (k.procs k.current).pCwd.map fun ip => (ip, byte :: rest)

def Walks (k : Kernel) (path : List UInt8) (lookups : List Lookup) (i : InodeId) (t : Kernel) : Prop :=
  ∃ start, startOf k path = some start ∧ Walked start.1 start.2 k lookups i t

theorem namei_walks (path : List UInt8) (k t : Kernel) (i : InodeId) (done : (namei path).run k = .ok i t) :
    ∃ lookups, Walks k path lookups i t := by
  obtain ⟨_, _, seen, rest⟩ := (run_bind_ok _ _ _ _ _).mp done
  cases seen
  cases path with
  | nil => cases rest
  | cons byte more =>
      dsimp only at rest
      by_cases slash : byte = 47
      · rw [if_pos slash] at rest
        obtain ⟨ip, lookups, same, walked⟩ := namei_loop_walked _ _ k t i rest
        cases same
        exact ⟨lookups, (rootInode, more), if_pos slash, walked⟩
      · rw [if_neg slash] at rest
        obtain ⟨ip, lookups, same, walked⟩ := namei_loop_walked _ _ k t i rest
        refine ⟨lookups, (ip, byte :: more), ?_, walked⟩
        rw [startOf, if_neg slash, same]
        rfl

def slotCount (lookups : List Lookup) (j : InodeId) : Nat := lookups.countP fun l => decide (l.slot = j)

theorem slot_count_cons (l : Lookup) (lookups : List Lookup) (j : InodeId) :
    slotCount (l :: lookups) j = slotCount lookups j + if l.slot = j then 1 else 0 := by
  simp [slotCount, List.countP_cons]

def Inode.named (x : Inode) : Dev × Ino := (x.iDev, x.iNum)

theorem iget_named (k t : Kernel) (dev : Dev) (num : Ino) (i : InodeId) (done : (iget dev num).run k = .ok i t) :
    (t.inodes i).named = (dev, num) := by
  obtain ⟨-, ⟨hit, rfl⟩ | ⟨-, -, b, s, -, rfl⟩⟩ := iget_cases k t dev num i done
  · obtain ⟨⟨sameDev, sameNum⟩, -⟩ := (find_inode_some t dev num i).mp hit
    rw [Inode.named, sameDev, sameNum]
  · rw [Kernel.loadedInode, Kernel.unlock_inodes, (released_frame _ b).inodes, Kernel.unlock_inodes,
      Kernel.setInode_inodes, Function.update_self]
    rfl

theorem walked_counts (ip i : InodeId) (path : List UInt8) (k t : Kernel) (lookups : List Lookup)
    (walked : Walked ip path k lookups i t) (miss : ∀ l ∈ lookups, l.cached = false) (refs : InodeId → Nat)
    (counts : ∀ j, (k.inodes j).iCount.toNat = refs j) :
    LookupFrame k t ∧ (∀ j, (t.inodes j).iCount.toNat = refs j + slotCount lookups j) ∧
      ∀ j, (t.inodes j).named ≠ (k.inodes j).named → refs j = 0 := by
  induction walked generalizing refs with
  | stop i more k => exact ⟨⟨rfl, rfl, rfl⟩, by simpa [slotCount] using counts, fun _ other => absurd rfl other⟩
  | next ip byte more entry rest k s u t dev num slot i lookups named split searched got tail ih =>
      have frame := dir_search_frame ip entry _ k s _ searched
      have absent : findInode s dev num = none := by
        simpa using miss _ List.mem_cons_self
      obtain ⟨looked, zero, x, inodes, one, -⟩ := iget_miss s u dev num slot got absent
      rw [frame.inodes] at inodes zero
      have unused : refs slot = 0 := by rw [← counts slot, zero]; rfl
      have next_counts : ∀ j, (u.inodes j).iCount.toNat = refs j + if slot = j then 1 else 0 := by
        intro j
        rw [inodes]
        by_cases same : j = slot
        · subst same
          simp [one, unused]
        · simp [same, Ne.symm same, counts j]
      obtain ⟨later, after, recycled⟩ := ih (fun l member => miss l (List.mem_cons_of_mem _ member)) _ next_counts
      refine ⟨lookup_frame_trans k s t (buffer_lookup_frame k s frame) (lookup_frame_trans s u t looked later), ?_, ?_⟩
      · intro j
        rw [after j, slot_count_cons]
        dsimp only
        omega
      · intro j changed
        by_cases again : (t.inodes j).named = (u.inodes j).named
        · rw [again, inodes] at changed
          by_cases same : j = slot
          · exact same ▸ unused
          · simp [same] at changed
        · have none_left := recycled j again
          omega

theorem walked_last (ip i : InodeId) (path : List UInt8) (k t : Kernel) (lookups : List Lookup)
    (walked : Walked ip path k lookups i t) : (lookups = [] ∧ ip = i) ∨ 0 < slotCount lookups i := by
  induction walked with
  | stop => exact .inl ⟨rfl, rfl⟩
  | next ip byte more entry rest k s u t dev num slot i lookups named split searched got tail ih =>
      right
      rw [slot_count_cons]
      rcases ih with ⟨-, same⟩ | counted
      · simp [same]
      · omega

def owners (k : Kernel) (i : InodeId) : Nat := (Finset.univ.filter fun f => (k.files f).fInode = some i).card

theorem owners_same (k t : Kernel) (same : ∀ f, (t.files f).fInode = (k.files f).fInode) (i : InodeId) :
    owners t i = owners k i := by
  simp only [owners, same]

theorem owners_opened (k t : Kernel) (f : FileId) (i : InodeId)
    (given : ∀ g, (t.files g).fInode = (k.files g).fInode ∨ (g = f ∧ (t.files g).fInode = some i)) (j : InodeId) :
    owners t j ≤ owners k j + if j = i then 1 else 0 := by
  by_cases same : j = i
  · subst same
    rw [if_pos rfl, owners, owners]
    refine le_trans (Finset.card_le_card ?_) (Finset.card_insert_le f _)
    intro g member
    simp only [Finset.mem_filter, Finset.mem_univ, true_and, Finset.mem_insert] at member ⊢
    rcases given g with kept | ⟨new, -⟩
    · exact .inr (kept ▸ member)
    · exact .inl new
  · rw [if_neg same, Nat.add_zero, owners, owners]
    apply Finset.card_le_card
    intro g member
    simp only [Finset.mem_filter, Finset.mem_univ, true_and] at member ⊢
    rcases given g with kept | ⟨-, new⟩
    · exact kept ▸ member
    · rw [new] at member
      cases member
      exact absurd rfl same

theorem owners_closed (k t : Kernel) (f : FileId) (i : InodeId) (had : (k.files f).fInode = some i)
    (gone : (t.files f).fInode = none) (others : ∀ g, g ≠ f → (t.files g).fInode = (k.files g).fInode)
    (j : InodeId) : owners t j + (if j = i then 1 else 0) ≤ owners k j := by
  have kept : ∀ g, (t.files g).fInode = some j → g ≠ f ∧ (k.files g).fInode = some j := by
    intro g member
    have other : g ≠ f := by
      intro same
      rw [same, gone] at member
      cases member
    exact ⟨other, (others g other).symm.trans member⟩
  by_cases same : j = i
  · subst same
    rw [if_pos rfl]
    have member : f ∈ Finset.univ.filter fun g => (k.files g).fInode = some j := by simpa using had
    have smaller := Finset.card_erase_add_one member
    rw [owners, owners, ← smaller]
    refine Nat.add_le_add_right (Finset.card_le_card ?_) 1
    intro g inside
    simp only [Finset.mem_filter, Finset.mem_univ, true_and, Finset.mem_erase] at inside ⊢
    exact kept g inside
  · rw [if_neg same, Nat.add_zero, owners, owners]
    apply Finset.card_le_card
    intro g inside
    simp only [Finset.mem_filter, Finset.mem_univ, true_and] at inside ⊢
    exact (kept g inside).2

structure Refs where
  kernel : Kernel
  refs : InodeId → Nat

inductive RefAct where
  | iget (p : Pid) (w : Wild) (dev : Dev) (num : Ino)
  | namei (p : Pid) (w : Wild) (path : List UInt8)
  | iput (p : Pid) (w : Wild) (i : InodeId)
  | irelease (p : Pid) (w : Wild) (i : InodeId)
  | sysOpen (p : Pid) (w : Wild) (path : List UInt8) (flags : UInt32) (mode : UInt16)
  | sysClose (p : Pid) (w : Wild) (fd : Int)
  | sysStat (p : Pid) (w : Wild) (path : List UInt8)
  | edit (i : InodeId) (d : DInode) (flag : UInt8)

def begun (k : Kernel) (p : Pid) (w : Wild) : Kernel := (k.runAs p).withWild w

-- What walking a path hands out: a reference for each iget it made, or where it made
-- none the pointer it answers.
def handed (lookups : List Lookup) (i j : InodeId) : Nat :=
  if lookups = [] then if j = i then 1 else 0 else slotCount lookups j

def dropOne (refs : InodeId → Nat) (i : InodeId) : InodeId → Nat := Function.update refs i (refs i - 1)

def closeRefs (k : Kernel) (p : Pid) (fd : Int) (refs : InodeId → Nat) : InodeId → Nat :=
  match k.descriptor p fd with
  | none => refs
  | some f =>
      if (k.files f).fCount = 1 then
        match (k.files f).fInode with
        | none => refs
        | some i => dropOne refs i
      else refs

def Spare (s : Refs) (i : InodeId) : Prop := owners s.kernel i < s.refs i

-- Pointers are used as they were returned: a caller drops a reference it has, and changes
-- the fields of an inode it has a reference to.
inductive RefStep : Refs → RefAct → Refs → Prop where
  | iget (s : Refs) (t : Kernel) (p : Pid) (w : Wild) (dev : Dev) (num : Ino) (i : InodeId)
      (done : (iget dev num).run (begun s.kernel p w) = .ok i t) :
      RefStep s (.iget p w dev num) ⟨t, Function.update s.refs i (s.refs i + 1)⟩
  | namei (s : Refs) (t : Kernel) (p : Pid) (w : Wild) (path : List UInt8) (lookups : List Lookup) (i : InodeId)
      (done : (namei path).run (begun s.kernel p w) = .ok i t)
      (walks : Walks (begun s.kernel p w) path lookups i t) :
      RefStep s (.namei p w path) ⟨t, fun j => s.refs j + handed lookups i j⟩
  | iput (s : Refs) (t : Kernel) (p : Pid) (w : Wild) (i : InodeId) (r : Int) (spare : Spare s i)
      (done : (iput i).run (begun s.kernel p w) = .ok r t) :
      RefStep s (.iput p w i) ⟨t, dropOne s.refs i⟩
  | irelease (s : Refs) (t : Kernel) (p : Pid) (w : Wild) (i : InodeId) (r : Int) (spare : Spare s i)
      (done : (irelease i).run (begun s.kernel p w) = .ok r t) :
      RefStep s (.irelease p w i) ⟨t, if s.kernel.locks (.ino i) = some p then dropOne s.refs i else s.refs⟩
  | sysOpen (s : Refs) (u t : Kernel) (p : Pid) (w : Wild) (path : List UInt8) (flags : UInt32) (mode : UInt16)
      (lookups : List Lookup) (i : InodeId) (r : Int) (looked : (namei path).run (begun s.kernel p w) = .ok i u)
      (walks : Walks (begun s.kernel p w) path lookups i u)
      (done : (sysOpen path flags mode).run (begun s.kernel p w) = .ok r t) :
      RefStep s (.sysOpen p w path flags mode) ⟨t, fun j => s.refs j + handed lookups i j⟩
  | sysClose (s : Refs) (t : Kernel) (p : Pid) (w : Wild) (fd r : Int)
      (done : (sysClose fd).run (begun s.kernel p w) = .ok r t) :
      RefStep s (.sysClose p w fd) ⟨t, closeRefs s.kernel p fd s.refs⟩
  | sysStat (s : Refs) (u t : Kernel) (p : Pid) (w : Wild) (path : List UInt8) (lookups : List Lookup) (i : InodeId)
      (answer : Int × Stat) (looked : (namei path).run (begun s.kernel p w) = .ok i u)
      (walks : Walks (begun s.kernel p w) path lookups i u)
      (done : (sysStat path).run (begun s.kernel p w) = .ok answer t) :
      RefStep s (.sysStat p w path) ⟨t, dropOne (fun j => s.refs j + handed lookups i j) i⟩
  | edit (s : Refs) (i : InodeId) (d : DInode) (flag : UInt8) (live : 0 < s.refs i) :
      RefStep s (.edit i d flag)
        ⟨s.kernel.setInode i { s.kernel.inodes i with toDInode := d, iFlag := flag }, s.refs⟩

structure Accounted (s : Refs) : Prop where
  counts : ∀ i, (s.kernel.inodes i).iCount.toNat = s.refs i
  owned : ∀ i, owners s.kernel i ≤ s.refs i

def StatKeeps (m : Move Refs RefAct) : Prop :=
  ∀ p w path, m.act = .sysStat p w path →
    ∀ j, (m.after.kernel.inodes j).iCount = (m.before.kernel.inodes j).iCount

def RecyclesUnused (m : Move Refs RefAct) : Prop :=
  ∀ j, (m.after.kernel.inodes j).named ≠ (m.before.kernel.inodes j).named → m.before.refs j = 0

def AllMiss (k : Kernel) (path : List UInt8) : Prop :=
  ∀ lookups i t, Walks k path lookups i t → lookups ≠ [] ∧ ∀ l ∈ lookups, l.cached = false

def OneMiss (k : Kernel) (path : List UInt8) : Prop :=
  ∀ lookups i t, Walks k path lookups i t → ∃ slot, lookups = [⟨slot, false⟩]

-- igets miss the cache, and an inode is dirty when iput is to drop it.
def Takes (s : Refs) : RefAct → Prop
  | .iget _ _ dev num => findInode s.kernel dev num = none
  | .namei p w path => AllMiss (begun s.kernel p w) path
  | .iput _ _ i => (s.kernel.inodes i).iFlag &&& idirt ≠ 0
  | .irelease _ _ _ => True
  | .sysOpen p w path _ _ => AllMiss (begun s.kernel p w) path
  | .sysClose p _ fd => ∀ f i, s.kernel.descriptor p fd = some f → (s.kernel.files f).fCount = 1 →
      (s.kernel.files f).fInode = some i → (s.kernel.inodes i).iFlag &&& idirt ≠ 0
  | .sysStat p w path => OneMiss (begun s.kernel p w) path
  | .edit _ _ _ => True

theorem handed_answer (ip i : InodeId) (path : List UInt8) (k t : Kernel) (lookups : List Lookup)
    (walked : Walked ip path k lookups i t) : 0 < handed lookups i i := by
  rcases walked_last ip i path k t lookups walked with ⟨rfl, -⟩ | counted
  · simp [handed]
  · rw [handed]
    split
    · simp
    · exact counted

theorem begun_owners (k : Kernel) (p : Pid) (w : Wild) (i : InodeId) : owners (begun k p w) i = owners k i := rfl

theorem frame_owners (k t : Kernel) (frame : LookupFrame k t) (i : InodeId) : owners t i = owners k i :=
  owners_same k t (fun f => by rw [frame.files]) i

theorem walks_accounted (s : Refs) (u : Kernel) (p : Pid) (w : Wild) (path : List UInt8) (lookups : List Lookup)
    (i : InodeId) (good : Accounted s) (walks : Walks (begun s.kernel p w) path lookups i u)
    (named : lookups ≠ []) (miss : ∀ l ∈ lookups, l.cached = false) :
    Accounted ⟨u, fun j => s.refs j + handed lookups i j⟩ ∧ (∀ j, owners u j = owners s.kernel j) ∧
      ∀ j, (u.inodes j).named ≠ (s.kernel.inodes j).named → s.refs j = 0 := by
  obtain ⟨start, -, walked⟩ := walks
  obtain ⟨frame, counts, recycled⟩ := walked_counts _ i _ _ u lookups walked miss s.refs good.counts
  have same : ∀ j, owners u j = owners s.kernel j := fun j =>
    (frame_owners _ u frame j).trans (begun_owners s.kernel p w j)
  refine ⟨⟨?_, ?_⟩, same, recycled⟩
  · intro j
    simp only [handed, if_neg named]
    exact counts j
  · intro j
    rw [same]
    exact Nat.le_add_right_of_le (good.owned j)

theorem drop_count (c : UInt8) (n : Nat) (counted : c.toNat = n) (live : 0 < n) : (c - 1).toNat = n - 1 := by
  have bound : 1 ≤ c := by
    rw [UInt8.le_iff_toNat_le, counted]
    exact live
  rw [UInt8.toNat_sub_of_le c 1 bound, counted]
  rfl

theorem drop_accounted (s : Refs) (t : Kernel) (i : InodeId) (x : Inode) (good : Accounted s)
    (inodes : t.inodes = Function.update s.kernel.inodes i x) (count : x.iCount = (s.kernel.inodes i).iCount - 1)
    (spare : ∀ j, owners t j + (if j = i then 1 else 0) ≤ s.refs j) : Accounted ⟨t, dropOne s.refs i⟩ := by
  have live := spare i
  rw [if_pos rfl] at live
  refine ⟨?_, ?_⟩
  · intro j
    by_cases same : j = i
    · subst same
      simp only [inodes, dropOne, Function.update_self, count]
      exact drop_count _ _ (good.counts j) (by omega)
    · simp only [inodes, dropOne, Function.update_of_ne same]
      exact good.counts j
  · intro j
    have left := spare j
    by_cases same : j = i
    · subst same
      simp only [dropOne, Function.update_self]
      omega
    · simp only [dropOne, Function.update_of_ne same]
      rw [if_neg same, Nat.add_zero] at left
      exact left

theorem spare_files (s : Refs) (t : Kernel) (i : InodeId) (good : Accounted s) (spare : Spare s i)
    (same : ∀ j, owners t j = owners s.kernel j) (j : InodeId) :
    owners t j + (if j = i then 1 else 0) ≤ s.refs j := by
  rw [same]
  by_cases here : j = i
  · subst here
    rw [if_pos rfl]
    exact spare
  · rw [if_neg here, Nat.add_zero]
    exact good.owned j

theorem iput_slots (k t : Kernel) (i : InodeId) (r : Int) (done : (iput i).run k = .ok r t) :
    LookupFrame k t ∧ ∃ x : Inode, t.inodes = Function.update k.inodes i x ∧ x.named = (k.inodes i).named ∧
      ((k.inodes i).iFlag &&& idirt ≠ 0 → x.iCount = (k.inodes i).iCount - 1) := by
  obtain ⟨-, -, ⟨clean, rfl⟩ | ⟨-, b, s, q, w, read, flushed, rfl⟩⟩ := iput_cases k t i r done
  · refine ⟨⟨rfl, rfl, rfl⟩, k.inodes i, ?_, rfl, fun dirty => absurd clean dirty⟩
    rw [Function.update_eq_self]
    rfl
  · have frame := buffer_frame_trans _ _ _ (bread_frame _ s _ _ b read)
      (buffer_frame_trans _ _ _ (set_block_frame s b _) (bwrite_frame _ w b q flushed))
    have inodes : w.inodes = k.inodes := frame.inodes
    refine ⟨⟨frame.current, frame.files, frame.procs⟩, (k.inodes i).written, ?_, rfl, fun _ => rfl⟩
    rw [Kernel.wroteInode, Kernel.unlock_inodes, Kernel.setInode_inodes, inodes]

theorem update_named (k t : Kernel) (i : InodeId) (x : Inode) (inodes : t.inodes = Function.update k.inodes i x)
    (named : x.named = (k.inodes i).named) (j : InodeId) : (t.inodes j).named = (k.inodes j).named := by
  rw [inodes]
  by_cases same : j = i
  · subst same
    rw [Function.update_self, named]
  · rw [Function.update_of_ne same]

theorem iget_accounted (s : Refs) (t : Kernel) (p : Pid) (w : Wild) (dev : Dev) (num : Ino) (i : InodeId)
    (good : Accounted s) (miss : findInode s.kernel dev num = none)
    (done : (iget dev num).run (begun s.kernel p w) = .ok i t) :
    Accounted ⟨t, Function.update s.refs i (s.refs i + 1)⟩ ∧
      ∀ j, (t.inodes j).named ≠ (s.kernel.inodes j).named → s.refs j = 0 := by
  obtain ⟨frame, zero, x, inodes, one, -⟩ := iget_miss _ t dev num i done miss
  have unused : s.refs i = 0 := by
    rw [← good.counts i, show (s.kernel.inodes i).iCount = 0 from zero]
    rfl
  refine ⟨⟨?_, ?_⟩, ?_⟩
  · intro j
    by_cases same : j = i
    · subst same
      simp [inodes, one, unused]
    · simp only [inodes, Function.update_of_ne same]
      exact good.counts j
  · intro j
    have files := (frame_owners _ t frame j).trans (begun_owners s.kernel p w j)
    have before := good.owned j
    by_cases same : j = i
    · subst same
      simp only [files, Function.update_self]
      omega
    · simp only [files, Function.update_of_ne same]
      exact before
  · intro j changed
    by_cases same : j = i
    · exact same ▸ unused
    · rw [inodes, Function.update_of_ne same] at changed
      exact absurd rfl changed

theorem iput_accounted (s : Refs) (t : Kernel) (p : Pid) (w : Wild) (i : InodeId) (r : Int) (good : Accounted s)
    (spare : Spare s i) (dirty : (s.kernel.inodes i).iFlag &&& idirt ≠ 0)
    (done : (iput i).run (begun s.kernel p w) = .ok r t) :
    Accounted ⟨t, dropOne s.refs i⟩ ∧ ∀ j, (t.inodes j).named = (s.kernel.inodes j).named := by
  obtain ⟨frame, x, inodes, named, count⟩ := iput_slots _ t i r done
  have files : ∀ j, owners t j = owners s.kernel j := fun j =>
    (frame_owners _ t frame j).trans (begun_owners s.kernel p w j)
  exact ⟨drop_accounted s t i x good inodes (count dirty) (spare_files s t i good spare files),
    update_named s.kernel t i x inodes named⟩

theorem irelease_accounted (s : Refs) (t : Kernel) (p : Pid) (w : Wild) (i : InodeId) (r : Int) (good : Accounted s)
    (spare : Spare s i) (done : (irelease i).run (begun s.kernel p w) = .ok r t) :
    Accounted ⟨t, if s.kernel.locks (.ino i) = some p then dropOne s.refs i else s.refs⟩ ∧
      ∀ j, (t.inodes j).named = (s.kernel.inodes j).named := by
  rw [irelease_run] at done
  by_cases mine : s.kernel.locks (.ino i) = some p
  · rw [if_pos mine]
    rw [if_pos (show (begun s.kernel p w).locks (.ino i) = some (begun s.kernel p w).current from mine)] at done
    cases done
    exact ⟨drop_accounted s _ i _ good rfl rfl (spare_files s _ i good spare fun _ => rfl),
      update_named s.kernel _ i _ rfl rfl⟩
  · rw [if_neg mine]
    rw [if_neg (show ¬(begun s.kernel p w).locks (.ino i) = some (begun s.kernel p w).current from mine)] at done
    cases done
    exact ⟨⟨good.counts, good.owned⟩, fun _ => rfl⟩

theorem sys_close_accounted (s : Refs) (t : Kernel) (p : Pid) (w : Wild) (fd r : Int) (good : Accounted s)
    (takes : Takes s (.sysClose p w fd)) (done : (sysClose fd).run (begun s.kernel p w) = .ok r t) :
    Accounted ⟨t, closeRefs s.kernel p fd s.refs⟩ ∧ ∀ j, (t.inodes j).named = (s.kernel.inodes j).named := by
  obtain ⟨-, f, named, ⟨more, rfl⟩ | ⟨last, u, closed, rfl⟩⟩ := sys_close_cases _ t fd r done
  · have several : (s.kernel.files f).fCount ≠ 1 := by
      intro one
      exact more (by rw [show ((begun s.kernel p w).files f).fCount = 1 from one]; rfl)
    have kept : closeRefs s.kernel p fd s.refs = s.refs := by
      rw [closeRefs, show s.kernel.descriptor p fd = some f from named]
      exact if_neg several
    have files : ∀ g, ((((begun s.kernel p w).beginClose f).unlock .openFiles).files g).fInode =
        (s.kernel.files g).fInode := by
      intro g
      by_cases same : g = f
      · subst same
        simp [Kernel.beginClose, File.dropped, begun]
      · simp [Kernel.beginClose, begun, same]
    rw [kept]
    refine ⟨⟨good.counts, fun j => ?_⟩, fun _ => rfl⟩
    rw [owners_same s.kernel _ files]
    exact good.owned j
  · obtain ⟨i, q, v, inode, put, rfl⟩ := close_last_cases _ u f closed
    have one : (s.kernel.files f).fCount = 1 := count_drop_zero _ last
    have had : (s.kernel.files f).fInode = some i := by
      simpa [Kernel.beginClose, File.dropped, begun] using inode
    have dropped : closeRefs s.kernel p fd s.refs = dropOne s.refs i := by
      rw [closeRefs, show s.kernel.descriptor p fd = some f from named]
      dsimp only
      rw [if_pos one, had]
    obtain ⟨frame, x, inodes, name, count⟩ := iput_slots _ v i q put
    have closed_files := owners_closed s.kernel (((v.setFile f (v.files f).closed).unlock (.file f)).unlock .openFiles)
      f i had (by simp [File.closed]) (by
        intro g other
        simp [frame.files, Kernel.beginClose, begun, other])
    rw [dropped]
    exact ⟨drop_accounted s _ i x good inodes (count (takes f i named one had))
      fun j => le_trans (closed_files j) (good.owned j), update_named s.kernel _ i x inodes name⟩

theorem sys_open_accounted (s : Refs) (u t : Kernel) (p : Pid) (w : Wild) (path : List UInt8) (flags : UInt32)
    (mode : UInt16) (lookups : List Lookup) (i : InodeId) (r : Int) (good : Accounted s)
    (looked : (namei path).run (begun s.kernel p w) = .ok i u)
    (walks : Walks (begun s.kernel p w) path lookups i u) (missed : AllMiss (begun s.kernel p w) path)
    (done : (sysOpen path flags mode).run (begun s.kernel p w) = .ok r t) :
    Accounted ⟨t, fun j => s.refs j + handed lookups i j⟩ ∧
      ∀ j, (t.inodes j).named ≠ (s.kernel.inodes j).named → s.refs j = 0 := by
  obtain ⟨named, miss⟩ := missed lookups i u walks
  obtain ⟨after, files, recycled⟩ := walks_accounted s u p w path lookups i good walks named miss
  obtain ⟨_, _, again, opened⟩ := (run_bind_ok _ _ _ _ _).mp done
  rw [looked] at again
  cases again
  obtain ⟨-, -, f, fd, v, got, -, rfl⟩ := open_inode_cases u t i flags r opened
  obtain ⟨inodes, g, given⟩ := fget_tables u v i flags (some f) got
  refine ⟨⟨?_, ?_⟩, ?_⟩
  · intro j
    rw [Kernel.setProc_inodes, inodes]
    exact after.counts j
  · intro j
    have more := owners_opened u v g i given j
    have before := good.owned j
    obtain ⟨start, -, walked⟩ := walks
    have answered := handed_answer _ i _ _ u lookups walked
    rw [files] at more
    by_cases here : j = i
    · subst here
      rw [if_pos rfl] at more
      exact le_trans more (Nat.add_le_add before answered)
    · rw [if_neg here, Nat.add_zero] at more
      exact le_trans more (Nat.le_add_right_of_le before)
  · intro j changed
    rw [Kernel.setProc_inodes, inodes] at changed
    exact recycled j changed

theorem sys_stat_accounted (s : Refs) (u t : Kernel) (p : Pid) (w : Wild) (path : List UInt8) (lookups : List Lookup)
    (i : InodeId) (answer : Int × Stat) (good : Accounted s)
    (looked : (namei path).run (begun s.kernel p w) = .ok i u)
    (walks : Walks (begun s.kernel p w) path lookups i u) (missed : OneMiss (begun s.kernel p w) path)
    (done : (sysStat path).run (begun s.kernel p w) = .ok answer t) :
    Accounted ⟨t, dropOne (fun j => s.refs j + handed lookups i j) i⟩ ∧
      (∀ j, (t.inodes j).named ≠ (s.kernel.inodes j).named → s.refs j = 0) ∧
      ∀ j, (t.inodes j).iCount = (s.kernel.inodes j).iCount := by
  obtain ⟨slot, rfl⟩ := missed lookups i u walks
  obtain ⟨after, files, recycled⟩ := walks_accounted s u p w path _ i good walks (by simp) (by simp)
  obtain ⟨_, _, again, stated⟩ := (run_bind_ok _ _ _ _ _).mp done
  rw [looked] at again
  cases again
  obtain ⟨-, -, sameFiles, -, x, inodes, count, dev, num⟩ := stat_inode_cases u t i answer stated
  have name : x.named = (u.inodes i).named := by rw [Inode.named, dev, num, Inode.named]
  have answered : slot = i := by
    obtain ⟨start, -, walked⟩ := walks
    have one := handed_answer _ i _ _ u _ walked
    by_contra other
    simp [handed, slotCount, other] at one
  subst answered
  have spare : ∀ j, owners t j + (if j = slot then 1 else 0) ≤ s.refs j + handed [⟨slot, false⟩] slot j := by
    intro j
    rw [owners_same u t (fun f => by rw [sameFiles]), files]
    refine Nat.add_le_add (good.owned j) ?_
    by_cases here : j = slot
    · simp [handed, slotCount, here]
    · simp [here]
  have accounted := drop_accounted _ t slot x after inodes count spare
  refine ⟨accounted, ?_, ?_⟩
  · intro j changed
    rw [update_named u t slot x inodes name] at changed
    exact recycled j changed
  · intro j
    apply UInt8.toNat_inj.mp
    rw [accounted.counts j, good.counts j]
    by_cases here : j = slot
    · subst here
      simp [dropOne, handed, slotCount]
    · simp [dropOne, handed, slotCount, here, Ne.symm here]

theorem step_accounted (s : Refs) (act : RefAct) (t : Refs) (good : Accounted s) (taken : RefStep s act t)
    (takes : Takes s act) : Accounted t ∧ RecyclesUnused ⟨s, act, t⟩ ∧ StatKeeps ⟨s, act, t⟩ := by
  have other : ∀ act' t', (∀ p w path, act' ≠ .sysStat p w path) → StatKeeps ⟨s, act', t'⟩ :=
    fun act' t' differs p w path same => absurd same (differs p w path)
  have kept : ∀ act' (t' : Refs), (∀ j, (t'.kernel.inodes j).named = (s.kernel.inodes j).named) →
      RecyclesUnused ⟨s, act', t'⟩ := fun act' t' same j changed => absurd (same j) changed
  cases taken with
  | iget t p w dev num i done =>
      obtain ⟨accounted, recycled⟩ := iget_accounted s t p w dev num i good takes done
      exact ⟨accounted, recycled, other _ _ (by simp)⟩
  | namei t p w path lookups i done walks =>
      obtain ⟨named, miss⟩ := takes lookups i t walks
      obtain ⟨accounted, -, recycled⟩ := walks_accounted s t p w path lookups i good walks named miss
      exact ⟨accounted, recycled, other _ _ (by simp)⟩
  | iput t p w i r spare done =>
      obtain ⟨accounted, same⟩ := iput_accounted s t p w i r good spare takes done
      exact ⟨accounted, kept _ _ same, other _ _ (by simp)⟩
  | irelease t p w i r spare done =>
      obtain ⟨accounted, same⟩ := irelease_accounted s t p w i r good spare done
      exact ⟨accounted, kept _ _ same, other _ _ (by simp)⟩
  | sysOpen u t p w path flags mode lookups i r looked walks done =>
      obtain ⟨accounted, recycled⟩ :=
        sys_open_accounted s u t p w path flags mode lookups i r good looked walks takes done
      exact ⟨accounted, recycled, other _ _ (by simp)⟩
  | sysClose t p w fd r done =>
      obtain ⟨accounted, same⟩ := sys_close_accounted s t p w fd r good takes done
      exact ⟨accounted, kept _ _ same, other _ _ (by simp)⟩
  | sysStat u t p w path lookups i answer looked walks done =>
      obtain ⟨accounted, recycled, counts⟩ :=
        sys_stat_accounted s u t p w path lookups i answer good looked walks takes done
      exact ⟨accounted, recycled, fun _ _ _ _ => counts⟩
  | edit i d flag live =>
      have slot := update_named s.kernel
        (s.kernel.setInode i { s.kernel.inodes i with toDInode := d, iFlag := flag }) i _ rfl rfl
      refine ⟨⟨?_, good.owned⟩, kept _ _ slot, other _ _ (by simp)⟩
      intro j
      by_cases same : j = i
      · subst same
        simpa using good.counts j
      · simpa [same] using good.counts j

theorem counts_follow_refs (s : Refs) (moves : List (Move Refs RefAct)) (last : Refs)
    (run : Run RefStep s moves last) (start : Accounted s) (takes : ∀ move ∈ moves, Takes move.before move.act) :
    Throughout Accounted moves last ∧ ∀ move ∈ moves, RecyclesUnused move ∧ StatKeeps move := by
  have step := fun before act after good taken met => (step_accounted before act after good taken met).1
  exact ⟨run_invariant RefStep Takes Accounted step s last moves run start takes,
    run_moves RefStep Takes Accounted _ step
      (fun before act after good taken met => (step_accounted before act after good taken met).2)
      s last moves run start takes⟩

theorem owners_none (k : Kernel) (i : InodeId) (unused : ∀ f, (k.files f).fInode = none) : owners k i = 0 := by
  rw [owners, Finset.card_eq_zero, Finset.filter_eq_empty_iff]
  intro f _ owned
  rw [unused f] at owned
  cases owned

-- Inode 0 of device 1 is in the cache with one reference; a second iget takes none.
theorem iget_hit_uncounted :
    ¬ ∀ (s : Refs) (moves : List (Move Refs RefAct)) (last : Refs), Run RefStep s moves last → Accounted s →
      Throughout Accounted moves last ∧ ∀ move ∈ moves, RecyclesUnused move ∧ StatKeeps move := by
  intro claim
  let once : Inode := { Kernel.zero.inodes 0 with iDev := 1, iCount := 1 }
  let s : Refs := ⟨Kernel.zero.setInode 0 once, fun i => if i = 0 then 1 else 0⟩
  have accounted : Accounted s := by
    refine ⟨?_, fun i => ?_⟩
    · intro i
      by_cases first : i = 0
      · subst first
        rfl
      · simp [s, first, Kernel.zero]
    · rw [owners_none s.kernel i fun _ => rfl]
      exact Nat.zero_le _
  have hit : findInode (begun s.kernel 0 Kernel.zero.wild) 1 0 = some 0 :=
    (find_inode_some _ 1 0 0).mpr ⟨by simp [s, begun, once, Kernel.zero], by simp⟩
  have done := iget_hit _ 1 0 0 (by simp [s, begun, Kernel.zero, freeLocks]) hit
  have along := (claim s _ _ (.cons _ _ _ _ _ (.iget s _ 0 Kernel.zero.wild 1 0 0 done) (.nil _)) accounted).1
  have count := along.2.counts 0
  revert count
  simp [s, begun, once]

def shortInode : Refs :=
  ⟨(grown dirtyTable).setInode 0 { grownInode with iSize := 0, iFlag := 0 }, fun i => if i = 0 then 1 else 0⟩

theorem short_inode_accounted : Accounted shortInode := by
  have counts : ∀ i, (shortInode.kernel.inodes i).iCount.toNat = shortInode.refs i := by
    intro i
    by_cases first : i = 0
    · subst first
      rfl
    · simp [shortInode, grown, first, Kernel.zero]
  refine ⟨counts, fun i => ?_⟩
  rw [owners_none shortInode.kernel i fun _ => rfl]
  exact Nat.zero_le _

theorem counts_follow_refs_grown :
    ∃ (moves : List (Move Refs RefAct)) (last : Refs), moves.length = 2 ∧ Run RefStep shortInode moves last ∧
      last.refs = (fun _ => 0) ∧ Throughout Accounted moves last ∧ ∀ move ∈ moves, RecyclesUnused move ∧ StatKeeps move := by
  obtain ⟨t, done⟩ := dirty_table_iput
  have same : shortInode.kernel.setInode 0 { shortInode.kernel.inodes 0 with
      toDInode := grownInode.toDInode, iFlag := idirt } = grown dirtyTable := by
    simp [shortInode, grown, grownInode, Kernel.setInode]
  have grows := RefStep.edit shortInode 0 grownInode.toDInode idirt (by decide)
  rw [same] at grows
  have spare : Spare ⟨grown dirtyTable, shortInode.refs⟩ 0 := by
    rw [Spare, owners_none (grown dirtyTable) 0 fun _ => rfl]
    decide
  have run := Run.cons _ _ _ _ _ grows
    (.cons _ _ _ _ _ (RefStep.iput ⟨grown dirtyTable, shortInode.refs⟩ t 0 (grown dirtyTable).wild 0 0 spare done) (.nil _))
  refine ⟨_, _, rfl, run, ?_, counts_follow_refs shortInode _ _ run short_inode_accounted ?_⟩
  · funext i
    by_cases first : i = 0
    · subst first
      rfl
    · simp [dropOne, shortInode, first]
  · have dirty : ((grown dirtyTable).inodes 0).iFlag &&& idirt ≠ 0 := by decide
    simp only [List.forall_mem_cons]
    exact ⟨trivial, dirty, by simp⟩

end Yaup
