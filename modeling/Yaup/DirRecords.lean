import Yaup.Bitmap
import Yaup.InodeRefs
import Yaup.ReadBack

set_option autoImplicit false

namespace Yaup

open Lib

-- The loops of dir_lookup with the places that they examine: the index into i_addr, and the
-- offset into the block.
def examined (k : Kernel) (b : BufId) (entry : List UInt8) : List Nat → List Nat
  | [] => []
  | j :: rest => if sameName (direntName k b j) entry then [j] else j :: examined k b entry rest

def dirTrace (ip : InodeId) (entry : List UInt8) : List Nat → Kern (List (Nat × Nat) × Option (Dev × Ino))
  | [] => return ([], none)
  | n :: rest => do
      let k ← get
      let b ← bread (k.inodes ip).iDev ((k.inodes ip).addr n)
      let k ← get
      let places := (examined k b entry direntOffsets).map fun j => (n, j)
      match searchBlock k b entry with
      | some num => return (places, some ((k.inodes ip).iDev, num))
      | none =>
          let _ ← brelease b
          let later ← dirTrace ip entry rest
          return (places ++ later.1, later.2)

def lookupTrace (ip : InodeId) (entry : List UInt8) : Kern (List (Nat × Nat) × Option InodeId) := do
  let traced ← dirTrace ip entry (List.range ndirect)
  match traced.2 with
  | some (dev, num) =>
      let i ← iget dev num
      return (traced.1, some i)
  | none => return (traced.1, none)

theorem dir_trace_search (ip : InodeId) (entry : List UInt8) (slots : List Nat) :
    (fun traced => traced.2) <$> dirTrace ip entry slots = dirSearch ip entry slots := by
  induction slots with
  | nil => rfl
  | cons n rest ih =>
      rw [dirTrace, dirSearch, ← ih]
      simp only [map_bind]
      refine bind_congr fun k => bind_congr fun b => bind_congr fun s => ?_
      cases searchBlock s b entry with
      | some num => rfl
      | none => simp only [map_bind, bind_pure_comp, Functor.map_map]

theorem lookup_trace_lookup (ip : InodeId) (entry : List UInt8) :
    (fun traced => traced.2) <$> lookupTrace ip entry = dirLookup ip entry := by
  rw [lookupTrace, dirLookup, ← dir_trace_search]
  simp only [map_bind, bind_map_left]
  refine bind_congr fun traced => ?_
  cases traced.2 with
  | some key => simp only [map_bind, map_pure]
  | none => rfl

def maxName : Nat := 25

def recordBytes (data : Block) (r : Nat) : List UInt8 := window data (fun _ => 0) (r * sizeofDirent) sizeofDirent

def recordInode (data : Block) (r : Nat) : Ino := UInt64.ofNat (leField 0 8 (recordBytes data r))

def recordName (data : Block) (r : Nat) : List UInt8 := (((recordBytes data r).drop 8).take maxName).takeWhile (· ≠ 0)

structure IsRecord (x : Inode) (n r : Nat) : Prop where
  block : n < 8
  slot : r < dentPerBlk
  inFile : n * blkSz + r * sizeofDirent < x.iSize.toNat

def dirBlock (k : Kernel) (ip : InodeId) (n : Nat) : Block := k.contents ((k.inodes ip).iDev, (k.inodes ip).addr n)

def Answers (k : Kernel) (ip : InodeId) (entry : List UInt8) (trace : List (Nat × Nat)) : Option (Dev × Ino) → Prop
  | some key => ∃ n r, IsRecord (k.inodes ip) n r ∧ recordName (dirBlock k ip n) r = entry ∧
      key = ((k.inodes ip).iDev, recordInode (dirBlock k ip n) r) ∧
      ∀ m q, IsRecord (k.inodes ip) m q → (m < n ∨ (m = n ∧ q ≤ r)) → (m, q * sizeofDirent) ∈ trace
  | none => ∀ n r, IsRecord (k.inodes ip) n r →
      recordName (dirBlock k ip n) r ≠ entry ∧ (n, r * sizeofDirent) ∈ trace

structure LookupRight (k t : Kernel) (ip : InodeId) (entry : List UInt8) (trace : List (Nat × Nat))
    (answer : Option InodeId) : Prop where
  inBounds : ∀ place ∈ trace, place.1 < 8 ∧ place.2 + sizeofDirent ≤ blkSz
  answers : Answers k ip entry trace (answer.map fun i => (t.inodes i).named)

theorem dirent_offset_multiple (j : Nat) (visited : j ∈ direntOffsets) : dentPerBlk ∣ j := by
  rw [direntOffsets, List.mem_range'] at visited
  obtain ⟨turn, -, rfl⟩ := visited
  rw [Nat.zero_add]
  exact Nat.dvd_mul_right _ _

theorem dirent_offsets_first : ∃ later, direntOffsets = 0 :: later := ⟨_, rfl⟩

theorem examined_offset (k : Kernel) (b : BufId) (entry : List UInt8) (offsets : List Nat) (j : Nat)
    (seen : j ∈ examined k b entry offsets) : j ∈ offsets := by
  induction offsets with
  | nil => cases seen
  | cons first rest ih =>
      rw [examined] at seen
      split at seen
      · rw [List.mem_singleton.mp seen]
        exact List.mem_cons_self
      · rcases List.mem_cons.mp seen with rfl | later
        · exact List.mem_cons_self
        · exact List.mem_cons_of_mem _ (ih later)

theorem examined_first (k : Kernel) (b : BufId) (entry : List UInt8) : 0 ∈ examined k b entry direntOffsets := by
  obtain ⟨later, offsets⟩ := dirent_offsets_first
  rw [offsets, examined]
  split
  · exact List.mem_singleton_self 0
  · exact List.mem_cons_self

theorem dir_trace_places (ip : InodeId) (entry : List UInt8) (slots : List Nat) (k t : Kernel)
    (traced : List (Nat × Nat) × Option (Dev × Ino)) (done : (dirTrace ip entry slots).run k = .ok traced t) :
    (∀ place ∈ traced.1, dentPerBlk ∣ place.2) ∧ (traced.2 = none → ∀ n ∈ slots, (n, 0) ∈ traced.1) := by
  induction slots generalizing k traced with
  | nil =>
      cases done
      exact ⟨fun _ member => (nomatch member), fun _ _ member => (nomatch member)⟩
  | cons n rest ih =>
      obtain ⟨_, _, seen, after⟩ := (run_bind_ok _ _ _ _ _).mp done
      cases seen
      obtain ⟨b, s, read, after⟩ := (run_bind_ok _ _ _ _ _).mp after
      obtain ⟨_, _, seen, after⟩ := (run_bind_ok _ _ _ _ _).mp after
      cases seen
      have here : ∀ place ∈ (examined s b entry direntOffsets).map fun j => (n, j), dentPerBlk ∣ place.2 := by
        intro place member
        obtain ⟨j, visited, rfl⟩ := List.mem_map.mp member
        exact dirent_offset_multiple j (examined_offset s b entry _ j visited)
      cases answer : searchBlock s b entry with
      | some num =>
          rw [answer] at after
          cases after
          exact ⟨here, fun missing => nomatch missing⟩
      | none =>
          rw [answer] at after
          obtain ⟨r, u, released, after⟩ := (run_bind_ok _ _ _ _ _).mp after
          obtain ⟨later, v, ran, after⟩ := (run_bind_ok _ _ _ _ _).mp after
          cases after
          obtain ⟨multiples, starts⟩ := ih u later ran
          refine ⟨fun place member => ?_, fun missing m member => ?_⟩
          · rcases List.mem_append.mp member with first | last
            · exact here place first
            · exact multiples place last
          · rcases List.mem_cons.mp member with rfl | other
            · exact List.mem_append_left _ (List.mem_map_of_mem (examined_first s b entry))
            · exact List.mem_append_right _ (starts missing m other)

theorem search_block_first (s : Kernel) (b : BufId) (entry : List UInt8)
    (hit : sameName (direntName s b 0) entry = true) :
    searchBlock s b entry = some (direntInode s b 0) ∧ examined s b entry direntOffsets = [0] := by
  obtain ⟨later, offsets⟩ := dirent_offsets_first
  rw [searchBlock, offsets, List.find?_cons, hit, examined, if_pos hit]
  exact ⟨rfl, rfl⟩

theorem dir_trace_first (ip : InodeId) (entry : List UInt8) (n : Nat) (rest : List Nat) (k t : Kernel)
    (traced : List (Nat × Nat) × Option (Dev × Ino)) (done : (dirTrace ip entry (n :: rest)).run k = .ok traced t) :
    ∃ b s, (bread (k.inodes ip).iDev ((k.inodes ip).addr n)).run k = .ok b s ∧
      (sameName (direntName s b 0) entry = true → traced = ([(n, 0)], some ((k.inodes ip).iDev, direntInode s b 0))) := by
  obtain ⟨_, _, seen, after⟩ := (run_bind_ok _ _ _ _ _).mp done
  cases seen
  obtain ⟨b, s, read, after⟩ := (run_bind_ok _ _ _ _ _).mp after
  obtain ⟨_, _, seen, after⟩ := (run_bind_ok _ _ _ _ _).mp after
  cases seen
  refine ⟨b, s, read, fun hit => ?_⟩
  obtain ⟨found, places⟩ := search_block_first s b entry hit
  have inodes : s.inodes = k.inodes := (bread_frame k s _ _ b read).inodes
  rw [found, places] at after
  cases after
  rw [inodes]
  rfl

theorem same_name_prefix (name : Nat → UInt8) (entry : List UInt8) (plain : 0 ∉ entry)
    (agrees : ∀ j < entry.length, name j = entry.getD j 0) : sameName name entry = true := by
  induction entry generalizing name with
  | nil => rfl
  | cons byte rest ih =>
      have first : name 0 = byte := agrees 0 (Nat.succ_pos _)
      have nonzero : byte ≠ 0 := fun zero => plain (zero ▸ List.mem_cons_self)
      rw [sameName, if_neg (not_not.mpr first), if_neg nonzero]
      refine ih _ (fun member => plain (List.mem_cons_of_mem _ member)) fun j low => ?_
      exact agrees (j + 1) (Nat.succ_lt_succ low)

theorem dirent_first_bytes (s : Kernel) (b : BufId) : direntBytes s b 0 = recordBytes (s.blocks b).bData 0 := by
  rw [direntBytes, recordBytes, Nat.zero_mul]
  exact window_inside _ _ _ 0 sizeofDirent (by decide)

theorem record_name_plain (data : Block) (r : Nat) : 0 ∉ recordName data r := by
  intro member
  have nonzero := List.all_eq_true.mp List.all_takeWhile 0 member
  exact absurd nonzero (by decide)

theorem record_name_get (data : Block) (r j : Nat) (low : j < (recordName data r).length) :
    (recordName data r).getD j 0 = (recordBytes data r).getD (8 + j) 0 ∧ j < maxName := by
  have start : recordName data r <+: ((recordBytes data r).drop 8).take maxName := List.takeWhile_prefix _
  have inside : j < maxName := lt_of_lt_of_le low (le_trans start.length_le (List.length_take_le _ _))
  refine ⟨?_, inside⟩
  have bytes : 8 + j < (recordBytes data r).length := by
    rw [recordBytes, window_length, sizeofDirent]
    rw [maxName] at inside
    omega
  rw [List.getD_eq_getElem _ _ low, List.getD_eq_getElem _ _ bytes, start.getElem low, List.getElem_take,
    List.getElem_drop]

theorem exact_name_same (s : Kernel) (b : BufId) (entry : List UInt8)
    (named : recordName (s.blocks b).bData 0 = entry) : sameName (direntName s b 0) entry = true := by
  subst named
  refine same_name_prefix _ _ (record_name_plain _ 0) fun j low => ?_
  obtain ⟨byte, inside⟩ := record_name_get _ 0 j low
  have inRecord : 8 + j < sizeofDirent := by
    rw [maxName] at inside
    rw [sizeofDirent]
    omega
  rw [direntName, if_pos inRecord, dirent_first_bytes, byte]

def FirstNamed (k : Kernel) (ip : InodeId) (entry : List UInt8) : Prop :=
  IsRecord (k.inodes ip) 0 0 ∧ recordName (dirBlock k ip 0) 0 = entry

theorem is_record_before (x : Inode) (n r m q : Nat) (record : IsRecord x n r) (slot : q < dentPerBlk)
    (before : m < n ∨ (m = n ∧ q ≤ r)) : IsRecord x m q := by
  obtain ⟨block, inSlots, inFile⟩ := record
  refine ⟨by omega, slot, lt_of_le_of_lt ?_ inFile⟩
  have fits : q * sizeofDirent ≤ blkSz := by
    have most : dentPerBlk * sizeofDirent ≤ blkSz := by decide
    exact le_trans (Nat.mul_le_mul_right _ (le_of_lt slot)) most
  rcases before with earlier | ⟨rfl, upto⟩
  · calc m * blkSz + q * sizeofDirent ≤ m * blkSz + blkSz := Nat.add_le_add_left fits _
      _ = (m + 1) * blkSz := (Nat.succ_mul m blkSz).symm
      _ ≤ n * blkSz := Nat.mul_le_mul_right _ earlier
      _ ≤ n * blkSz + r * sizeofDirent := Nat.le_add_right _ _
  · exact Nat.add_le_add_left (Nat.mul_le_mul_right _ upto) _

theorem lookup_trace_cases (k t : Kernel) (ip : InodeId) (entry : List UInt8) (trace : List (Nat × Nat))
    (answer : Option InodeId) (done : (lookupTrace ip entry).run k = .ok (trace, answer) t) :
    ∃ found s, (dirTrace ip entry (List.range ndirect)).run k = .ok (trace, found) s ∧
      (answer.map fun i => (t.inodes i).named) = found := by
  obtain ⟨⟨places, found⟩, s, ran, rest⟩ := (run_bind_ok _ _ _ _ _).mp done
  cases found with
  | none =>
      cases rest
      exact ⟨none, t, ran, rfl⟩
  | some key =>
      obtain ⟨i, u, got, same⟩ := (run_bind_ok _ _ _ _ _).mp rest
      cases same
      exact ⟨some key, s, ran, congrArg some (iget_named s t key.1 key.2 i got)⟩

-- Past the first record the code neither looks where the records are nor stays in i_addr.
theorem lookup_right_first (k t : Kernel) (ip : InodeId) (entry : List UInt8) (trace : List (Nat × Nat))
    (answer : Option InodeId) (done : (lookupTrace ip entry).run k = .ok (trace, answer) t)
    (right : LookupRight k t ip entry trace answer) : FirstNamed k ip entry := by
  obtain ⟨found, u, ran, key⟩ := lookup_trace_cases k t ip entry trace answer done
  have slots : List.range ndirect = 0 :: List.range' 1 8 := rfl
  obtain ⟨multiples, starts⟩ := dir_trace_places ip entry _ k u _ ran
  rw [slots] at ran
  obtain ⟨b, s, read, hit⟩ := dir_trace_first ip entry 0 _ k u _ ran
  have shown : (s.blocks b).bData = dirBlock k ip 0 := bread_shows k s _ _ b read
  obtain ⟨inBounds, answers⟩ := right
  rw [key] at answers
  by_cases first : sameName (direntName s b 0) entry = true
  · obtain ⟨rfl, rfl⟩ := Prod.mk.inj (hit first)
    obtain ⟨n, r, record, named, -, upto⟩ := answers
    have place := List.mem_singleton.mp (upto n r record (.inr ⟨rfl, le_refl r⟩))
    obtain ⟨rfl, offset⟩ := Prod.mk.inj place
    have start : r = 0 := (Nat.mul_eq_zero.mp offset).resolve_right (by decide)
    subst start
    exact ⟨record, named⟩
  · cases found with
    | none => exact absurd (inBounds _ (starts rfl 8 (by decide))).1 (Nat.lt_irrefl 8)
    | some found =>
        obtain ⟨n, r, record, named, -, upto⟩ := answers
        by_cases start : n = 0 ∧ r = 0
        · obtain ⟨rfl, rfl⟩ := start
          exact absurd (exact_name_same s b entry (shown ▸ named)) first
        · have before : 0 < n ∨ (0 = n ∧ 1 ≤ r) := by omega
          have second := upto 0 1 (is_record_before _ n r 0 1 record (by decide) before) before
          exact absurd (multiples _ second) (by decide)

theorem first_lookup_right (k t : Kernel) (ip : InodeId) (entry : List UInt8) (trace : List (Nat × Nat))
    (answer : Option InodeId) (done : (lookupTrace ip entry).run k = .ok (trace, answer) t)
    (first : FirstNamed k ip entry) : LookupRight k t ip entry trace answer := by
  obtain ⟨found, u, ran, key⟩ := lookup_trace_cases k t ip entry trace answer done
  have slots : List.range ndirect = 0 :: List.range' 1 8 := rfl
  rw [slots] at ran
  obtain ⟨b, s, read, hit⟩ := dir_trace_first ip entry 0 _ k u _ ran
  have shown : (s.blocks b).bData = dirBlock k ip 0 := bread_shows k s _ _ b read
  obtain ⟨record, named⟩ := first
  obtain ⟨rfl, rfl⟩ := Prod.mk.inj (hit (exact_name_same s b entry (shown ▸ named)))
  refine ⟨fun place member => ?_, ?_⟩
  · rw [List.mem_singleton.mp member]
    decide
  · rw [key]
    refine ⟨0, 0, record, named, ?_, fun m q _ before => ?_⟩
    · rw [direntInode, dirent_first_bytes, shown]
      rfl
    · obtain ⟨rfl, rfl⟩ : m = 0 ∧ q = 0 := by omega
      exact List.mem_singleton_self _

theorem lookup_right_iff (k t : Kernel) (ip : InodeId) (entry : List UInt8) (trace : List (Nat × Nat))
    (answer : Option InodeId) (done : (lookupTrace ip entry).run k = .ok (trace, answer) t) :
    ((fun traced => traced.2) <$> lookupTrace ip entry = dirLookup ip entry) ∧
      (LookupRight k t ip entry trace answer ↔ FirstNamed k ip entry) :=
  ⟨lookup_trace_lookup ip entry, lookup_right_first k t ip entry trace answer done,
    first_lookup_right k t ip entry trace answer done⟩

theorem lookup_first_run (k s : Kernel) (ip i : InodeId) (entry : List UInt8) (b : BufId)
    (read : (bread (k.inodes ip).iDev ((k.inodes ip).addr 0)).run k = .ok b s)
    (hit : sameName (direntName s b 0) entry = true)
    (cached : (iget (s.inodes ip).iDev (direntInode s b 0)).run s = .ok i s) :
    (lookupTrace ip entry).run k = .ok ([(0, 0)], some i) s := by
  have slots : List.range ndirect = 0 :: List.range' 1 8 := rfl
  obtain ⟨found, places⟩ := search_block_first s b entry hit
  have traced : (dirTrace ip entry (List.range ndirect)).run k =
      .ok ([(0, 0)], some ((s.inodes ip).iDev, direntInode s b 0)) s := by
    rw [slots, dirTrace, run_get_bind, EStateM.run_bind, read]
    simp only [run_get_bind, found, places, EStateM.run_pure, List.map_cons, List.map_nil]
  rw [lookupTrace, EStateM.run_bind, traced]
  simp only [EStateM.run_bind, cached, EStateM.run_pure]

def dirRecord (num : Nat) (name : List UInt8) : List UInt8 := leBytes 8 num ++ name ++ List.replicate (32 - name.length) 0

def dirPage (records : List UInt8) : Block := overlay zeroBlock 0 records

-- A directory of these records, inode 2 of device 1: slot 0 of the cache, block 5.
def dirOf (records : List UInt8) : Kernel :=
  { Kernel.zero.setInode 0 { tenBytes with iMode := 0o040755, iSize := UInt64.ofNat records.length } with
    disk := fun _ => dirPage records }

theorem dir_of_block (records : List UInt8) : dirBlock (dirOf records) 0 0 = dirPage records :=
  contents_idle (dirOf records) _ fun _ _ => rfl

theorem dir_of_reads (records entry : List UInt8) (num : recordInode (dirPage records) 0 = 2)
    (hit : ∀ s : Kernel, (s.blocks 0).bData = dirPage records → sameName (direntName s 0 0) entry = true) :
    ∃ t, (lookupTrace 0 entry).run (dirOf records) = .ok ([(0, 0)], some 0) t := by
  have miss : findBlock (dirOf records) 1 5 = none :=
    (find_block_none _ _ _).mpr fun _ => (by decide : ((0, 0) : Dev × Blk) ≠ (1, 5))
  have unused : freeBlock (dirOf records) = some 0 :=
    (free_block_some _ 0).mpr ⟨rfl, fun c low => absurd low (Fin.not_lt_zero c)⟩
  have read := bread_recycle (dirOf records) 1 5 0 rfl miss unused
  have shown := bread_shows _ _ 1 5 0 read
  generalize before : (((dirOf records).setBlock 0 _).unlock (.buf 0)) = s at read shown
  have page : (s.blocks 0).bData = dirPage records := shown.trans (dir_of_block records)
  have inodes : s.inodes = (dirOf records).inodes := by rw [← before]; rfl
  have unlocked : s.locks .icache = none := by
    rw [← before, Kernel.unlock_locks]
    rfl
  refine ⟨s, lookup_first_run (dirOf records) s 0 0 entry 0 read (hit s page) (iget_hit s _ _ 0 unlocked ?_)⟩
  rw [find_inode_some, direntInode, dirent_first_bytes, page, inodes]
  refine ⟨⟨rfl, ?_⟩, fun j low => absurd low (Fin.not_lt_zero j)⟩
  exact num.symm

-- The records "ab" and "c"; looked up is "ab".
def twoRecords : List UInt8 := dirRecord 2 [97, 98] ++ dirRecord 3 [99]

theorem lookup_right_ab : ∃ trace answer t, (lookupTrace 0 [97, 98]).run (dirOf twoRecords) = .ok (trace, answer) t ∧
    LookupRight (dirOf twoRecords) t 0 [97, 98] trace answer := by
  have named : recordName (dirPage twoRecords) 0 = [97, 98] := by decide
  obtain ⟨t, done⟩ := dir_of_reads twoRecords [97, 98] (by decide) fun s page => exact_name_same s 0 _ (page ▸ named)
  refine ⟨_, _, t, done, (lookup_right_iff _ t 0 [97, 98] _ _ done).2.mpr ⟨⟨by decide, by decide, by decide⟩, ?_⟩⟩
  rw [dir_of_block, named]

-- The only record is named "ab"; looked up as "a" it is the answer.
theorem lookup_takes_prefix : ∃ trace answer t, (lookupTrace 0 [97]).run (dirOf (dirRecord 2 [97, 98])) = .ok (trace, answer) t ∧
    answer = some 0 ∧ ¬LookupRight (dirOf (dirRecord 2 [97, 98])) t 0 [97] trace answer := by
  have starts : (recordBytes (dirPage (dirRecord 2 [97, 98])) 0).getD 8 0 = 97 := by decide
  obtain ⟨t, done⟩ := dir_of_reads (dirRecord 2 [97, 98]) [97] (by decide) fun s page => by
    have byte : direntName s 0 0 0 = 97 := by
      rw [direntName, if_pos (by decide), dirent_first_bytes, page]
      exact starts
    simp [sameName, byte]
  refine ⟨_, _, t, done, rfl, fun right => ?_⟩
  have first := (lookup_right_first _ t 0 [97] _ _ done right).2
  rw [dir_of_block] at first
  exact absurd first (by decide)

end Yaup
