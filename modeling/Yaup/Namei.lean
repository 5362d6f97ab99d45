import Yaup.Inode
import Yaup.Lib.Triple

set_option autoImplicit false

namespace Yaup

open Lib

def ndirect : Nat := 9
def sizeofDirent : Nat := 40
def dentPerBlk : Nat := blkSz / sizeofDirent

-- i_addr[n]: from 8 on, past the end of the array, are the times that follow it.
def DInode.addr (d : DInode) (n : Nat) : Blk :=
  if inside : n < 8 then d.iAddr ⟨n, inside⟩ else if n = 8 then d.iCtime else d.iAtime

-- strncmp(name, entry, esize) == 0, where `entry` has the esize bytes.
def sameName (name : Nat → UInt8) : List UInt8 → Bool
  | [] => true
  | byte :: rest =>
      if name 0 ≠ byte then false
      else if byte = 0 then true
      else sameName (fun j => name (j + 1)) rest

-- The entry of 40 bytes that memcpy takes from offset j, and the bytes of its name.
def direntBytes (k : Kernel) (b : BufId) (j : Nat) : List UInt8 :=
  window (k.blocks b).bData (k.wild.pastBlock b) j sizeofDirent

def direntName (k : Kernel) (b : BufId) (j : Nat) : Nat → UInt8 := fun m =>
  if 8 + m < sizeofDirent then (direntBytes k b j).getD (8 + m) 0 else k.wild.pastDirent (8 + m - sizeofDirent)

def direntInode (k : Kernel) (b : BufId) (j : Nat) : Ino := UInt64.ofNat (leField 0 8 (direntBytes k b j))

-- The inner loop of dir_lookup: j = 0, DENT_PER_BLK, 2 * DENT_PER_BLK, ... below BLK_SZ.
def direntOffsets : List Nat := List.range' 0 ((blkSz + dentPerBlk - 1) / dentPerBlk) dentPerBlk

def searchBlock (k : Kernel) (b : BufId) (entry : List UInt8) : Option Ino :=
  (direntOffsets.find? fun j => sameName (direntName k b j) entry).map (direntInode k b)

def dirSearch (ip : InodeId) (entry : List UInt8) : List Nat → Kern (Option (Dev × Ino))
  | [] => return none
  | n :: rest => do
      let k ← get
      let b ← bread (k.inodes ip).iDev ((k.inodes ip).addr n)
      let k ← get
      match searchBlock k b entry with
      | some num => return some ((k.inodes ip).iDev, num)
      | none =>
          let _ ← brelease b
          dirSearch ip entry rest

def dirLookup (ip : InodeId) (entry : List UInt8) : Kern (Option InodeId) := do
  match ← dirSearch ip entry (List.range ndirect) with
  | some (dev, num) =>
      let i ← iget dev num
      return some i
  | none => return none

-- A path is the memory from its first byte on; reading past the last byte is a fault.
-- `while (*(path++) != '/')` passes the end of the string in search of a slash.
def nextEntry : List UInt8 → Option (List UInt8 × List UInt8)
  | [] => none
  | byte :: rest =>
      if byte = 47 then some ([byte], rest)
      else (nextEntry rest).map fun split => (byte :: split.1, split.2)

theorem next_entry_shorter (path entry rest : List UInt8) (found : nextEntry path = some (entry, rest)) :
    rest.length < path.length := by
  induction path generalizing entry with
  | nil => cases found
  | cons byte tail ih =>
      rw [nextEntry] at found
      by_cases slash : byte = 47
      · rw [if_pos slash] at found
        cases found
        exact Nat.lt_succ_self _
      · rw [if_neg slash] at found
        obtain ⟨⟨inner, after⟩, deeper, same⟩ := Option.map_eq_some_iff.mp found
        cases same
        exact Nat.lt_succ_of_lt (ih inner deeper)

-- The loop of namei; `entry = ++path` skips one more byte after the slash.
def nameiLoop (i : Option InodeId) (path : List UInt8) : Kern InodeId :=
  match path with
  | [] => fault
  | byte :: more =>
      if byte = 0 then
        match i with
        | some ip => pure ip
        | none => panic "namei: entry not found"
      else
        match _found : nextEntry (byte :: more) with
        | none => fault
        | some (entry, rest) =>
            match i with
            | none => fault
            | some ip => do
                match ← dirLookup ip entry with
                | none => panic "namei: entry not found"
                | some j => nameiLoop (some j) (rest.drop 1)
termination_by path.length
decreasing_by
  have shorter := next_entry_shorter _ entry rest _found
  simp only [List.length_drop]
  omega

def rootInode : InodeId := 0

def namei (path : List UInt8) : Kern InodeId := do
  let k ← get
  match path with
  | [] => fault
  | byte :: rest =>
      if byte = 47 then nameiLoop (some rootInode) rest
      else nameiLoop (k.procs k.current).pCwd path

theorem namei_root (k : Kernel) (more : List UInt8) : (namei (47 :: 0 :: more)).run k = .ok rootInode k := by
  rw [namei, run_get_bind]
  dsimp only
  rw [if_pos rfl, nameiLoop, if_pos rfl]
  rfl

end Yaup
