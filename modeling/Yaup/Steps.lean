import Yaup.Alloc
import Yaup.Lib.Ledger
import Yaup.Lib.Program
import Yaup.OpenClose
import Yaup.ReadWrite
import Yaup.Stat

set_option autoImplicit false

namespace Yaup

open Lib

-- Noted are the buffers that bread or balloc answers a call with, and the brelease and
-- bwrite calls made for a buffer.
abbrev Note := Use BufId

-- The calls again, statement by statement, as they run among the calls of other processes.
abbrev Steps (α : Type) := Prog Kernel Lock Halt Note α

namespace Steps

def alone {α : Type} (x : Steps α) : Kern α := Prog.alone acquire release x

def only {α : Type} (x : Steps α) : Steps Unit := x >>= fun _ => pure ()

def initlock (l : Lock) : Steps Unit := Prog.release l

def holdingsleep (l : Lock) : Steps Bool := do
  let k ← Prog.state
  return k.locks l = some k.current

def panic {α : Type} (msg : String) : Steps α := .halt (.panic msg)

def fault {α : Type} : Steps α := .halt .fault

-- The slot that the first loop of bget stopped at, and the one its second would.
def bgetFound (dev : Dev) (blk : Blk) : Option BufId → Option BufId → Steps BufId
  | some b, _ => do
      Prog.release .buffer
      return b
  | none, some b => do
      Prog.change fun k => k.setBlock b { k.blocks b with bBlk := blk }
      Prog.change fun k => k.setBlock b { k.blocks b with bDev := dev }
      Prog.change fun k => k.setBlock b { k.blocks b with bDirty := false }
      initlock (.buf b)
      Prog.release .buffer
      return b
  | none, none => panic "bget: no buffer available"

def bget (dev : Dev) (blk : Blk) : Steps BufId := do
  Prog.acquire .buffer
  let k ← Prog.state
  bgetFound dev blk (findBlock k dev blk) (freeBlock k)

def breadBody (b : BufId) : Steps BufId := do
  let k ← Prog.state
  if (k.blocks b).bCount = 0 then
    Prog.change fun k => k.setBlock b { k.blocks b with bData := k.disk (k.blocks b).key }
    Prog.change fun k => k.setBlock b { k.blocks b with bCount := (k.blocks b).bCount + 1 }
  return b

def bread (dev : Dev) (blk : Blk) : Steps BufId := do
  let b ← bget dev blk
  let b ← breadBody b
  Prog.tell (.gets b)
  return b

def bwrite (b : BufId) : Steps Int := do
  Prog.tell (.gives b)
  Prog.acquire (.buf b)
  let k ← Prog.state
  if ¬ (k.blocks b).bDirty then
    Prog.release (.buf b)
    return 0
  Prog.change fun k => k.setDisk (k.blocks b).key (k.blocks b).bData
  Prog.change fun k => k.setBlock b { k.blocks b with bCount := (k.blocks b).bCount - 1 }
  let k ← Prog.state
  if (k.blocks b).bCount = 0 then
    Prog.change fun k => k.setBlock b { k.blocks b with bBlk := 0 }
    Prog.change fun k => k.setBlock b { k.blocks b with bDev := 0 }
    Prog.change fun k => k.setBlock b { k.blocks b with bData := zeroBlock }
  return 0

def brelease (b : BufId) : Steps Int := do
  Prog.tell (.gives b)
  let k ← Prog.state
  if (k.blocks b).bCount = 0 then
    panic "brelease: unused buffer"
  if ← holdingsleep (.buf b) then
    Prog.change fun k => k.setBlock b { k.blocks b with bCount := (k.blocks b).bCount - 1 }
    Prog.release (.buf b)
  return 0

def sbread (dev : Dev) : Steps Superblock := do
  Prog.acquire .mtable
  let b ← bread dev 1
  let k ← Prog.state
  let sb := Superblock.ofBytes (window (k.blocks b).bData (k.wild.pastBlock b) 0 sizeofSuperblock)
  Prog.change fun k => k.setSuperblock dev sb
  let _ ← brelease b
  Prog.release .mtable
  return sb

def ballocScan (getFreePosAt : Kernel → UInt8 → Option UInt64) (dev : Dev) (b : BufId) : Nat → Steps BufId
  | 0 => return b
  | left + 1 => do
      let k ← Prog.state
      match getFreePosAt k (dataByte k b (blkSz - left)) with
      | none => fault
      | some blk => if blk > 0 then bget dev blk else ballocScan getFreePosAt dev b left

def ballocLoop (getFreePosAt : Kernel → UInt8 → Option UInt64) (dev : Dev) (off : UInt64) :
    Nat → Option BufId → Steps (Option BufId)
  | 0, _ => .halt .spins
  | turns + 1, b => do
      let k ← Prog.state
      if off < (k.superblock dev).sFreeBlkLen then
        let b ← bread dev ((k.superblock dev).sFreeBlk + off)
        let b ← ballocScan getFreePosAt dev b blkSz
        ballocLoop getFreePosAt dev off turns (some b)
      else return b

def balloc (getFreePosAt : Kernel → UInt8 → Option UInt64) (unset : Option BufId) (turns : Nat) (dev : Dev) :
    Steps (Option BufId) :=
  ballocLoop getFreePosAt dev 0 turns unset

def ballocBuffer (getFreePosAt : Kernel → UInt8 → Option UInt64) (unset : Option BufId) (turns : Nat) (dev : Dev) :
    Steps BufId := do
  match ← balloc getFreePosAt unset turns dev with
  | some b => return b
  | none => panic "sys_write: cannot get a new block"

def bfree (setPosAt : UInt8 → UInt64 → Option (Kernel → Kernel)) (dev : Dev) (blk : Blk) : Steps Int := do
  let k ← Prog.state
  let b ← bread dev ((k.superblock dev).sFreeBlk + UInt64.ofNat (blk.toNat / sizeofBitmap))
  let k ← Prog.state
  match setPosAt (dataByte k b (blk.toNat % sizeofBitmap)) (UInt64.ofNat (blk.toNat % sizeofBitmap)) with
  | none => fault
  | some write =>
      Prog.change write
      let _ ← brelease b
      return 0

def igetLoad (free : InodeId) (dev : Dev) (num : Ino) : Steps InodeId := do
  let k ← Prog.state
  let b ← bread dev (tableBlk k dev num)
  Prog.change fun k => k.setInode free { k.inodes free with
    toDInode := DInode.ofBytes (loadRecord sizeofDInode (k.blocks b).bData (k.wild.pastBlock b) num) }
  Prog.change fun k => k.setInode free { k.inodes free with iNum := num }
  Prog.change fun k => k.setInode free { k.inodes free with iDev := dev }
  Prog.change fun k => k.setInode free { k.inodes free with iCount := (k.inodes free).iCount + 1 }
  initlock (.ino free)
  let _ ← brelease b
  Prog.release .icache
  return free

def igetFound (dev : Dev) (num : Ino) : InodeId ⊕ Option InodeId → Steps InodeId
  | .inl i => do
      Prog.release .icache
      return i
  | .inr none => panic "iget: no free inodes"
  | .inr (some free) => igetLoad free dev num

def iget (dev : Dev) (num : Ino) : Steps InodeId := do
  Prog.acquire .icache
  let k ← Prog.state
  igetFound dev num (igetLoop k dev num)

def iput (i : InodeId) : Steps Int := do
  Prog.acquire (.ino i)
  let k ← Prog.state
  if (k.inodes i).iFlag &&& idirt ≠ 0 then
    let b ← bread (k.inodes i).iDev (tableBlk k (k.inodes i).iDev (k.inodes i).iNum)
    Prog.change fun k => k.setBlock b { k.blocks b with
      bData := storeRecord sizeofDInode (k.blocks b).bData (k.inodes i).iNum (k.inodes i).toDInode.bytes }
    let _ ← bwrite b
    Prog.change fun k => k.setInode i { k.inodes i with iFlag := (k.inodes i).iFlag &&& notIdirt }
    Prog.change fun k => k.setInode i { k.inodes i with iCount := (k.inodes i).iCount - 1 }
    Prog.release (.ino i)
  return 0

def ilock (i : InodeId) : Steps Int := do
  if ← holdingsleep .icache then
    Prog.acquire (.ino i)
  return 0

def irelease (i : InodeId) : Steps Int := do
  let k ← Prog.state
  if (k.inodes i).iCount < 0 then
    panic "irelease: releasing an unussed inode"
  if ← holdingsleep (.ino i) then
    Prog.change fun k => k.setInode i { k.inodes i with iCount := (k.inodes i).iCount - 1 }
    Prog.release (.ino i)
  return 0

def ifree (i : InodeId) : Steps Int := do
  Prog.acquire (.ino i)
  let k ← Prog.state
  let b ← bread (k.inodes i).iDev (tableBlk k (k.inodes i).iDev (k.inodes i).iNum)
  Prog.change fun k => k.setBlock b { k.blocks b with
    bData := clearRecord sizeofDInode (k.blocks b).bData (k.inodes i).iNum }
  let _ ← bwrite b
  Prog.release (.ino i)
  return 0

def iallocLoop (getFreePos : Block → UInt64) (unset : Option InodeId) (dev : Dev) : Nat → Nat → Steps (Option InodeId)
  | 0, _ => fault
  | left + 1, c => do
      let k ← Prog.state
      if UInt64.ofNat c < (k.superblock dev).sFreeInoLen then
        let b ← bread dev ((k.superblock dev).sFreeIno + UInt64.ofNat c)
        let k ← Prog.state
        let inum := getFreePos (k.blocks b).bData
        if inum > 0 then
          let i ← iget dev inum
          return some i
        else iallocLoop getFreePos unset dev left (c + 1)
      else return unset

def ialloc (getFreePos : Block → UInt64) (unset : Option InodeId) (dev : Dev) : Steps (Option InodeId) :=
  iallocLoop getFreePos unset dev (intMax + 1) 0

def dirSearch (ip : InodeId) (entry : List UInt8) : List Nat → Steps (Option (Dev × Ino))
  | [] => return none
  | n :: rest => do
      let k ← Prog.state
      let b ← bread (k.inodes ip).iDev ((k.inodes ip).addr n)
      let k ← Prog.state
      match searchBlock k b entry with
      | some num => return some ((k.inodes ip).iDev, num)
      | none =>
          let _ ← brelease b
          dirSearch ip entry rest

def dirLookup (ip : InodeId) (entry : List UInt8) : Steps (Option InodeId) := do
  match ← dirSearch ip entry (List.range ndirect) with
  | some (dev, num) =>
      let i ← iget dev num
      return some i
  | none => return none

def nameiLoop (i : Option InodeId) (path : List UInt8) : Steps InodeId :=
  match path with
  | [] => fault
  | byte :: more =>
      if byte = 0 then
        match i with
        | some ip => pure ip
        | none => panic "namei: entry not found"
      else
        match _found : nextEntry (byte :: more) with
        | none => fault
        | some (entry, rest) =>
            match i with
            | none => fault
            | some ip => do
                match ← dirLookup ip entry with
                | none => panic "namei: entry not found"
                | some j => nameiLoop (some j) (rest.drop 1)
termination_by path.length
decreasing_by
  have shorter := next_entry_shorter _ entry rest _found
  simp only [List.length_drop]
  omega

def namei (path : List UInt8) : Steps InodeId := do
  let k ← Prog.state
  match path with
  | [] => fault
  | byte :: rest =>
      if byte = 47 then nameiLoop (some rootInode) rest
      else nameiLoop (k.procs k.current).pCwd path

def fgetFound (i : InodeId) (flags : UInt32) : FileId ⊕ Option FileId → Steps (Option FileId)
  | .inl f => do
      let k ← Prog.state
      if fileNum k f = none then fault
      Prog.change fun k => k.setFile f { k.files f with fCount := (k.files f).fCount + 1 }
      Prog.release .openFiles
      return some f
  | .inr none => do
      Prog.release .openFiles
      return none
  | .inr (some empty) => do
      Prog.change fun k => k.setFile empty { k.files empty with fCount := (k.files empty).fCount + 1 }
      Prog.change fun k => k.setFile empty { k.files empty with fFlag := flags.toUInt8 }
      Prog.change fun k => k.setFile empty { k.files empty with fInode := some i }
      Prog.change fun k => k.setFile empty { k.files empty with fMode := (k.inodes i).iMode }
      Prog.change fun k => k.setFile empty { k.files empty with fOff := 0 }
      initlock (.file empty)
      Prog.release .openFiles
      return some empty

def fget (i : InodeId) (flags : UInt32) : Steps (Option FileId) := do
  Prog.acquire .openFiles
  let k ← Prog.state
  fgetFound i flags (fgetLoop k i)

def fdget : Steps (Option (Fin nrOfiles)) := do
  Prog.acquire .procTable
  let k ← Prog.state
  match freeFd (k.procs k.current) with
  | some fd =>
      Prog.release .procTable
      return some fd
  | none => return none

def openInode (i : InodeId) (flags : UInt32) : Steps Int := do
  let k ← Prog.state
  if (k.inodes i).iMode &&& ifmt ≠ ifreg then
    let _ ← iput i
    panic "sys_open: this is not a regular file"
  match ← fget i flags with
  | none =>
      let _ ← iput i
      panic "sys_open: cannot get file struct"
  | some f =>
      match ← fdget with
      | none =>
          let _ ← iput i
          Prog.change fun k => k.setFile f { k.files f with fCount := (k.files f).fCount - 1 }
          panic "sys_open: cannot get a valid fd"
      | some fd =>
          let k ← Prog.state
          Prog.acquire (.proc k.current)
          Prog.change fun k => k.setProc k.current { k.procs k.current with
            pFilp := Function.update (k.procs k.current).pFilp fd (some f) }
          Prog.release (.proc k.current)
          return einprogress

def sysOpen (path : List UInt8) (flags : UInt32) (_mode : UInt16) : Steps Int := do
  let i ← namei path
  openInode i flags

def closeLast (f : FileId) : Steps Unit := do
  Prog.change fun k => k.setFile f { k.files f with fFlag := 0 }
  let k ← Prog.state
  match (k.files f).fInode with
  | none => fault
  | some i =>
      let _ ← iput i
      Prog.change fun k => k.setFile f { k.files f with fInode := none }
      Prog.change fun k => k.setFile f { k.files f with fMode := 0 }
      Prog.change fun k => k.setFile f { k.files f with fOff := 0 }
      Prog.release (.file f)

def sysClose (fd : Int) : Steps Int := do
  if fd > nrOfiles ∨ fd < 0 then
    panic "sys_close: bad fd"
  let k ← Prog.state
  if inside : fd.toNat < nrOfiles then
    match (k.procs k.current).pFilp ⟨fd.toNat, inside⟩ with
    | none => panic "sys_close: bad file table"
    | some f =>
        Prog.acquire .openFiles
        Prog.change fun k => k.setFile f { k.files f with fCount := (k.files f).fCount - 1 }
        let k ← Prog.state
        if (k.files f).fCount = 0 then
          closeLast f
        Prog.release .openFiles
        return 0
  else fault

def statInode (i : InodeId) : Steps (Int × Stat) := do
  let _ ← ilock i
  let k ← Prog.state
  let st := (k.inodes i).stat
  let _ ← iput i
  let _ ← irelease i
  return (0, st)

def sysStat (path : List UInt8) : Steps (Int × Stat) := do
  let i ← namei path
  statInode i

def openFile (unset : Unset) (fd : Int) (usr grp oth : UInt16) (bad denied : String) : Steps FileId := do
  if fd ≥ nrOfiles then panic bad
  let k ← Prog.state
  Prog.acquire (.proc k.current)
  match (k.procs k.current).filp fd, unset.inode with
  | some none, _ => panic bad
  | some (some f), some x =>
      if ¬ hasPerm (k.procs k.current) x usr grp oth then panic denied
      Prog.release (.proc k.current)
      return f
  | _, _ => fault

def breadKey : Option (Dev × Blk) → Steps BufId
  | none => fault
  | some key => bread key.1 key.2

def fileBlock (f : FileId) : Steps BufId := do
  let k ← Prog.state
  breadKey (fileKey k f)

def readLoop (f : FileId) : Nat → BufId → Fin blkSz → Steps Bytes
  | 0, _, _ => return []
  | n + 1, b, i => do
      let k ← Prog.state
      let byte := (k.blocks b).bData i
      Prog.change fun k => k.setFile f ((k.files f).advance 1)
      if more : i.val + 1 < blkSz then
        let rest ← readLoop f n b ⟨i.val + 1, more⟩
        return byte :: rest
      else
        let _ ← brelease b
        let b ← fileBlock f
        let k ← Prog.state
        let rest ← readLoop f n b (k.files f).place
        return byte :: rest

def sysRead (unset : Unset) (fd : Int) (buffsize : UInt64) : Steps (Int × Bytes) := do
  match unset.clamp with
  | none => fault
  | some (off, size) =>
      let buffsize := if off + buffsize ≥ size then size - off else buffsize
      let f ← openFile unset fd irusr irgrp iroth "sys_read: invalid fd"
        "sys_read: cannot read file (permission denied)"
      let k ← Prog.state
      if (k.files f).fFlag &&& (if fread = 0 then 1 else 0) ≠ 0 then
        panic "sys_write: non readable file"
      let b ← fileBlock f
      let k ← Prog.state
      let data ← readLoop f buffsize.toNat b (k.files f).place
      return ((data.length : Int), data)

section
variable (balloc : Dev → Steps BufId)

def newBlock (f : FileId) : Steps BufId := do
  let k ← Prog.state
  match (k.files f).fInode with
  | none => fault
  | some ip =>
      let b ← balloc (k.inodes ip).iDev
      Prog.tell (.gets b)
      return b

def writeLoop (f : FileId) : Bytes → BufId → Fin blkSz → Steps (List Blk)
  | [], _, _ => return []
  | byte :: rest, b, i => do
      Prog.change fun k => k.setBlock b ((k.blocks b).putAt i byte)
      Prog.change fun k => k.setFile f ((k.files f).advance 1)
      if more : i.val + 1 < blkSz then writeLoop f rest b ⟨i.val + 1, more⟩
      else
        Prog.change fun k => k.setBlock b { k.blocks b with bDirty := true }
        let _ ← brelease b
        let b ← newBlock balloc f
        let k ← Prog.state
        let later ← writeLoop f rest b (k.files f).place
        return (k.blocks b).bBlk :: later

def sysWrite (unset : Unset) (fd : Int) (buf : Bytes) : Steps (Int × List Blk) := do
  let f ← openFile unset fd iwusr iwgrp iwoth "sys_write: bad fd"
    "sys_read: cannot write file (permission denied)"
  let k ← Prog.state
  if (k.files f).fFlag &&& (if fwrt = 0 then 1 else 0) ≠ 0 then
    panic "sys_write: non writeable file"
  let b ← fileBlock f
  let k ← Prog.state
  let fresh ← writeLoop balloc f buf b (k.files f).place
  return ((buf.length : Int), fresh)

end

end Steps

end Yaup
