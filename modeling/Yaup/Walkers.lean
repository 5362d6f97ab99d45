import Yaup.FileSystem

set_option autoImplicit false

namespace Yaup.Busybox

open Lib

inductive Turn (σ : Type) where
  | next (s : σ)
  | stop (code : Int)

-- The recursive functions over directories differ in what they do before and after the loop
-- over the entries of a directory, and for each entry; `σ` are the variables of the loop.
structure Walker (σ : Type) where
  failed : Int
  enter : Bytes → Cmd Unit
  start : σ
  visit : (Bytes → Cmd Int) → Bytes → Dirent → σ → Cmd (Turn σ)
  leave : Cmd Unit
  code : σ → Int

def walkEntries {σ : Type} (visit : Dirent → σ → Cmd (Turn σ)) : List Dirent → σ → Cmd (Turn σ)
  | [], s => return .next s
  | d :: rest, s =>
      if d.name = [46] ∨ d.name = [46, 46] then walkEntries visit rest s
      else do
        match ← visit d s with
        | .stop code => return .stop code
        | .next s => walkEntries visit rest s

def walk {σ : Type} (sys : System) (w : Walker σ) : Nat → Bytes → Cmd Int
  | 0, _ => throw .spent
  | fuel + 1, path => do
      let fs ← get
      match fs.opendir sys path with
      | none => return w.failed
      | some entries =>
          w.enter path
          match ← walkEntries (w.visit (walk sys w fuel) path) entries w.start with
          | .stop code => return code
          | .next s =>
              w.leave
              return w.code s

-- if (d->d_type == DT_DIR) if (walk(d->d_name) < 0) return -1; the answer is whether it goes on.
def descend (nested : Bytes → Cmd Int) (d : Dirent) : Cmd Bool := do
  if d.kind = .dir then
    let code ← nested d.name
    return decide (0 ≤ code)
  else return true

-- chgrp_rec, chmod_rec, chown_rec: `change` is the call made in the turn of an entry.
def changer (sys : System) (change : Bytes → Dirent → Cmd Int) : Walker Unit where
  failed := -1
  enter := chdir sys
  start := ()
  visit := fun nested path d _ => do
    if ← descend nested d then
      let code ← change path d
      return if code < 0 then .stop (-1) else .next ()
    else return .stop (-1)
  leave := chdir sys [46, 46]
  code := fun _ => 0

def chgrpRec (sys : System) (gid : Nat) : Nat → Bytes → Cmd Int :=
  walk sys (changer sys fun _ d => chown sys d.name none (some gid))

def chmodRec (sys : System) (mode : Nat) : Nat → Bytes → Cmd Int :=
  walk sys (changer sys fun path _ => chmod sys path mode)

def chownRec (sys : System) (owner : Nat) : Nat → Bytes → Cmd Int :=
  walk sys (changer sys fun path _ => chown sys path (some owner) none)

def remover (sys : System) : Walker Unit :=
  { changer sys fun _ d => remove sys d.name with
    enter := fun _ => pure ()
    leave := pure () }

def rmDir (sys : System) : Nat → Bytes → Cmd Int := walk sys (remover sys)

def sizeMod : Nat := 18446744073709551616

-- The loop's variables are dsize and st.st_size, which is none where st is not set yet; `junk`
-- is what it then holds, in the call that is in a directory.
def sizer (sys : System) (junk : Place → Nat) : Walker (Nat × Option Nat) where
  failed := 18446744073709551615
  enter := chdir sys
  start := (0, none)
  visit := fun nested path d s => do
    let below ← if d.kind = .dir then nested d.name else pure 0
    let fs ← get
    let size := ((fs.stat path).map fun st => st.data.length).or s.2
    return .next ((s.1 + below.toNat + size.getD (junk fs.cwd)) % sizeMod, size)
  leave := chdir sys [46, 46]
  code := fun s => s.1

def dirDu (sys : System) (junk : Place → Nat) : Nat → Bytes → Cmd Int := walk sys (sizer sys junk)

-- find without what it writes into its path.
def finder (sys : System) (name : Bytes) : Walker Unit where
  failed := -1
  enter := chdir sys
  start := ()
  visit := fun nested _ d _ => do
    if d.name ≠ name then
      if d.kind = .dir then
        let _ ← nested d.name
        return .next ()
      else return .next ()
    else return .stop 1
  leave := chdir sys [46, 46]
  code := fun _ => 0

def find (sys : System) (name : Bytes) : Nat → Bytes → Cmd Int := walk sys (finder sys name)

def dstSz : Nat := 128

-- dst_len = strlen(dst), and new_dst with its sprintf.
def newDst (src dst : Bytes) : Cmd Bytes := do
  match dst.getLast? with
  | none => throw .fault
  | some last =>
      let path := if last ≠ 47 then dst ++ 47 :: src else dst ++ src
      if path.length < dstSz then return path else throw .fault

def fileToDir (sys : System) (src dst : Bytes) : Cmd Unit := do
  let path ← newDst src dst
  fileToFile sys src path

def copier (sys : System) (dst : Bytes) : Walker Unit where
  failed := -1
  enter := fun src => do
    let _ ← newDst src dst
    chdir sys src
  start := ()
  visit := fun nested _ d _ => do
    match d.kind with
    | .reg =>
        fileToDir sys d.name dst
        return .next ()
    | .dir =>
        let code ← nested d.name
        return if code < 0 then .stop (-1) else .next ()
    | .other => return .next ()
  leave := chdir sys [46, 46]
  code := fun _ => 0

def dirToDir (sys : System) (dst : Bytes) : Nat → Bytes → Cmd Int := walk sys (copier sys dst)

end Yaup.Busybox
