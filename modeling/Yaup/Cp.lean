import Yaup.Walkers

set_option autoImplicit false

namespace Yaup.Busybox

open Lib

-- The type of what stat finds; where it finds nothing, st keeps the type it had.
def Fs.statKind (fs : Fs) (path : Bytes) (st : Kind) : Kind := ((fs.locate path).bind fs.tree.kindAt).getD st

-- The loop of main over its operands; what dir_to_dir returns is not looked at.
def copyOperands (sys : System) (fuel : Nat) (rflag : Bool) (last : Bytes) : List Bytes → Kind → Cmd Unit
  | [], _ => return ()
  | src :: rest, st => do
      let fs ← get
      let st := fs.statKind src st
      match st with
      | .reg => fileToDir sys src last
      | .dir =>
          if rflag then
            let _ ← dirToDir sys last fuel src
          else throw .exit
      | .other => pure ()
      copyOperands sys fuel rflag last rest st

def dashed (argv : List Bytes) : Bool := (argv.getD 1 []).head? = some 45

def recursive (argv : List Bytes) : Bool := (argv.getD 1 [])[1]? = some 114

def operands (argv : List Bytes) : List Bytes :=
  if argv.length = 3 then [argv.getD 1 []] else (argv.drop (if dashed argv then 2 else 1)).dropLast

def lastOf (argv : List Bytes) : Bytes := argv.getLast?.getD []

-- `junk` is what st holds before the first stat.
def cpMain (sys : System) (junk : Kind) (fuel : Nat) (argv : List Bytes) : Cmd Int := do
  if argv.length < 3 then throw .exit
  if dashed argv ∧ ¬recursive argv then throw .exit
  if argv.length = 3 then
    fileToFile sys (argv.getD 1 []) (lastOf argv)
  else
    let fs ← get
    let st := fs.statKind (lastOf argv) junk
    if st ≠ .dir then throw .exit
    copyOperands sys fuel (dashed argv) (lastOf argv) (operands argv) st
  return 0

def joined (src dst : Bytes) : Bytes := if dst.getLast? = some 47 then dst ++ src else dst ++ 47 :: src

def copyPath (argv : List Bytes) (src : Bytes) : Bytes :=
  if argv.length = 3 then lastOf argv else joined src (lastOf argv)

def Fs.fileData (fs : Fs) (p : Place) : Option Bytes :=
  (fs.tree.node p).bind fun entry => if entry.kind = .reg then some entry.attr.data else none

def Fs.at (fs : Fs) (p : Place) : Fs := { fs with cwd := p }

structure SourceFile (fs : Fs) (argv : List Bytes) (src : Bytes) (s p : Place) : Prop where
  operand : src ∈ operands argv
  located : fs.locate src = some s
  regular : fs.tree.kindAt (p ++ s) = some .reg

def CpRight (fs t : Fs) (argv : List Bytes) : Prop :=
  ∀ src s p, SourceFile fs argv src s p → t.fileData (p ++ s) = fs.fileData (p ++ s) ∧
    ∃ d, (t.at fs.cwd).locate (copyPath argv src) = some d ∧ t.fileData (p ++ d) = fs.fileData (p ++ s)

def Lands (fs : Fs) (argv : List Bytes) (src : Bytes) (p d : Place) : Prop :=
  if p = [] then ∃ n q, fs.target (copyPath argv src) = some (n, q) ∧ d = n :: q
  else ∃ q, fs.locate (copyPath argv src) = some q ∧ d = p ++ q

def Copies (fs : Fs) (argv : List Bytes) (from_ to_ : Place) : Prop :=
  ∃ src s p, SourceFile fs argv src s p ∧ from_ = p ++ s ∧ Lands fs argv src p to_

-- The walk of the directory that an operand names: each directory in it opens, and dst, from
-- a directory in it that has a file, is the directory of the file's copy.
structure WalkedRight (sys : System) (fs : Fs) (argv : List Bytes) (src : Bytes) (s : Place) : Prop where
  opens : ∀ q, fs.tree.IsDir (q ++ s) → sys.opendir (q ++ s) = true ∧ sys.chdir (q ++ s) = true
  lands : ∀ n q, fs.tree.kindAt (n :: (q ++ s)) = some .reg →
    ∃ d, fs.locate (copyPath argv src) = some d ∧ (fs.at (q ++ s)).locate (lastOf argv) = some (q ++ d)

def Resolves (fs : Fs) (argv : List Bytes) (cwd : Place) (src : Bytes) : Prop :=
  (fs.at cwd).locate src = fs.locate src ∧ (fs.at cwd).target (copyPath argv src) = fs.target (copyPath argv src)

structure CpAgree (fs : Fs) (argv : List Bytes) : Prop where
  copies : ∀ a b d, Copies fs argv a d → Copies fs argv b d → fs.fileData a = fs.fileData b
  sources : ∀ a d src s p, Copies fs argv a d → SourceFile fs argv src s p → d = p ++ s → fs.fileData a = fs.fileData d

structure CpSafe (sys : System) (fs : Fs) (argv : List Bytes) : Prop where
  agree : CpAgree fs argv
  alone : ∀ a, Copies fs argv a a → fs.fileData a = some []
  kept : ∀ a d, Copies fs argv a d → fs.tree.kindAt d ≠ some .other
  outside : ∀ a d src s, Copies fs argv a d → src ∈ operands argv → fs.locate src = some s → fs.tree.IsDir s →
    s <:+ d → fs.tree.Has d
  walked : ∀ src s, src ∈ operands argv → fs.locate src = some s → fs.tree.IsDir s → WalkedRight sys fs argv src s
  later : (operands argv).Pairwise fun src next => ∀ s, fs.locate src = some s → fs.tree.IsDir s →
    sys.chdir s.tail = true ∧ Resolves fs argv s.tail next

def Usable (fs : Fs) (argv : List Bytes) : Prop :=
  ∀ src ∈ operands argv, ∃ s, fs.locate src = some s ∧
    (fs.tree.kindAt s = some .reg ∨ argv.length ≠ 3 ∧ fs.tree.IsDir s)

end Yaup.Busybox
