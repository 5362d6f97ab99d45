import Yaup.Lib.FileTree
import Yaup.Lib.Outcome
import Yaup.Lib.Text

set_option autoImplicit false

namespace Yaup.Busybox

open Lib

def NameOk (text : Bytes) : Prop := text ≠ [] ∧ 47 ∉ text ∧ text ≠ [46] ∧ text ≠ [46, 46]

instance (text : Bytes) : Decidable (NameOk text) := inferInstanceAs (Decidable (_ ∧ _ ∧ _ ∧ _))

abbrev Name := { text : Bytes // NameOk text }

abbrev Place := List Name

-- st_size is the length of the data.
structure Stat where
  mode : Nat
  owner : Nat
  group : Nat
  data : Bytes
deriving DecidableEq

structure Fs where
  tree : Tree Name Stat
  cwd : Place

-- S_ISUID and S_ISGID.
def setIds : Nat := 3072

-- The bits of m2 are those of m1, but for these two where they are cleared.
structure Cleared (m1 m2 : Nat) : Prop where
  others : ∀ i, setIds.testBit i = false → m2.testBit i = m1.testBit i
  fewer : ∀ i, m2.testBit i = true → m1.testBit i = true

theorem cleared_refl (m : Nat) : Cleared m m := ⟨fun _ _ => rfl, fun _ set => set⟩

theorem cleared_trans (m1 m2 m3 : Nat) (first : Cleared m1 m2) (second : Cleared m2 m3) : Cleared m1 m3 :=
  ⟨fun i other => (second.others i other).trans (first.others i other), fun i set => first.fewer i (second.fewer i set)⟩

structure ModeLeft where
  mode : Kind → Nat → Nat
  cleared : ∀ kind m, Cleared m (mode kind m)
  twice : ∀ kind m, mode kind (mode kind m) = mode kind m

-- What the system permits, place by place, the attributes that it gives a new file there, what
-- is read from a device or a FIFO, and the modes that chown and a write of these bytes leave.
structure System where
  opendir : Place → Bool
  chdir : Place → Bool
  change : Place → Bool
  remove : Place → Bool
  read : Place → Bool
  write : Place → Bool
  fresh : Place → Stat
  stream : Place → Bytes
  chowned : ModeLeft
  written : Bytes → ModeLeft

structure Permits (sys : System) : Prop where
  opens : ∀ p, sys.opendir p = true
  enters : ∀ p, sys.chdir p = true
  changes : ∀ p, sys.change p = true
  removes : ∀ p, sys.remove p = true

-- err(), an access outside an object, and the end of the fuel of a recursion.
inductive Halt where
  | exit | fault | spent
deriving DecidableEq

abbrev Cmd (α : Type) := EStateM Halt Fs α

def part (text : Bytes) : PathPart Name :=
  if ok : NameOk text then .name ⟨text, ok⟩ else if text = [46, 46] then .up else .here

def parts (path : Bytes) : List (PathPart Name) := (path.splitOn 47).map part

def Fs.from (fs : Fs) (path : Bytes) : Place := if path.head? = some 47 then [] else fs.cwd

def Fs.locate (fs : Fs) (path : Bytes) : Option Place :=
  if path = [] then none else fs.tree.walkTo (fs.from path) (parts path)

structure Dirent where
  name : Bytes
  kind : Kind
deriving DecidableEq

def dirent (entry : Name × Kind) : Dirent := ⟨entry.1.val, entry.2⟩

-- What readdir gives after an opendir, "." and ".." first.
def Fs.opendir (sys : System) (path : Bytes) (fs : Fs) : Option (List Dirent) :=
  match fs.locate path with
  | none => none
  | some p =>
      if fs.tree.IsDir p ∧ sys.opendir p = true then
        some (⟨[46], .dir⟩ :: ⟨[46, 46], .dir⟩ :: (fs.tree.entries p).map dirent)
      else none

def Fs.chdir (sys : System) (path : Bytes) (fs : Fs) : Fs :=
  match fs.locate path with
  | none => fs
  | some p => if fs.tree.IsDir p ∧ sys.chdir p = true then { fs with cwd := p } else fs

def chdir (sys : System) (path : Bytes) : Cmd Unit := modify (Fs.chdir sys path)

def Fs.stat (fs : Fs) (path : Bytes) : Option Stat := ((fs.locate path).bind fs.tree.node).map Node.attr

def changeAttr (sys : System) (path : Bytes) (f : Kind → Stat → Stat) : Cmd Int := do
  let fs ← get
  match fs.locate path with
  | none => return -1
  | some p =>
      if sys.change p = true then
        set { fs with tree := fs.tree.change p f }
        return 0
      else return -1

def chmod (sys : System) (path : Bytes) (mode : Nat) : Cmd Int := changeAttr sys path fun _ attr => { attr with mode := mode }

-- chown, where none stands for -1.
def chown (sys : System) (path : Bytes) (owner group : Option Nat) : Cmd Int :=
  changeAttr sys path fun kind attr =>
    { attr with
      mode := sys.chowned.mode kind attr.mode
      owner := owner.getD attr.owner
      group := group.getD attr.group }

def remove (sys : System) (path : Bytes) : Cmd Int := do
  let fs ← get
  match fs.locate path with
  | none => return -1
  | some p =>
      if leaf : fs.tree.Leaf p ∧ sys.remove p = true then
        set { fs with tree := fs.tree.erase p leaf.1 }
        return 0
      else return -1

def Fs.target (fs : Fs) (path : Bytes) : Option (Name × Place) :=
  match (parts path).getLast? with
  | some (.name n) => (fs.tree.walkTo (fs.from path) (parts path).dropLast).map fun p => (n, p)
  | _ => none

def Fs.contents (sys : System) (fs : Fs) (p : Place) : Bytes :=
  match fs.tree.node p with
  | some ⟨.reg, attr⟩ => attr.data
  | some ⟨.other, _⟩ => sys.stream p
  | _ => []

-- What the loop over fgetc copies: nothing from a file that the fopen for writing has just cut.
def copied (sys : System) (fs : Fs) (src dst : Place) : Bytes :=
  if src = dst ∧ fs.tree.kindAt src = some .reg then [] else fs.contents sys src

-- What is written to a device or a FIFO is not kept there.
def refill (sys : System) (p : Place) (kind : Option Kind) (data : Bytes) : Option Stat → Stat
  | none => { sys.fresh p with data := data }
  | some old => if kind = some .other then old else { old with mode := (sys.written data).mode .reg old.mode, data := data }

def fileToFile (sys : System) (src dst : Bytes) : Cmd Unit := do
  let fs ← get
  match fs.locate src with
  | none => throw .exit
  | some p =>
      if sys.read p = true then
        match fs.target dst with
        | none => throw .exit
        | some (n, q) =>
            if able : (fs.tree.IsDir q ∧ ¬fs.tree.IsDir (n :: q)) ∧ sys.write (n :: q) = true then
              let filled := refill sys (n :: q) (fs.tree.kindAt (n :: q)) (copied sys fs p (n :: q))
              set { fs with tree := fs.tree.write n q filled able.1.1 able.1.2 }
            else throw .exit
      else throw .exit

theorem part_name (n : Name) : part n.val = .name n := dif_pos n.property

theorem parts_name (n : Name) : parts n.val = [.name n] := by
  rw [parts, List.splitOn_eq_singleton n.property.2.1, List.map_singleton, part_name]

theorem from_name (fs : Fs) (n : Name) : fs.from n.val = fs.cwd := by
  refine if_neg fun slash => ?_
  exact n.property.2.1 (List.mem_of_mem_head? slash)

theorem locate_name (fs : Fs) (n : Name) :
    fs.locate n.val = if fs.tree.Has (n :: fs.cwd) then some (n :: fs.cwd) else none := by
  rw [Fs.locate, if_neg n.property.1, from_name, parts_name, Tree.walkTo, Tree.walkTo]
  by_cases has : fs.tree.Has (n :: fs.cwd)
  · rw [if_pos (parent_dir _ _ _ has), if_pos has]
  · rw [if_neg has, ite_self]

theorem locate_dir (fs : Fs) (n : Name) (dir : fs.tree.IsDir (n :: fs.cwd)) : fs.locate n.val = some (n :: fs.cwd) := by
  rw [locate_name, if_pos (dir_has _ _ dir)]

theorem locate_up (fs : Fs) (dir : fs.tree.IsDir fs.cwd) : fs.locate [46, 46] = some fs.cwd.tail := by
  have steps : parts [46, 46] = [.up] := by decide
  have start : fs.from [46, 46] = fs.cwd := if_neg (by decide)
  rw [Fs.locate, if_neg (by decide), steps, start, Tree.walkTo, if_pos dir, Tree.walkTo,
    if_pos (dir_has _ _ (tail_dir _ _ dir))]

theorem same_shape_locate (fs : Fs) (tree : Tree Name Stat) (path : Bytes) (same : SameShape fs.tree tree) :
    ({ fs with tree := tree } : Fs).locate path = fs.locate path := by
  rw [Fs.locate, Fs.locate]
  exact if_congr Iff.rfl rfl (same_shape_walk _ _ same _ _)

theorem chdir_up (sys : System) (fs : Fs) (dir : fs.tree.IsDir fs.cwd) (permitted : sys.chdir fs.cwd.tail = true) :
    fs.chdir sys [46, 46] = { fs with cwd := fs.cwd.tail } := by
  rw [Fs.chdir, locate_up fs dir]
  exact if_pos ⟨tail_dir _ _ dir, permitted⟩

theorem chdir_locate (sys : System) (path : Bytes) (fs : Fs) (p : Place) (found : fs.locate path = some p)
    (dir : fs.tree.IsDir p) (permitted : sys.chdir p = true) : fs.chdir sys path = { fs with cwd := p } := by
  rw [Fs.chdir, found]
  exact if_pos ⟨dir, permitted⟩

theorem opendir_some (sys : System) (path : Bytes) (fs : Fs) (p : Place) (found : fs.locate path = some p)
    (dir : fs.tree.IsDir p) (permitted : sys.opendir p = true) :
    fs.opendir sys path = some (⟨[46], .dir⟩ :: ⟨[46, 46], .dir⟩ :: (fs.tree.entries p).map dirent) := by
  rw [Fs.opendir, found]
  exact if_pos ⟨dir, permitted⟩

def sameMode : ModeLeft := ⟨fun _ m => m, fun _ => cleared_refl, fun _ _ => rfl⟩

def allowed : System where
  opendir := fun _ => true
  chdir := fun _ => true
  change := fun _ => true
  remove := fun _ => true
  read := fun _ => true
  write := fun _ => true
  fresh := fun _ => ⟨420, 0, 0, []⟩
  stream := fun _ => []
  chowned := sameMode
  written := fun _ => sameMode

theorem allowed_permits : Permits allowed := ⟨fun _ => rfl, fun _ => rfl, fun _ => rfl, fun _ => rfl⟩

def nameA : Name := ⟨[97], by decide⟩

def nameF : Name := ⟨[102], by decide⟩

def twinsNode (p : Place) : Option (Node Stat) :=
  if p = [] ∨ p = [nameA] then some ⟨.dir, ⟨493, 0, 0, []⟩⟩
  else if p = [nameF] ∨ p = [nameF, nameA] then some ⟨.reg, ⟨420, 0, 0, []⟩⟩
  else none

theorem twins_places (p : Place) (has : twinsNode p ≠ none) : p = [] ∨ p = [nameA] ∨ p = [nameF] ∨ p = [nameF, nameA] := by
  by_contra other
  simp only [not_or] at other
  refine has ?_
  rw [twinsNode, if_neg (by tauto), if_neg (by tauto)]

-- The directory "/a" and two files of one name, "/f" and "/a/f".
def twins : Tree Name Stat where
  node := twinsNode
  names := fun _ => [nameA, nameF]
  depth := 2
  root := rfl
  parent := by
    intro n p has
    rcases twins_places (n :: p) has with place | place | place | place
    · cases place
    · cases place
      decide
    · cases place
      decide
    · cases place
      decide
  listed := by
    intro n p has
    rcases twins_places (n :: p) has with place | place | place | place
    · cases place
    · cases place
      decide
    · cases place
      decide
    · cases place
      decide
  nodup := fun _ => by decide
  shallow := by
    intro p has
    rcases twins_places p has with rfl | rfl | rfl | rfl
    · decide
    · decide
    · decide
    · decide

theorem twins_a_dir : twins.IsDir [nameA] := rfl

theorem twins_flat (n : Name) : ¬twins.IsDir (n :: [nameA]) := by
  intro dir
  rcases twins_places (n :: [nameA]) ((has_iff twins _).mp (dir_has _ _ dir)) with place | place | place | place
  · cases place
  · cases place
  · cases place
  · cases place
    exact absurd dir (by decide)

end Yaup.Busybox
