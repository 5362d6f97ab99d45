import Yaup.Namei

set_option autoImplicit false

namespace Yaup

open Lib

section
variable (lookup : InodeId → List UInt8 → Kern (Option InodeId))

-- namei over any dir_lookup.
def nameiLoopWith (i : Option InodeId) (path : List UInt8) : Kern InodeId :=
  match path with
  | [] => fault
  | byte :: more =>
      if byte = 0 then
        match i with
        | some ip => pure ip
        | none => panic "namei: entry not found"
      else
        match _found : nextEntry (byte :: more) with
        | none => fault
        | some (entry, rest) =>
            match i with
            | none => fault
            | some ip => do
                match ← lookup ip entry with
                | none => panic "namei: entry not found"
                | some j => nameiLoopWith (some j) (rest.drop 1)
termination_by path.length
decreasing_by
  have shorter := next_entry_shorter _ entry rest _found
  simp only [List.length_drop]
  omega

def nameiWith (path : List UInt8) : Kern InodeId := do
  let k ← get
  match path with
  | [] => fault
  | byte :: rest =>
      if byte = 47 then nameiLoopWith lookup (some rootInode) rest
      else nameiLoopWith lookup (k.procs k.current).pCwd path

theorem loop_ends (start : Option InodeId) (beyond : List UInt8) :
    nameiLoopWith lookup start (0 :: beyond) =
      match start with
      | some ip => pure ip
      | none => panic "namei: entry not found" := by
  unfold nameiLoopWith
  rw [if_pos rfl]

theorem loop_off (start : Option InodeId) (byte : UInt8) (more : List UInt8) (first : byte ≠ 0)
    (off : nextEntry (byte :: more) = none) : nameiLoopWith lookup start (byte :: more) = fault := by
  unfold nameiLoopWith
  rw [if_neg first]
  split
  · rfl
  · rename_i split
    rw [off] at split
    cases split

theorem loop_next (start : Option InodeId) (byte : UInt8) (more entry rest : List UInt8) (first : byte ≠ 0)
    (found : nextEntry (byte :: more) = some (entry, rest)) :
    nameiLoopWith lookup start (byte :: more) =
      (match start with
      | none => fault
      | some ip => do
          match ← lookup ip entry with
          | none => panic "namei: entry not found"
          | some j => nameiLoopWith lookup (some j) (rest.drop 1)) := by
  conv_lhs => unfold nameiLoopWith
  rw [if_neg first]
  split
  · rename_i split
    rw [found] at split
    cases split
  · rename_i split
    rw [found] at split
    cases split
    rfl

end

theorem namei_loop_with (i : Option InodeId) (path : List UInt8) : nameiLoop i path = nameiLoopWith dirLookup i path := by
  fun_induction nameiLoop i path with
  | case1 i => unfold nameiLoopWith; rfl
  | case2 more ip => exact (loop_ends dirLookup (some ip) more).symm
  | case3 more => exact (loop_ends dirLookup none more).symm
  | case4 i byte more named found => exact (loop_off dirLookup i byte more named found).symm
  | case5 byte more named entry rest found => exact (loop_next dirLookup none byte more entry rest named found).symm
  | case6 byte more named entry rest found ip ih =>
      rw [loop_next dirLookup (some ip) byte more entry rest named found]
      refine bind_congr fun answer => ?_
      cases answer with
      | none => rfl
      | some j => exact ih j

theorem namei_with : namei = nameiWith dirLookup := by
  funext path
  unfold namei nameiWith
  refine bind_congr fun k => ?_
  cases path with
  | nil => rfl
  | cons byte rest => simp only [namei_loop_with]

structure DirTree where
  find : InodeId → List UInt8 → Option InodeId
  plain : ∀ dir name, 47 ∈ name → find dir name = none

def DirTree.resolve (tree : DirTree) (start : InodeId) : List (List UInt8) → Option InodeId
  | [] => some start
  | name :: rest => (tree.find start name).bind fun next => tree.resolve next rest

def components (text : List UInt8) : List (List UInt8) := (text.splitOn 47).filter (· ≠ [])

def pathStart (k : Kernel) (text : List UInt8) : Option InodeId :=
  if text.head? = some 47 then some rootInode else (k.procs k.current).pCwd

def relative (text : List UInt8) : List UInt8 := if text.head? = some 47 then text.tail else text

def pathNode (tree : DirTree) (k : Kernel) (text : List UInt8) : Option InodeId :=
  (pathStart k text).bind fun start => tree.resolve start (components text)

def LooksUp (tree : DirTree) (lookup : InodeId → List UInt8 → Kern (Option InodeId)) : Prop :=
  ∀ ip entry k, ∃ t, (lookup ip entry).run k = .ok (tree.find ip entry) t

def NameiAnswers (lookup : InodeId → List UInt8 → Kern (Option InodeId)) (k : Kernel) (path : List UInt8) :
    Option InodeId → Prop
  | some i => ∃ t, (nameiWith lookup path).run k = .ok i t
  | none => ∃ t, (nameiWith lookup path).run k = .error (.panic "namei: entry not found") t

-- namei answers what the components name, whatever lies after the terminator, and so
-- where nothing does that it could read.
def NameiRight (lookup : InodeId → List UInt8 → Kern (Option InodeId)) (tree : DirTree) (k : Kernel)
    (text : List UInt8) : Prop :=
  ∀ beyond, NameiAnswers lookup k (text ++ 0 :: beyond) (pathNode tree k text)

theorem next_entry_slash (pre post : List UInt8) (plain : 47 ∉ pre) :
    nextEntry (pre ++ 47 :: post) = some (pre ++ [47], post) := by
  induction pre with
  | nil => rfl
  | cons byte rest ih =>
      have other : byte ≠ 47 := fun same => plain (same ▸ List.mem_cons_self)
      rw [List.cons_append, nextEntry, if_neg other, ih fun member => plain (List.mem_cons_of_mem _ member)]
      rfl

theorem next_entry_none (path : List UInt8) (plain : 47 ∉ path) : nextEntry path = none := by
  induction path with
  | nil => rfl
  | cons byte rest ih =>
      have other : byte ≠ 47 := fun same => plain (same ▸ List.mem_cons_self)
      rw [nextEntry, if_neg other, ih fun member => plain (List.mem_cons_of_mem _ member)]
      rfl

section
variable (lookup : InodeId → List UInt8 → Kern (Option InodeId)) (tree : DirTree) (looks : LooksUp tree lookup)

theorem loop_runs_off (start : Option InodeId) (rest : List UInt8) (some : rest ≠ []) (ended : 0 ∉ rest)
    (plain : 47 ∉ rest) : nameiLoopWith lookup start (rest ++ [0]) = fault := by
  cases rest with
  | nil => exact absurd rfl some
  | cons byte more =>
      have first : byte ≠ 0 := fun same => ended (same ▸ List.mem_cons_self)
      exact loop_off lookup start byte (more ++ [0]) first
        (next_entry_none (byte :: more ++ [0]) (by simpa using plain))

theorem loop_slash (start : Option InodeId) (pre post : List UInt8) (ended : 0 ∉ pre) (plain : 47 ∉ pre) :
    nameiLoopWith lookup start (pre ++ 47 :: post) =
      (match start with
      | none => fault
      | some ip => do
          match ← lookup ip (pre ++ [47]) with
          | none => panic "namei: entry not found"
          | some j => nameiLoopWith lookup (some j) (post.drop 1)) := by
  have split := next_entry_slash pre post plain
  cases pre with
  | nil => exact loop_next lookup start 47 post _ _ (by decide) split
  | cons byte rest =>
      have first : byte ≠ 0 := fun same => ended (same ▸ List.mem_cons_self)
      exact loop_next lookup start byte _ _ _ first split

include looks in
-- The slash is part of the entry looked up, and of no name.
theorem loop_misses (start : InodeId) (pre post : List UInt8) (ended : 0 ∉ pre) (plain : 47 ∉ pre) (k : Kernel) :
    ∃ t, (nameiLoopWith lookup (some start) (pre ++ 47 :: post)).run k =
      .error (.panic "namei: entry not found") t := by
  obtain ⟨t, looked⟩ := looks start (pre ++ [47]) k
  rw [tree.plain start _ (by simp)] at looked
  refine ⟨t, ?_⟩
  rw [loop_slash lookup (some start) pre post ended plain]
  simp only [EStateM.run_bind, looked, panic_run]

end

theorem relative_no_nul (text : List UInt8) (ended : 0 ∉ text) : 0 ∉ relative text := by
  rw [relative]
  split
  · exact fun member => ended (List.mem_of_mem_tail member)
  · exact ended

theorem namei_relative (lookup : InodeId → List UInt8 → Kern (Option InodeId)) (k : Kernel) (text beyond : List UInt8) :
    (nameiWith lookup (text ++ 0 :: beyond)).run k =
      (nameiLoopWith lookup (pathStart k text) (relative text ++ 0 :: beyond)).run k := by
  rw [nameiWith, run_get_bind]
  cases text with
  | nil =>
      simp only [List.nil_append]
      rfl
  | cons byte rest =>
      by_cases slash : byte = 47
      · subst slash
        rfl
      · simp [pathStart, relative, slash]

theorem fault_not_answer (lookup : InodeId → List UInt8 → Kern (Option InodeId)) (k : Kernel) (path : List UInt8)
    (answer : Option InodeId) (off : (nameiWith lookup path).run k = .error .fault k) :
    ¬NameiAnswers lookup k path answer := by
  cases answer with
  | none =>
      rintro ⟨t, halted⟩
      rw [off] at halted
      cases halted
  | some i =>
      rintro ⟨t, done⟩
      rw [off] at done
      cases done

theorem components_relative (text : List UInt8) : components text = components (relative text) := by
  rw [relative]
  split
  · rename_i slash
    obtain ⟨rest, rfl⟩ := List.head?_eq_some_iff.mp slash
    simp [components, List.splitOn_cons_eq_if_modifyHead]
  · rfl

theorem namei_right_iff (lookup : InodeId → List UInt8 → Kern (Option InodeId)) (tree : DirTree)
    (looks : LooksUp tree lookup) (k : Kernel) (text : List UInt8) (ended : 0 ∉ text) :
    NameiRight lookup tree k text ↔
      relative text = [] ∨ 47 ∈ relative text ∧ pathStart k text ≠ none ∧ pathNode tree k text = none := by
  rw [NameiRight]
  have stated : ∀ beyond, (nameiWith lookup (text ++ 0 :: beyond)).run k =
      (nameiLoopWith lookup (pathStart k text) (relative text ++ 0 :: beyond)).run k :=
    fun beyond => namei_relative lookup k text beyond
  have stop := relative_no_nul text ended
  have answer : pathNode tree k text = (pathStart k text).bind fun start => tree.resolve start (components (relative text)) := by
    rw [pathNode, components_relative]
  generalize relative text = rest at *
  generalize pathStart k text = start at *
  by_cases blank : rest = []
  · subst blank
    refine iff_of_true (fun beyond => ?_) (.inl rfl)
    rw [answer]
    cases start with
    | none => exact ⟨k, by rw [stated, List.nil_append, loop_ends]; rfl⟩
    | some ip => exact ⟨k, by rw [stated, List.nil_append, loop_ends]; rfl⟩
  · by_cases slash : 47 ∈ rest
    · obtain ⟨pre, post, rfl, plain⟩ := List.eq_append_cons_of_mem slash
      have before : 0 ∉ pre := fun member => stop (List.mem_append_left _ member)
      have path : ∀ beyond, pre ++ 47 :: post ++ 0 :: beyond = pre ++ 47 :: (post ++ 0 :: beyond) :=
        fun beyond => List.append_assoc _ _ _
      cases start with
      | none =>
          have lost : ∀ beyond, (nameiWith lookup (text ++ 0 :: beyond)).run k = .error .fault k := by
            intro beyond
            rw [stated, path, loop_slash lookup none pre _ before plain]
            rfl
          exact iff_of_false (fun right => fault_not_answer lookup k _ _ (lost []) (right []))
            (by rintro (empty | ⟨-, some, -⟩) <;> simp_all)
      | some ip =>
          have missed : ∀ beyond, ∃ t, (nameiWith lookup (text ++ 0 :: beyond)).run k =
              .error (.panic "namei: entry not found") t := by
            intro beyond
            rw [stated, path]
            exact loop_misses lookup tree looks ip pre _ before plain k
          constructor
          · intro right
            have first := right []
            cases found : pathNode tree k text with
            | none => exact .inr ⟨slash, Option.some_ne_none ip, rfl⟩
            | some i =>
                obtain ⟨t, halted⟩ := missed []
                rw [found] at first
                obtain ⟨u, done⟩ := first
                rw [halted] at done
                cases done
          · rintro (empty | ⟨-, -, absent⟩) beyond
            · exact absurd empty blank
            · rw [absent]
              exact missed beyond
    · have off : (nameiWith lookup (text ++ [0])).run k = .error .fault k := by
        rw [stated, loop_runs_off lookup start rest blank stop slash]
        rfl
      exact iff_of_false (fun right => fault_not_answer lookup k _ _ off (right []))
        (fun either => either.elim blank fun inside => slash inside.1)

def etcTree : DirTree where
  find := fun dir name => if dir = rootInode ∧ name = [101, 116, 99] then some 1 else none
  plain := by
    intro dir name slash
    rw [if_neg]
    rintro ⟨-, rfl⟩
    revert slash
    decide

def etcLookup (ip : InodeId) (entry : List UInt8) : Kern (Option InodeId) := pure (etcTree.find ip entry)

theorem namei_reads_past_end :
    ¬∀ (lookup : InodeId → List UInt8 → Kern (Option InodeId)) (tree : DirTree) (k : Kernel) (text : List UInt8),
      LooksUp tree lookup → 0 ∉ text → NameiRight lookup tree k text := by
  intro claim
  have right := claim etcLookup etcTree Kernel.zero [47, 101, 116, 99] (fun _ _ k => ⟨k, rfl⟩) (by decide) []
  refine fault_not_answer etcLookup Kernel.zero _ _ ?_ right
  rw [namei_relative, show relative [47, 101, 116, 99] = [101, 116, 99] from rfl,
    loop_runs_off etcLookup _ _ (List.cons_ne_nil _ _) (by decide) (by decide)]
  rfl

-- The path /etc/rc/x: etc is there, and has no entry rc.
def missingPath : List UInt8 := [47, 101, 116, 99, 47, 114, 99, 47, 120]

theorem missing_path_node : pathNode etcTree Kernel.zero missingPath = none := by
  have split : components missingPath = [[101, 116, 99], [114, 99], [120]] := by decide
  rw [pathNode, split]
  decide

theorem namei_right_missing : NameiRight etcLookup etcTree Kernel.zero missingPath :=
  (namei_right_iff etcLookup etcTree (fun _ _ k => ⟨k, rfl⟩) Kernel.zero missingPath (by decide)).mpr
    (.inr ⟨by decide, by decide, missing_path_node⟩)

end Yaup
