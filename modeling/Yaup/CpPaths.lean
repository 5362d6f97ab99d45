import Yaup.Cp

set_option autoImplicit false

namespace Yaup.Busybox

open Lib

theorem parts_slash (front back : Bytes) : parts (front ++ 47 :: back) = parts front ++ parts back := by
  rw [parts, List.splitOn_append_cons_self, List.map_append, parts, parts]

theorem from_prefix (fs : Fs) (front back : Bytes) (some : front ≠ []) : fs.from (front ++ back) = fs.from front := by
  rw [Fs.from, Fs.from, List.head?_append_of_ne_nil front some]

theorem joined_target (fs : Fs) (n m : Name) (dst : Bytes) (q : Place) (given : dst ≠ [])
    (found : fs.target (joined n.val dst) = some (m, q)) (dir : fs.tree.IsDir q) :
    m = n ∧ fs.locate dst = some q := by
  have split : ∀ front : Bytes, parts (front ++ 47 :: n.val) = parts front ++ [.name n] := by
    intro front
    rw [parts_slash, parts_name]
  rw [Fs.locate, if_neg given]
  by_cases slash : dst.getLast? = some 47
  · obtain ⟨front, rfl⟩ := List.getLast?_eq_some_iff.mp slash
    have start : fs.from (front ++ [47] ++ n.val) = fs.from (front ++ [47]) := from_prefix fs _ _ given
    rw [joined, if_pos slash, Fs.target, start, List.append_assoc, List.singleton_append, split, List.getLast?_concat,
      List.dropLast_concat] at found
    obtain ⟨r, walked, same⟩ := Option.map_eq_some_iff.mp found
    cases same
    refine ⟨rfl, ?_⟩
    have here : parts [] = [.here] := by decide
    rw [parts_slash, here, walk_append]
    refine ⟨q, walked, ?_⟩
    rw [Tree.walkTo, if_pos dir, Tree.walkTo, if_pos (dir_has _ _ dir)]
  · have start : fs.from (dst ++ 47 :: n.val) = fs.from dst := from_prefix fs _ _ given
    rw [joined, if_neg slash, Fs.target, start, split, List.getLast?_concat, List.dropLast_concat] at found
    obtain ⟨r, walked, same⟩ := Option.map_eq_some_iff.mp found
    cases same
    exact ⟨rfl, walked⟩

theorem target_locate (fs : Fs) (path : Bytes) (n : Name) (q : Place) (found : fs.target path = some (n, q))
    (has : fs.tree.Has (n :: q)) : fs.locate path = some (n :: q) := by
  rw [Fs.target] at found
  cases last : (parts path).getLast? with
  | none =>
      rw [last] at found
      cases found
  | some part =>
      rw [last] at found
      cases part with
      | here => cases found
      | up => cases found
      | name m =>
          obtain ⟨r, walked, same⟩ := Option.map_eq_some_iff.mp found
          cases same
          obtain ⟨front, whole⟩ := List.getLast?_eq_some_iff.mp last
          have given : path ≠ [] := by
            rintro rfl
            have here : (parts []).getLast? = some .here := by decide
            rw [here] at last
            cases last
          rw [Fs.locate, if_neg given, whole, walk_append]
          rw [whole, List.dropLast_concat] at walked
          refine ⟨q, walked, ?_⟩
          rw [Tree.walkTo, if_pos (parent_dir _ _ _ has), Tree.walkTo, if_pos has]

theorem locate_target (fs : Fs) (path : Bytes) (n : Name) (d : Place) (last : (parts path).getLast? = some (.name n))
    (found : fs.locate path = some d) : ∃ q, fs.target path = some (n, q) ∧ d = n :: q := by
  obtain ⟨front, whole⟩ := List.getLast?_eq_some_iff.mp last
  rw [Fs.locate] at found
  by_cases empty : path = []
  · rw [if_pos empty] at found
    cases found
  · rw [if_neg empty, whole, walk_append] at found
    obtain ⟨q, walked, step⟩ := found
    refine ⟨q, ?_, ?_⟩
    · rw [Fs.target, whole, List.getLast?_concat, List.dropLast_concat, walked]
      rfl
    · rw [Tree.walkTo] at step
      split at step
      · rw [Tree.walkTo] at step
        split at step
        · exact (Option.some.inj step).symm
        · cases step
      · cases step

theorem located_has (fs : Fs) (path : Bytes) (p : Place) (found : fs.locate path = some p) : fs.tree.Has p := by
  rw [Fs.locate] at found
  by_cases empty : path = []
  · rw [if_pos empty] at found
    cases found
  · rw [if_neg empty] at found
    exact walk_end_has _ _ _ _ found

section
variable (fs other : Fs) (same : other.cwd = fs.cwd) (dirs : ∀ p, fs.tree.IsDir p → other.tree.IsDir p)
include same dirs

theorem locate_transfer (path : Bytes) (p : Place) (has : other.tree.Has p) (found : fs.locate path = some p) :
    other.locate path = some p := by
  rw [Fs.locate] at found ⊢
  by_cases empty : path = []
  · rw [if_pos empty] at found
    cases found
  · rw [if_neg empty] at found ⊢
    have start : other.from path = fs.from path := by rw [Fs.from, Fs.from, same]
    rw [start]
    exact walk_transfer _ _ dirs _ _ _ has found

theorem target_transfer (path : Bytes) (n : Name) (q : Place) (has : other.tree.Has q)
    (found : fs.target path = some (n, q)) : other.target path = some (n, q) := by
  rw [Fs.target] at found ⊢
  cases last : (parts path).getLast? with
  | none =>
      rw [last] at found
      cases found
  | some part =>
      rw [last] at found
      cases part with
      | here => cases found
      | up => cases found
      | name m =>
          obtain ⟨r, walked, pair⟩ := Option.map_eq_some_iff.mp found
          cases pair
          have start : other.from path = fs.from path := by rw [Fs.from, Fs.from, same]
          dsimp only
          rw [start, walk_transfer _ _ dirs _ _ _ has walked]
          rfl

end

section
variable (sys : System) (src dst : Bytes) (fs u : Fs)

theorem new_dst_ok (path : Bytes) (done : (newDst src dst).run fs = .ok path u) :
    u = fs ∧ path = joined src dst ∧ dst ≠ [] := by
  rw [newDst] at done
  cases last : dst.getLast? with
  | none =>
      rw [last] at done
      cases done
  | some byte =>
      rw [last] at done
      have given : dst ≠ [] := by
        rintro rfl
        cases last
      have whole : (if byte ≠ 47 then dst ++ 47 :: src else dst ++ src) = joined src dst := by
        by_cases slash : byte = 47
        · rw [if_neg (not_not_intro slash), joined, if_pos (by rw [last, slash])]
        · rw [if_pos slash, joined, if_neg (by rw [last]; exact fun clash => slash (Option.some.inj clash))]
      dsimp only at done
      rw [whole] at done
      split at done
      · cases done
        exact ⟨rfl, rfl, given⟩
      · cases done

theorem file_to_file_ok (done : (fileToFile sys src dst).run fs = .ok () u) :
    ∃ p n q, ∃ dir : fs.tree.IsDir q, ∃ free : ¬fs.tree.IsDir (n :: q),
      fs.locate src = some p ∧ fs.target dst = some (n, q) ∧
        u = { fs with tree :=
          fs.tree.write n q (refill sys (n :: q) (fs.tree.kindAt (n :: q)) (copied sys fs p (n :: q))) dir free } := by
  rw [fileToFile, run_get_bind] at done
  cases located : fs.locate src with
  | none =>
      rw [located] at done
      cases done
  | some p =>
      rw [located] at done
      dsimp only at done
      split at done
      · cases found : fs.target dst with
        | none =>
            rw [found] at done
            cases done
        | some pair =>
            rw [found] at done
            dsimp only at done
            split at done
            · rename_i able
              cases done
              exact ⟨p, pair.1, pair.2, able.1.1, able.1.2, rfl, rfl, rfl⟩
            · cases done
      · cases done

theorem file_to_dir_ok (done : (fileToDir sys src dst).run fs = .ok () u) :
    dst ≠ [] ∧ (fileToFile sys src (joined src dst)).run fs = .ok () u := by
  rw [fileToDir] at done
  obtain ⟨path, v, made, rest⟩ := (run_bind_ok _ _ _ _ _).mp done
  obtain ⟨rfl, rfl, given⟩ := new_dst_ok src dst fs v path made
  exact ⟨given, rest⟩

end

theorem data_has (fs : Fs) (p : Place) (data : Bytes) (here : fs.fileData p = some data) : fs.tree.Has p := by
  rw [has_iff]
  intro none
  rw [Fs.fileData, none] at here
  cases here

theorem regular_node (fs : Fs) (p : Place) (regular : fs.tree.kindAt p = some .reg) :
    ∃ attr, fs.tree.node p = some ⟨.reg, attr⟩ := by
  obtain ⟨⟨kind, attr⟩, here, same⟩ := Option.map_eq_some_iff.mp regular
  cases same
  exact ⟨attr, here⟩

theorem regular_data (fs : Fs) (p : Place) (regular : fs.tree.kindAt p = some .reg) :
    ∃ data, fs.fileData p = some data := by
  obtain ⟨attr, here⟩ := regular_node fs p regular
  refine ⟨attr.data, ?_⟩
  rw [Fs.fileData, here]
  rfl

theorem below_file (fs : Fs) (r p : Place) (kind : Kind) (here : fs.tree.kindAt p = some kind) (file : kind ≠ .dir)
    (regular : fs.tree.kindAt (r ++ p) = some .reg) : r = [] := by
  cases r with
  | nil => rfl
  | cons n r =>
      have has : fs.tree.Has (n :: (r ++ p)) := kind_has _ _ _ regular
      have dir := above_dir fs.tree (r ++ p) p (List.suffix_append r p) (parent_dir fs.tree n _ has)
      rw [Tree.IsDir, here] at dir
      exact absurd (Option.some.inj dir) file

theorem contents_regular (sys : System) (fs : Fs) (p : Place) (regular : fs.tree.kindAt p = some .reg) :
    some (fs.contents sys p) = fs.fileData p := by
  obtain ⟨attr, here⟩ := regular_node fs p regular
  rw [Fs.contents, Fs.fileData, here]
  rfl

theorem copied_regular (sys : System) (fs : Fs) (a d : Place) (regular : fs.tree.kindAt a = some .reg) :
    some (copied sys fs a d) = if a = d then some [] else fs.fileData a := by
  rw [copied]
  by_cases same : a = d
  · rw [if_pos ⟨same, regular⟩, if_pos same]
  · rw [if_neg fun own => same own.1, if_neg same, contents_regular sys fs a regular]

theorem write_data (sys : System) (fs : Fs) (n : Name) (q p : Place) (data : Bytes) (dir : fs.tree.IsDir q)
    (free : ¬fs.tree.IsDir (n :: q)) (kept : fs.tree.kindAt (n :: q) ≠ some .other) :
    ({ fs with tree := fs.tree.write n q (refill sys (n :: q) (fs.tree.kindAt (n :: q)) data) dir free } : Fs).fileData p =
      if p = n :: q then some data else fs.fileData p := by
  rw [Fs.fileData, write_node]
  by_cases same : p = n :: q
  · rw [if_pos same, if_pos same]
    cases there : fs.tree.node (n :: q) with
    | none => rfl
    | some entry =>
        have kind : fs.tree.kindAt (n :: q) = some entry.kind := congrArg (Option.map Node.kind) there
        rw [Tree.IsDir, kind] at free
        rw [kind] at kept ⊢
        have regular : entry.kind = .reg := by
          cases known : entry.kind with
          | dir => exact absurd (congrArg some known) free
          | reg => rfl
          | other => exact absurd (congrArg some known) kept
        have filled : refill sys (n :: q) (some entry.kind) data (some entry.attr) =
            { entry.attr with mode := (sys.written data).mode .reg entry.attr.mode, data := data } := if_neg kept
        change (if entry.kind = .reg then some (refill sys (n :: q) (some entry.kind) data (some entry.attr)).data else none) = _
        rw [if_pos regular, filled]
  · rw [if_neg same, if_neg same, Fs.fileData]

end Yaup.Busybox
