import Mathlib.Data.List.Perm.Basic
import Yaup.Lib.Cells
import Yaup.Lib.Text

set_option autoImplicit false

namespace Yaup.Busybox

open Lib

-- A struct dirent *: NULL, one that readdir returned, or what malloc finds in its block.
inductive DirentPtr where
  | null
  | dirent (name : Bytes)
  | wild

def tableSz : Nat := 512

-- The loop of alpha_sort over readdir, from entries[i] on.
def alphaFill (entries : List DirentPtr) (i : Nat) : List Bytes → Except Undefined (List DirentPtr)
  | [] => putCell entries i .null
  | d :: dp => do
      let entries ← putCell entries i (.dirent d)
      alphaFill entries (i + 1) dp

def alphaSort (junk : Nat → DirentPtr) (dp : List Bytes) : Except Undefined (List DirentPtr) :=
  alphaFill (resize junk [] tableSz) 0 dp

-- How a printing loop stops: at its own test, or with a read through a pointer to no dirent
-- or behind the table.
inductive LsStop where
  | ended
  | noDirent
  | outside
deriving DecidableEq

-- while (strcmp((*entries)->d_name, "") != 0), with the names that it prints.
def oneLoop : List DirentPtr → List Bytes × LsStop
  | [] => ([], .outside)
  | .dirent name :: entries =>
      if name = [] then ([], .ended)
      else
        let later := oneLoop entries
        (name :: later.1, later.2)
  | _ :: _ => ([], .noDirent)

-- while (entries != NULL); a pointer into the table is never NULL.
def manyLoop : List DirentPtr → List Bytes × LsStop
  | [] => ([], .outside)
  | .dirent name :: entries =>
      let later := manyLoop entries
      (name :: later.1, later.2)
  | _ :: _ => ([], .noDirent)

structure Listing where
  names : List Bytes
  named : ∀ name ∈ names, name ≠ []

def LsRight (loop : List DirentPtr → List Bytes × LsStop) (junk : Nat → DirentPtr) (dp : Listing) : Prop :=
  ∃ entries printed, alphaSort junk dp.names = .ok entries ∧ loop entries = (printed, .ended) ∧ printed.Perm dp.names

-- By induction on the names that are left, with `front` stored.
theorem alpha_fill_fits (front old behind : List DirentPtr) (last : DirentPtr) (dp : List Bytes) (length : old.length = dp.length) :
    alphaFill (front ++ old ++ last :: behind) front.length dp = .ok (front ++ dp.map .dirent ++ .null :: behind) := by
  induction dp generalizing front old with
  | nil =>
      have empty : old = [] := List.length_eq_zero_iff.mp length
      subst empty
      rw [List.append_nil, alphaFill, put_cell_front, List.map_nil, List.append_nil]
  | cons d dp ih =>
      obtain ⟨stale, old, rfl⟩ := List.exists_cons_of_length_eq_add_one length
      have deeper := ih (front ++ [.dirent d]) old (by simpa using length)
      rw [List.append_assoc, List.cons_append, alphaFill, put_cell_front]
      simpa [bind, Except.bind] using deeper

theorem alpha_fill_outside (front old : List DirentPtr) (dp : List Bytes) (long : old.length ≤ dp.length) :
    alphaFill (front ++ old) front.length dp = .error .outside := by
  induction old generalizing front dp with
  | nil =>
      have full : ∀ entry, putCell (front ++ []) front.length entry = .error .outside := fun entry =>
        put_cell_outside _ _ _ (by simp)
      cases dp with
      | nil => exact full _
      | cons d dp =>
          rw [alphaFill, full]
          rfl
  | cons stale old ih =>
      obtain ⟨d, dp, rfl⟩ := List.exists_cons_of_length_pos (Nat.lt_of_lt_of_le (Nat.succ_pos _) long)
      have deeper := ih (front ++ [.dirent d]) dp (by simpa using long)
      rw [alphaFill, put_cell_front]
      simpa [bind, Except.bind] using deeper

theorem alpha_fill_from_start (entries : List DirentPtr) (dp : List Bytes) (short : dp.length < entries.length) :
    ∃ behind, alphaFill entries 0 dp = .ok (dp.map .dirent ++ .null :: behind) := by
  have parts : entries = entries.take dp.length ++ entries[dp.length] :: entries.drop (dp.length + 1) := by simp
  have filled := alpha_fill_fits [] (entries.take dp.length) (entries.drop (dp.length + 1)) entries[dp.length] dp
    (List.length_take_of_le (Nat.le_of_lt short))
  rw [List.nil_append, List.nil_append, ← parts] at filled
  exact ⟨_, filled⟩

theorem alpha_fill_iff (entries : List DirentPtr) (dp : List Bytes) :
    (∃ filled, alphaFill entries 0 dp = .ok filled) ↔ dp.length < entries.length := by
  constructor
  · rintro ⟨filled, done⟩
    by_contra long
    have outside : alphaFill entries 0 dp = .error .outside := alpha_fill_outside [] entries dp (Nat.not_lt.mp long)
    rw [outside] at done
    cases done
  · intro short
    obtain ⟨behind, done⟩ := alpha_fill_from_start entries dp short
    exact ⟨_, done⟩

theorem alpha_sort_iff (junk : Nat → DirentPtr) (dp : List Bytes) :
    (∃ entries, alphaSort junk dp = .ok entries) ↔ dp.length < tableSz := by
  have filled := alpha_fill_iff (resize junk [] tableSz) dp
  rwa [resize_length] at filled

theorem one_loop_runs_into_null (dp : List Bytes) (behind : List DirentPtr) (named : ∀ name ∈ dp, name ≠ []) :
    oneLoop (dp.map .dirent ++ .null :: behind) = (dp, .noDirent) := by
  induction dp with
  | nil => rfl
  | cons name dp ih =>
      have deeper := ih fun other member => named other (List.mem_cons_of_mem _ member)
      rw [List.map_cons, List.cons_append, oneLoop, if_neg (named name List.mem_cons_self), deeper]

theorem many_loop_runs_into_null (dp : List Bytes) (behind : List DirentPtr) :
    manyLoop (dp.map .dirent ++ .null :: behind) = (dp, .noDirent) := by
  induction dp with
  | nil => rfl
  | cons name dp ih => rw [List.map_cons, List.cons_append, manyLoop, ih]

theorem ls_wrong (loop : List DirentPtr → List Bytes × LsStop) (junk : Nat → DirentPtr) (dp : Listing)
    (runs_into_null : ∀ behind, loop (dp.names.map .dirent ++ .null :: behind) = (dp.names, .noDirent)) :
    ¬LsRight loop junk dp := by
  rintro ⟨entries, printed, sorted, ended, -⟩
  have short := (alpha_sort_iff junk dp.names).mp ⟨entries, sorted⟩
  obtain ⟨behind, filled⟩ := alpha_fill_from_start (resize junk [] tableSz) dp.names (by rwa [resize_length])
  rw [alphaSort, filled] at sorted
  cases sorted
  rw [runs_into_null behind] at ended
  cases ended

theorem ls_never (junk : Nat → DirentPtr) (dp : Listing) :
    ¬LsRight oneLoop junk dp ∧ ¬LsRight manyLoop junk dp ∧
      ((∃ entries, alphaSort junk dp.names = .ok entries) ↔ dp.names.length < tableSz) :=
  ⟨ls_wrong oneLoop junk dp fun behind => one_loop_runs_into_null dp.names behind dp.named,
    ls_wrong manyLoop junk dp fun behind => many_loop_runs_into_null dp.names behind, alpha_sort_iff junk dp.names⟩

def emptyDir : Listing := ⟨[[46], [46, 46]], by simp⟩

theorem ls_empty_dir : ¬LsRight oneLoop (fun _ => .wild) emptyDir :=
  ls_wrong oneLoop _ emptyDir fun behind => one_loop_runs_into_null _ behind emptyDir.named

end Yaup.Busybox
