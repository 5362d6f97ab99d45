import Mathlib.Data.List.Perm.Basic
import Yaup.Shell

set_option autoImplicit false

namespace Yaup.Shell

open Lib

-- Stream k is the one that the fopen of argv[k] gave. `closed` is what fclose was called
-- with so far, and `freed` whether the table of the streams has been given back.
structure Streams where
  stdin : Bytes
  stdout : Bytes
  received : Nat → Bytes
  closed : List Nat
  freed : Bool

abbrev TeeM (α : Type) := EStateM Trap Streams α

def fputc (c : UInt8) : Option Nat → TeeM Unit
  | none => throw .fault
  | some k => modify fun s => { s with received := Function.update s.received k (s.received k ++ [c]) }

def fclose : Option Nat → TeeM Unit
  | none => throw .fault
  | some k => modify fun s => { s with closed := s.closed ++ [k] }

def count : List Bytes → Nat
  | [] => 0
  | _ :: files => count files + 1

-- while (i >= 0) fclose(outs[i--]);
def closeDown (outs : Nat → Option Nat) : Nat → TeeM Unit
  | 0 => fclose (outs 0)
  | i + 1 => do
      fclose (outs (i + 1))
      closeDown outs i

def freeOuts : TeeM Unit := modify fun s => { s with freed := true }

-- The loop that opens the files from argv[i] on, with the errno of one that does not open.
def openOuts (fopen : Nat → Bytes → Option Int) :
    List Bytes → Nat → (Nat → Option Nat) → TeeM ((Nat → Option Nat) ⊕ Int)
  | [], _, outs => return .inl outs
  | file :: files, i, outs =>
      match fopen i file with
      | none => openOuts fopen files (i + 1) (Function.update outs i (some i))
      | some errno => do
          closeDown (Function.update outs i none) i
          freeOuts
          return .inr errno

def putOuts (outs : Nat → Option Nat) (c : UInt8) : Nat → Nat → TeeM Unit
  | 0, _ => return ()
  | left + 1, i => do
      fputc c (outs i)
      putOuts outs c left (i + 1)

def closeOuts (outs : Nat → Option Nat) : Nat → Nat → TeeM Unit
  | 0, _ => return ()
  | left + 1, i => do
      fclose (outs i)
      closeOuts outs left (i + 1)

def copyInput (outs : Nat → Option Nat) (nfiles : Nat) : Bytes → TeeM Unit
  | [] => return ()
  | c :: rest => do
      modify fun s => { s with stdin := rest, stdout := s.stdout ++ [c] }
      putOuts outs c nfiles 0
      copyInput outs nfiles rest

-- yash_tee; `fopen i file` is the errno where the i-th file does not open, and `junk` what
-- malloc finds in the table.
def tee (fopen : Nat → Bytes → Option Int) (junk : Nat → Option Nat) (argv : List Bytes) : TeeM Int := do
  let files := argv.tail
  let nfiles := count files
  match ← openOuts fopen files 0 junk with
  | .inr errno => return errno
  | .inl outs => do
      let s ← get
      copyInput outs nfiles s.stdin
      closeOuts outs nfiles 0
      freeOuts
      return 0

def Streams.start (stdin : Bytes) : Streams := ⟨stdin, [], fun _ => [], [], false⟩

def firstFailure (fopen : Nat → Bytes → Option Int) : List Bytes → Nat → Option (Nat × Int)
  | [], _ => none
  | file :: files, i =>
      match fopen i file with
      | none => firstFailure fopen files (i + 1)
      | some errno => some (i, errno)

def TeeEnds (fopen : Nat → Bytes → Option Int) (files : List Bytes) (stdin : Bytes) (status : Int) (t : Streams) : Prop :=
  t.freed = true ∧
    match firstFailure fopen files 0 with
    | some (k, errno) =>
        status = errno ∧ t.closed.Perm (List.range k) ∧ t.stdin = stdin ∧ t.stdout = [] ∧ ∀ j, t.received j = []
    | none =>
        status = 0 ∧ t.closed.Perm (List.range files.length) ∧ t.stdin = [] ∧ t.stdout = stdin ∧
          ∀ j < files.length, t.received j = stdin

def TeeRight (fopen : Nat → Bytes → Option Int) (junk : Nat → Option Nat) (cmd : Bytes) (files : List Bytes)
    (stdin : Bytes) : Prop :=
  ∃ status t, (tee fopen junk (cmd :: files)).run (Streams.start stdin) = .ok status t ∧ TeeEnds fopen files stdin status t

theorem count_length (files : List Bytes) : count files = files.length := by
  induction files with
  | nil => rfl
  | cons file files ih => exact congrArg (· + 1) ih

-- A file that does not open is a NULL, and the first that is closed.
theorem close_down_null (outs : Nat → Option Nat) (i : Nat) (s : Streams) (null : outs i = none) :
    (closeDown outs i).run s = .error .fault s := by
  cases i with
  | zero =>
      rw [closeDown, null]
      rfl
  | succ i =>
      rw [closeDown, EStateM.run_bind, null]
      rfl

theorem open_outs_fails (fopen : Nat → Bytes → Option Int) (files : List Bytes) (i : Nat) (outs : Nat → Option Nat)
    (s : Streams) (fails : firstFailure fopen files i ≠ none) : (openOuts fopen files i outs).run s = .error .fault s := by
  induction files generalizing i outs with
  | nil => exact absurd rfl fails
  | cons file files ih =>
      rw [openOuts]
      rw [firstFailure] at fails
      cases opened : fopen i file with
      | none =>
          rw [opened] at fails
          exact ih (i + 1) _ fails
      | some errno =>
          dsimp only
          rw [EStateM.run_bind, close_down_null _ i s (Function.update_self _ _ _)]

def opened (outs : Nat → Option Nat) (i n : Nat) : Nat → Option Nat :=
  fun j => if i ≤ j ∧ j < i + n then some j else outs j

theorem open_outs_run (fopen : Nat → Bytes → Option Int) (files : List Bytes) (i : Nat) (outs : Nat → Option Nat)
    (s : Streams) (opens : firstFailure fopen files i = none) :
    (openOuts fopen files i outs).run s = .ok (.inl (opened outs i files.length)) s := by
  induction files generalizing i outs with
  | nil =>
      have same : opened outs i 0 = outs := by
        funext j
        exact if_neg (by omega)
      rw [openOuts, List.length_nil, same]
      rfl
  | cons file files ih =>
      rw [firstFailure] at opens
      cases here : fopen i file with
      | some errno =>
          rw [here] at opens
          cases opens
      | none =>
          rw [here] at opens
          have same : opened (Function.update outs i (some i)) (i + 1) files.length = opened outs i (files.length + 1) := by
            funext j
            unfold opened
            by_cases own : j = i
            · subst own
              rw [if_neg (by omega), if_pos (by omega), Function.update_self]
            · rw [Function.update_of_ne own]
              exact if_congr (by omega) rfl rfl
          rw [openOuts, here]
          dsimp only
          rw [ih (i + 1) _ opens, same]
          rfl

section
variable (outs : Nat → Option Nat) (n : Nat) (open_all : ∀ j < n, outs j = some j)

include open_all

theorem put_outs_run (c : UInt8) (left i : Nat) (s : Streams) (inside : i + left = n) :
    (putOuts outs c left i).run s =
      .ok () { s with received := fun j => if i ≤ j ∧ j < n then s.received j ++ [c] else s.received j } := by
  induction left generalizing i s with
  | zero =>
      have same : (fun j => if i ≤ j ∧ j < n then s.received j ++ [c] else s.received j) = s.received := by
        funext j
        exact if_neg (by omega)
      rw [same]
      rfl
  | succ left ih =>
      have put : (fputc c (some i)).run s =
          .ok () { s with received := Function.update s.received i (s.received i ++ [c]) } := rfl
      rw [putOuts, EStateM.run_bind, open_all i (by omega), put]
      dsimp only
      rw [ih (i + 1) _ (by omega)]
      congr 2
      funext j
      dsimp only
      by_cases own : j = i
      · subst own
        rw [if_neg (by omega), if_pos (by omega), Function.update_self]
      · rw [Function.update_of_ne own]
        exact if_congr (by omega) rfl rfl

theorem copy_input_run (input : Bytes) (s : Streams) (unread : s.stdin = input) :
    (copyInput outs n input).run s =
      .ok () { s with
        stdin := []
        stdout := s.stdout ++ input
        received := fun j => if j < n then s.received j ++ input else s.received j } := by
  induction input generalizing s with
  | nil =>
      have same : { s with stdin := ([] : Bytes) } = s := by rw [← unread]
      simp only [List.append_nil, ite_self]
      exact congrArg (EStateM.Result.ok ()) same.symm
  | cons c rest ih =>
      have taken : (modify fun s => { s with stdin := rest, stdout := s.stdout ++ [c] } : TeeM Unit).run s =
          .ok () { s with stdin := rest, stdout := s.stdout ++ [c] } := rfl
      rw [copyInput, EStateM.run_bind, taken]
      dsimp only
      rw [EStateM.run_bind, put_outs_run outs n open_all c n 0 _ (Nat.zero_add n)]
      dsimp only
      rw [ih _ rfl]
      simp only [List.append_assoc, List.singleton_append, Nat.zero_le, true_and]
      congr 2
      funext j
      by_cases low : j < n
      · simp [low]
      · simp [low]

theorem close_outs_run (left i : Nat) (s : Streams) (inside : i + left = n) :
    (closeOuts outs left i).run s = .ok () { s with closed := s.closed ++ List.range' i left } := by
  induction left generalizing i s with
  | zero =>
      rw [List.range'_zero, List.append_nil]
      rfl
  | succ left ih =>
      have closed : (fclose (some i)).run s = .ok () { s with closed := s.closed ++ [i] } := rfl
      rw [closeOuts, EStateM.run_bind, open_all i (by omega), closed]
      dsimp only
      rw [ih (i + 1) _ (by omega), List.range'_succ, List.append_assoc]
      rfl

end

section
variable (fopen : Nat → Bytes → Option Int) (junk : Nat → Option Nat) (cmd : Bytes) (files : List Bytes) (stdin : Bytes)

theorem tee_fails (fails : firstFailure fopen files 0 ≠ none) :
    (tee fopen junk (cmd :: files)).run (Streams.start stdin) = .error .fault (Streams.start stdin) := by
  simp only [tee, List.tail_cons, EStateM.run_bind, open_outs_fails fopen files 0 junk _ fails]

theorem tee_copies (opens : firstFailure fopen files 0 = none) :
    (tee fopen junk (cmd :: files)).run (Streams.start stdin) =
      .ok 0 ⟨[], stdin, fun j => if j < files.length then stdin else [], List.range files.length, true⟩ := by
  have open_all : ∀ j < files.length, opened junk 0 files.length j = some j := by
    intro j low
    exact if_pos ⟨Nat.zero_le j, by omega⟩
  have copied := copy_input_run (opened junk 0 files.length) files.length open_all stdin (Streams.start stdin) rfl
  have closed := fun s => close_outs_run (opened junk 0 files.length) files.length open_all files.length 0 s (Nat.zero_add _)
  simp only [tee, List.tail_cons, count_length, EStateM.run_bind, open_outs_run fopen files 0 junk _ opens, EStateM.run_get]
  rw [show (Streams.start stdin).stdin = stdin from rfl, copied]
  simp only [closed, Streams.start, List.nil_append, List.range_eq_range']
  rfl

theorem first_failure_none (i : Nat) :
    firstFailure fopen files i = none ↔ ∀ k file, files[k]? = some file → fopen (i + k) file = none := by
  induction files generalizing i with
  | nil => simp [firstFailure]
  | cons file files ih =>
      rw [firstFailure]
      cases here : fopen i file with
      | some errno =>
          refine iff_of_false (by simp) fun all => ?_
          cases here.symm.trans (all 0 file rfl)
      | none =>
          dsimp only
          rw [ih (i + 1)]
          constructor
          · intro later k other at_k
            cases k with
            | zero =>
                cases at_k
                exact here
            | succ k =>
                rw [← Nat.add_assoc, Nat.add_right_comm]
                exact later k other at_k
          · intro all k other at_k
            rw [Nat.add_right_comm, Nat.add_assoc]
            exact all (k + 1) other at_k

theorem tee_right_iff : TeeRight fopen junk cmd files stdin ↔ ∀ k file, files[k]? = some file → fopen k file = none := by
  have all := first_failure_none fopen files 0
  simp only [Nat.zero_add] at all
  rw [← all]
  constructor
  · rintro ⟨status, t, done, -⟩
    by_contra fails
    rw [tee_fails fopen junk cmd files stdin fails] at done
    cases done
  · intro opens
    refine ⟨0, _, tee_copies fopen junk cmd files stdin opens, rfl, ?_⟩
    rw [opens]
    exact ⟨rfl, .refl _, rfl, rfl, fun j low => if_pos low⟩

end

theorem tee_closes_null : ¬TeeRight (fun _ _ => some 13) (fun _ => none) [116] [[97]] [] := by
  rintro ⟨status, t, done, -⟩
  rw [tee_fails (fun _ _ => some 13) (fun _ => none) [116] [[97]] [] (by decide)] at done
  cases done

end Yaup.Shell
