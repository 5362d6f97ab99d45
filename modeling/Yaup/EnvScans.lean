import Mathlib.Data.List.Nodup
import Yaup.Echo
import Yaup.ShellKept

set_option autoImplicit false

namespace Yaup.Shell

open Lib

def State.nameAt (s : State) (i : Nat) : Option (Option Bytes) :=
  if inside : i < maxEnv then some (s.envpName ⟨i, inside⟩) else none

-- The loop of env_unset and of echo, from slot i on: the slots that it hands to strcmp. It
-- ends at the name, and traps at a slot without one.
def compared (s : State) (name : Bytes) (i : Nat) : List Nat :=
  if i < maxEnv then
    if s.nameAt i = some none ∨ s.nameAt i = some (some name) then [i] else i :: compared s name (i + 1)
  else []
termination_by maxEnv - i

def Absent (s : State) (name : Bytes) : Prop := ∀ i, s.envpName i ≠ some name

def ComparesNames (s : State) (name : Bytes) : Prop := ∀ i ∈ compared s name 0, ∃ text, s.nameAt i = some (some text)

inductive EnvCommand where
  | set (host : Host) (words : List Bytes)
  | unset (name : Bytes) (more : List Bytes)
  | list
  | echo (cmd name : Bytes) (more : List Bytes)

def EnvCommand.run : EnvCommand → Sh Unit
  | .set host words => discard (envSet host words)
  | .unset name more => discard (envUnset (name :: more))
  | .list => discard (envList (List.finRange maxEnv))
  | .echo cmd name more => discard (echoPrints (cmd :: (36 :: name) :: more))

def CommandStep (s : State) (act : EnvCommand) (t : State) : Prop := t = after (act.run.run s)

def ScanRight (s : State) : EnvCommand → Prop
  | .unset name more => ComparesNames s name ∧ (Absent s name → (envUnset (name :: more)).run s = .ok einval s)
  | .echo cmd name more =>
      ComparesNames s name ∧ (Absent s name → (echoPrints (cmd :: (36 :: name) :: more)).run s = .ok (0, []) s)
  | _ => True

def NamedFirst (s : State) (name : Bytes) : Prop := ∀ i, s.envpName i = none → ∃ j < i, s.envpName j = some name

def ScanGuard (s : State) : EnvCommand → Prop
  | .unset name _ => NamedFirst s name
  | .echo _ name _ => NamedFirst s name
  | _ => True

theorem name_at_slot (s : State) (i : Fin maxEnv) : s.nameAt i.val = some (s.envpName i) := dif_pos i.isLt

theorem compared_ends (s : State) (name : Bytes) (i : Fin maxEnv) (ends : s.envpName i = none ∨ s.envpName i = some name) :
    compared s name i.val = [i.val] := by
  rw [compared, if_pos i.isLt, name_at_slot, if_pos]
  simpa using ends

theorem compared_goes_on (s : State) (name : Bytes) (i : Fin maxEnv)
    (goes : s.envpName i ≠ none ∧ s.envpName i ≠ some name) :
    compared s name i.val = i.val :: compared s name (i.val + 1) := by
  rw [compared, if_pos i.isLt, name_at_slot, if_neg]
  simpa using goes

theorem compared_iff (s : State) (name : Bytes) (first : Nat) (i : Fin maxEnv) :
    i.val ∈ compared s name first ↔
      first ≤ i.val ∧ ∀ j < i, first ≤ j.val → s.envpName j ≠ none ∧ s.envpName j ≠ some name := by
  by_cases inside : first < maxEnv
  · by_cases ends : s.envpName ⟨first, inside⟩ = none ∨ s.envpName ⟨first, inside⟩ = some name
    · rw [compared_ends s name ⟨first, inside⟩ ends, List.mem_singleton]
      constructor
      · intro same
        refine ⟨same.ge, fun j before from_first => ?_⟩
        exact absurd (Nat.lt_of_lt_of_le before same.le) (Nat.not_lt.mpr from_first)
      · rintro ⟨from_first, open_before⟩
        by_contra later
        have first_open := open_before ⟨first, inside⟩ (Nat.lt_of_le_of_ne from_first (Ne.symm later)) le_rfl
        exact ends.elim first_open.1 first_open.2
    · rw [compared_goes_on s name ⟨first, inside⟩ (not_or.mp ends), List.mem_cons, compared_iff s name (first + 1) i]
      constructor
      · rintro (same | ⟨later, open_before⟩)
        · refine ⟨same.ge, fun j before from_first => ?_⟩
          exact absurd (Nat.lt_of_lt_of_le before same.le) (Nat.not_lt.mpr from_first)
        · refine ⟨by omega, fun j before from_first => ?_⟩
          rcases Nat.lt_or_eq_of_le from_first with next | same
          · exact open_before j before next
          · rw [← Fin.eq_of_val_eq (show (⟨first, inside⟩ : Fin maxEnv).val = j.val from same)]
            exact not_or.mp ends
      · rintro ⟨from_first, open_before⟩
        rcases Nat.lt_or_eq_of_le from_first with later | same
        · exact .inr ⟨later, fun j before next => open_before j before (by omega)⟩
        · exact .inl same.symm
  · rw [compared, if_neg inside]
    refine iff_of_false List.not_mem_nil fun from_first => ?_
    exact inside (Nat.lt_of_le_of_lt from_first.1 i.isLt)
termination_by maxEnv - first

theorem compared_inside (s : State) (name : Bytes) (first n : Nat) (member : n ∈ compared s name first) : n < maxEnv := by
  by_cases inside : first < maxEnv
  · by_cases ends : s.envpName ⟨first, inside⟩ = none ∨ s.envpName ⟨first, inside⟩ = some name
    · rw [compared_ends s name ⟨first, inside⟩ ends, List.mem_singleton] at member
      exact member ▸ inside
    · rw [compared_goes_on s name ⟨first, inside⟩ (not_or.mp ends), List.mem_cons] at member
      rcases member with same | later
      · exact same ▸ inside
      · exact compared_inside s name (first + 1) n later
  · rw [compared, if_neg inside] at member
    cases member
termination_by maxEnv - first

theorem compares_names_iff (s : State) (name : Bytes) : ComparesNames s name ↔ NamedFirst s name := by
  constructor
  · intro compares i hole
    by_contra unnamed
    obtain ⟨n, low, empty, before⟩ : ∃ n ≤ i, s.envpName n = none ∧ ∀ j < n, s.envpName j ≠ none := by
      cases first : Fin.find? fun j => decide (s.envpName j = none) with
      | none => simpa [hole] using Fin.find?_eq_none_iff.mp first i
      | some n =>
          obtain ⟨empty, before⟩ := Fin.find?_eq_some_iff.mp first
          refine ⟨n, ?_, by simpa using empty, fun j early => by simpa using before j early⟩
          by_contra late
          simpa [hole] using before i (Fin.not_le.mp late)
    have reached : n.val ∈ compared s name 0 := by
      refine (compared_iff s name 0 n).mpr ⟨Nat.zero_le _, fun j early _ => ⟨before j early, fun here => ?_⟩⟩
      exact unnamed ⟨j, Fin.lt_of_lt_of_le early low, here⟩
    obtain ⟨text, here⟩ := compares n.val reached
    rw [name_at_slot, empty] at here
    cases here
  · intro named n member
    have inside := compared_inside s name 0 n member
    cases here : s.envpName ⟨n, inside⟩ with
    | some text => exact ⟨text, (name_at_slot s ⟨n, inside⟩).trans (congrArg some here)⟩
    | none =>
        obtain ⟨j, early, there⟩ := named ⟨n, inside⟩ here
        obtain ⟨-, open_before⟩ := (compared_iff s name 0 ⟨n, inside⟩).mp member
        exact absurd there (open_before j early (Nat.zero_le _)).2

theorem env_slot_compared (s : State) (name : Bytes) (i : Fin maxEnv) (stop : envSlot s name = some i) :
    i.val ∈ compared s name 0 := by
  obtain ⟨-, before⟩ := (env_slot_some s name i).mp stop
  exact (compared_iff s name 0 i).mpr ⟨Nat.zero_le _, fun j low _ => before j low⟩

theorem absent_named (s : State) (name : Bytes) (named : NamedFirst s name) (absent : Absent s name) :
    envSlot s name = none := by
  refine (env_slot_none s name).mpr fun i => ⟨fun hole => ?_, absent i⟩
  obtain ⟨j, -, here⟩ := named i hole
  exact absent j here

theorem scan_right_guard (s : State) (act : EnvCommand) : ScanRight s act ↔ ScanGuard s act := by
  cases act with
  | set host words => exact Iff.rfl
  | list => exact Iff.rfl
  | unset name more =>
      rw [ScanRight, compares_names_iff]
      exact and_iff_left_of_imp fun named absent => env_unset_absent name more s (absent_named s name named absent)
  | echo cmd name more =>
      rw [ScanRight, compares_names_iff]
      exact and_iff_left_of_imp fun named absent => echo_prints_absent cmd name more s (absent_named s name named absent)

theorem scans_right_iff (env : Environ) (junk : Fin maxEnv → Option Bytes) (moves : List (Move State EnvCommand)) (last : State)
    (run : Run CommandStep (initEnv env junk) moves last) :
    (∀ move ∈ moves, ScanRight move.before move.act) ↔ ∀ move ∈ moves, ScanGuard move.before move.act := by
  have both := run_right_iff CommandStep ScanGuard (fun _ => True) (fun move => ScanRight move.before move.act)
    (fun before act after _ _ => by rw [true_and]; exact scan_right_guard before act) _ last moves run trivial
  simpa [Throughout] using both

-- env -u PWD and echo $PWD, whose slot comes before every hole.
theorem scans_right_pwd :
    ∃ (moves : List (Move State EnvCommand)) (last : State), moves.length = 2 ∧ Run CommandStep bareEnv moves last ∧
      ∀ move ∈ moves, ScanRight move.before move.act := by
  have run : Run CommandStep bareEnv _ _ :=
    .cons _ _ _ (.unset [80, 87, 68] []) _ rfl (.cons _ _ _ (.echo [101] [80, 87, 68] []) _ rfl (.nil _))
  refine ⟨_, _, rfl, run, (scans_right_iff noStrings (fun _ => none) _ _ run).mpr ?_⟩
  rw [List.forall_mem_cons, List.forall_mem_cons]
  unfold ScanGuard NamedFirst
  refine ⟨by decide, by decide, by simp⟩

-- env -u X on the table of init_env: strcmp is handed the NULL of slot 8.
theorem absent_name_traps :
    ¬∀ (env : Environ) (junk : Fin maxEnv → Option Bytes) (moves : List (Move State EnvCommand)) (last : State),
      Run CommandStep (initEnv env junk) moves last → ∀ move ∈ moves, ScanRight move.before move.act := by
  intro claim
  have run : Run CommandStep bareEnv _ _ := .cons _ _ _ (.unset [88] []) _ rfl (.nil _)
  have right := claim noStrings (fun _ => none) _ _ run _ List.mem_cons_self
  obtain ⟨j, early, here⟩ := (compares_names_iff bareEnv [88]).mp right.1 8 rfl
  revert j
  decide

def envListPrints : List (Fin maxEnv) → Sh (Int × List (Bytes × Bytes))
  | [] => fault
  | i :: rest => do
      let s ← get
      match s.envpName i with
      | none => return (0, [])
      | some name =>
          let text ← value i
          let (status, lines) ← envListPrints rest
          return (status, (name, text) :: lines)

theorem env_list_prints_answer (slots : List (Fin maxEnv)) : envList slots = Prod.fst <$> envListPrints slots := by
  induction slots with
  | nil => rfl
  | cons i rest ih =>
      funext s
      change (envList (i :: rest)).run s = (Prod.fst <$> envListPrints (i :: rest)).run s
      rw [run_map, envList, envListPrints, run_get_bind, run_get_bind]
      cases s.envpName i with
      | none => rfl
      | some name =>
          dsimp only
          rw [if_neg (Option.some_ne_none name), EStateM.run_bind, EStateM.run_bind]
          cases (value i).run s with
          | error e t => rfl
          | ok text t =>
              dsimp only
              rw [ih, run_map, EStateM.run_bind]
              cases (envListPrints rest).run t with
              | ok answer u => rfl
              | error e u => rfl

structure Listed (s : State) (lines : List (Bytes × Bytes)) : Prop where
  once : (lines.map Prod.fst).Nodup
  all : ∀ i name, s.envpName i = some name → name ∈ lines.map Prod.fst
  current : ∀ line ∈ lines, envMap s line.1 = some (some line.2)

def ListRight (s : State) : EnvCommand → Prop
  | .list => ∃ lines, (envListPrints (List.finRange maxEnv)).run s = .ok (0, lines) s ∧ Listed s lines
  | _ => True

-- Slot n is the first without a name; those before it have names of their own, and values,
-- and behind it no name is set that is not also set before it.
structure ListsUpTo (s : State) (n : Fin maxEnv) : Prop where
  hole : s.envpName n = none
  set : ∀ i < n, s.envpName i ≠ none ∧ s.envpValue i ≠ none
  distinct : ∀ i < n, ∀ j < n, s.envpName i = s.envpName j → i = j
  behind : ∀ i > n, s.envpName i ≠ none → ∃ j < n, s.envpName j = s.envpName i

def ListGuard (s : State) : EnvCommand → Prop
  | .list => ∃ n, ListsUpTo s n
  | _ => True

def slotLine (s : State) (i : Fin maxEnv) : Bytes × Bytes := ((s.envpName i).getD [], (s.envpValue i).getD [])

def HasLine (s : State) (i : Fin maxEnv) : Prop :=
  s.envpName i = some (slotLine s i).1 ∧ s.envpValue i = some (slotLine s i).2

theorem has_line_iff (s : State) (i : Fin maxEnv) : HasLine s i ↔ s.envpName i ≠ none ∧ s.envpValue i ≠ none := by
  unfold HasLine slotLine
  cases s.envpName i <;> cases s.envpValue i <;> simp

theorem env_list_hole (i : Fin maxEnv) (rest : List (Fin maxEnv)) (s : State) (hole : s.envpName i = none) :
    (envListPrints (i :: rest)).run s = .ok (0, []) s := by
  rw [envListPrints, run_get_bind, hole]
  rfl

theorem env_list_missing (i : Fin maxEnv) (rest : List (Fin maxEnv)) (s : State) (name : Bytes)
    (named : s.envpName i = some name) (missing : s.envpValue i = none) :
    (envListPrints (i :: rest)).run s = .error (.missing i) s := by
  rw [envListPrints, run_get_bind, named]
  dsimp only
  rw [EStateM.run_bind, value_missing i s missing]

theorem env_list_line (i : Fin maxEnv) (rest : List (Fin maxEnv)) (s : State) (shown : HasLine s i) :
    (envListPrints (i :: rest)).run s =
      match (envListPrints rest).run s with
      | .ok (status, lines) t => .ok (status, slotLine s i :: lines) t
      | .error e t => .error e t := by
  rw [envListPrints, run_get_bind, shown.1]
  dsimp only
  rw [EStateM.run_bind, value_run i s _ shown.2]
  dsimp only
  rw [EStateM.run_bind]
  cases (envListPrints rest).run s with
  | ok answer t => rfl
  | error e t => rfl

theorem env_list_run (slots : List (Fin maxEnv)) (s t : State) (status : Int) (lines : List (Bytes × Bytes)) :
    (envListPrints slots).run s = .ok (status, lines) t ↔
      t = s ∧ status = 0 ∧ ∃ before n behind, slots = before ++ n :: behind ∧ s.envpName n = none ∧
        (∀ i ∈ before, HasLine s i) ∧ lines = before.map (slotLine s) := by
  induction slots generalizing lines with
  | nil => simp [envListPrints, fault]
  | cons i rest ih =>
      by_cases shown : HasLine s i
      · rw [env_list_line i rest s shown]
        constructor
        · intro done
          split at done
          · rename_i status' lines' u ran
            cases done
            obtain ⟨rfl, rfl, before, n, behind, rfl, hole, all, rfl⟩ := (ih lines').mp ran
            exact ⟨rfl, rfl, i :: before, n, behind, rfl, hole, List.forall_mem_cons.mpr ⟨shown, all⟩, rfl⟩
          · cases done
        · rintro ⟨rfl, rfl, before, n, behind, whole, hole, all, rfl⟩
          cases before with
          | nil =>
              cases whole
              cases hole.symm.trans shown.1
          | cons first before =>
              cases whole
              rw [(ih (before.map (slotLine t))).mpr ⟨rfl, rfl, before, n, behind, rfl, hole,
                fun j member => all j (List.mem_cons_of_mem _ member), rfl⟩]
              rfl
      · cases named : s.envpName i with
        | none =>
            rw [env_list_hole i rest s named]
            constructor
            · intro done
              cases done
              exact ⟨rfl, rfl, [], i, rest, rfl, named, by simp, rfl⟩
            · rintro ⟨rfl, rfl, before, n, behind, whole, hole, all, rfl⟩
              cases before with
              | nil => rfl
              | cons first before =>
                  cases whole
                  exact absurd (all i List.mem_cons_self) shown
        | some name =>
            have missing : s.envpValue i = none := by
              by_contra valued
              exact shown ((has_line_iff s i).mpr ⟨by simp [named], valued⟩)
            rw [env_list_missing i rest s name named missing]
            refine iff_of_false (fun done => by cases done) ?_
            rintro ⟨-, -, before, n, behind, whole, hole, all, -⟩
            cases before with
            | nil =>
                cases whole
                cases hole.symm.trans named
            | cons first before =>
                cases whole
                exact shown (all i List.mem_cons_self)

theorem all_slots_split (before behind : List (Fin maxEnv)) (n : Fin maxEnv)
    (whole : List.finRange maxEnv = before ++ n :: behind) :
    before.Nodup ∧ (∀ i, i ∈ before ↔ i < n) := by
  have sorted : (before ++ n :: behind).Pairwise (· < ·) := whole ▸ List.pairwise_lt_finRange maxEnv
  obtain ⟨front, back, apart⟩ := List.pairwise_append.mp sorted
  refine ⟨front.imp fun less => ne_of_lt less, fun i => ⟨fun member => ?_, fun less => ?_⟩⟩
  · exact apart i member n List.mem_cons_self
  · have somewhere : i ∈ before ++ n :: behind := whole ▸ List.mem_finRange i
    rcases List.mem_append.mp somewhere with member | later
    · exact member
    · rcases List.mem_cons.mp later with rfl | member
      · exact absurd less (lt_irrefl _)
      · exact absurd less (lt_asymm ((List.pairwise_cons.mp back).1 i member))

theorem listed_iff (s : State) (before : List (Fin maxEnv)) (n : Fin maxEnv) (hole : s.envpName n = none)
    (fresh : before.Nodup) (early : ∀ i, i ∈ before ↔ i < n) (shown : ∀ i ∈ before, HasLine s i) :
    Listed s (before.map (slotLine s)) ↔ ListsUpTo s n := by
  have named : ∀ i < n, s.envpName i = some (slotLine s i).1 := fun i low => (shown i ((early i).mpr low)).1
  constructor
  · rintro ⟨once, all, -⟩
    rw [List.map_map] at once all
    refine ⟨hole, fun i low => (has_line_iff s i).mp (shown i ((early i).mpr low)), fun i low j lower same => ?_, ?_⟩
    · rw [named i low, named j lower] at same
      exact List.inj_on_of_nodup_map once ((early i).mpr low) ((early j).mpr lower) (Option.some.inj same)
    · intro i high set
      obtain ⟨name, here⟩ := Option.ne_none_iff_exists'.mp set
      obtain ⟨j, member, same⟩ := List.mem_map.mp (all i name here)
      refine ⟨j, (early j).mp member, ?_⟩
      rw [named j ((early j).mp member), here]
      exact congrArg some same
  · rintro ⟨-, set, distinct, behind⟩
    have apart : ∀ i < n, ∀ j < n, (slotLine s i).1 = (slotLine s j).1 → i = j := by
      intro i low j lower same
      refine distinct i low j lower ?_
      rw [named i low, named j lower, same]
    refine ⟨?_, ?_, ?_⟩
    · rw [List.map_map]
      exact fresh.map_on fun i member j other same => apart i ((early i).mp member) j ((early j).mp other) same
    · intro i name here
      have listed : ∀ j < n, s.envpName j = some name → name ∈ (before.map (slotLine s)).map Prod.fst := by
        intro j low there
        rw [List.map_map]
        refine List.mem_map.mpr ⟨j, (early j).mpr low, ?_⟩
        exact Option.some.inj ((named j low).symm.trans there)
      rcases lt_trichotomy i n with low | rfl | high
      · exact listed i low here
      · cases hole.symm.trans here
      · obtain ⟨j, low, same⟩ := behind i high (by simp [here])
        exact listed j low (same.trans here)
    · intro line member
      obtain ⟨i, inside, rfl⟩ := List.mem_map.mp member
      have low := (early i).mp inside
      have first : ∀ j < i, s.envpName j ≠ some (slotLine s i).1 := by
        intro j less there
        have lower := lt_trans less low
        exact absurd (distinct j lower i low (there.trans (named i low).symm)) (ne_of_lt less)
      exact (read_slot_first _ _ _ i (named i low) first).trans (congrArg some (shown i inside).2)

theorem list_right_guard (s : State) (act : EnvCommand) : ListRight s act ↔ ListGuard s act := by
  cases act with
  | set host words => exact Iff.rfl
  | unset name more => exact Iff.rfl
  | echo cmd name more => exact Iff.rfl
  | list =>
      constructor
      · rintro ⟨lines, done, listed⟩
        obtain ⟨-, -, before, n, behind, whole, hole, shown, rfl⟩ := (env_list_run _ s s 0 lines).mp done
        obtain ⟨fresh, early⟩ := all_slots_split before behind n whole
        exact ⟨n, (listed_iff s before n hole fresh early shown).mp listed⟩
      · rintro ⟨n, upTo⟩
        obtain ⟨before, behind, whole⟩ := List.append_of_mem (List.mem_finRange n)
        obtain ⟨fresh, early⟩ := all_slots_split before behind n whole
        have shown : ∀ i ∈ before, HasLine s i := fun i member => (has_line_iff s i).mpr (upTo.set i ((early i).mp member))
        exact ⟨_, (env_list_run _ s s 0 _).mpr ⟨rfl, rfl, before, n, behind, whole, upTo.hole, shown, rfl⟩,
          (listed_iff s before n upTo.hole fresh early shown).mpr upTo⟩

theorem lists_right_iff (env : Environ) (junk : Fin maxEnv → Option Bytes) (moves : List (Move State EnvCommand)) (last : State)
    (run : Run CommandStep (initEnv env junk) moves last) :
    (∀ move ∈ moves, ListRight move.before move.act) ↔ ∀ move ∈ moves, ListGuard move.before move.act := by
  have both := run_right_iff CommandStep ListGuard (fun _ => True) (fun move => ListRight move.before move.act)
    (fun before act after _ _ => by rw [true_and]; exact list_right_guard before act) _ last moves run trivial
  simpa [Throughout] using both

theorem lists_right_fresh :
    ∃ (moves : List (Move State EnvCommand)) (last : State), moves.length = 1 ∧
      Run CommandStep fullEnv moves last ∧
      ∀ move ∈ moves, ListRight move.before move.act := by
  have run : Run CommandStep fullEnv _ _ := .cons _ _ _ .list _ rfl (.nil _)
  refine ⟨_, _, rfl, run, (lists_right_iff emptyStrings (fun _ => none) _ _ run).mpr ?_⟩
  rw [List.forall_mem_cons]
  refine ⟨⟨8, by decide, by decide, by decide, by decide⟩, by simp⟩

-- A and B are set and A is unset: env -l stops at the hole that A left, before B.
theorem list_stops_at_hole :
    ¬∀ (env : Environ) (junk : Fin maxEnv → Option Bytes) (moves : List (Move State EnvCommand)) (last : State),
      Run CommandStep (initEnv env junk) moves last → ∀ move ∈ moves, ListRight move.before move.act := by
  intro claim
  let one := after ((EnvCommand.set quietHost [[65], [120]]).run.run fullEnv)
  let two := after ((EnvCommand.set quietHost [[66], [120]]).run.run one)
  let three := after ((EnvCommand.unset [65] []).run.run two)
  have run : Run CommandStep fullEnv _ _ := .cons fullEnv one _ _ _ rfl (.cons one two _ _ _ rfl
    (.cons two three _ _ _ rfl (.cons three _ _ .list _ rfl (.nil _))))
  have right := claim emptyStrings (fun _ => none) _ _ run
    ⟨three, .list, after (EnvCommand.list.run.run three)⟩ (by simp)
  dsimp only at right
  obtain ⟨n, upTo⟩ := (list_right_guard three .list).mp right
  have hole : three.envpName 8 = none := by decide
  have before : ∀ i < 8, three.envpName i ≠ none := by decide
  have behind : three.envpName 9 ≠ none ∧ ∀ j < 8, three.envpName j ≠ three.envpName 9 := by decide
  rcases lt_trichotomy n 8 with low | same | high
  · exact before n low upTo.hole
  · obtain ⟨j, less, there⟩ := upTo.behind 9 (by rw [same]; decide) behind.1
    exact behind.2 j (same ▸ less) there
  · exact (upTo.set 8 high).1 hole

end Yaup.Shell
