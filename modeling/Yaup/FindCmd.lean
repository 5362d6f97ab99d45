import Yaup.ShellEnv
import Yaup.ShellLines

set_option autoImplicit false

namespace Yaup.Shell

open Lib

def FindRight (host : Host) (cmd : Bytes) (s : State) (dirs : List Bytes) : Prop :=
  ∃ answer, (findCmd host cmd).run s = .ok answer s ∧
    (∀ dir, Leads (HasCmd host cmd) (Lacks host cmd) dirs dir → answer = some (dir ++ 47 :: cmd)) ∧
    (answer = none ↔ ∀ dir ∈ dirs, ¬HasCmd host cmd dir)

def ExecRight (host : Host) (cmd : Bytes) (s : State) (line : Bytes) : Prop :=
  (findCmd host cmd).run s = .ok none s → (after ((runLine host line).run s)).calls = s.calls

section
variable (host : Host) (cmd : Bytes)

-- The first directory with the command is reached over directories that open, the command
-- is no dot, and the two names fit the buffer.
def FindGuard (dirs : List Bytes) : Prop :=
  ∀ dir, Leads (HasCmd host cmd) (Lacks host cmd) dirs dir →
    Leads (HasCmd host cmd) (OpensWithout host cmd) dirs dir ∧ ¬IsDots cmd ∧ dir.length + 1 + cmd.length < buffSz

variable (text : Bytes) (s : State) (seen : s.envpValue path = some text) (short : text.length < buffSz)

include seen short

theorem find_cmd_null (missed : findIn host cmd (pathDirs text) = none) : (findCmd host cmd).run s = .ok none s := by
  rw [find_cmd_run host cmd text s seen, if_neg (Nat.not_le.mpr short), missed]

theorem find_cmd_found (dir : Bytes) (found : findIn host cmd (pathDirs text) = some dir) :
    (findCmd host cmd).run s =
      if dir.length + 1 + cmd.length ≥ buffSz then .error .fault s else .ok (some (dir ++ 47 :: cmd)) s := by
  rw [find_cmd_run host cmd text s seen, if_neg (Nat.not_le.mpr short), found]

theorem find_guard_iff : FindRight host cmd s (pathDirs text) ↔ FindGuard host cmd (pathDirs text) := by
  constructor
  · rintro ⟨answer, done, right, -⟩ dir first
    have file := right dir first
    cases found : findIn host cmd (pathDirs text) with
    | none =>
        rw [find_cmd_null host cmd text s seen short found, file] at done
        cases done
    | some token =>
        obtain ⟨opens, plain⟩ := (find_in_iff host cmd _ token).mp found
        have same := leads_unique _ _ (fun _ lacks => lacks) _ token dir (opens_lacks host cmd _ token opens) first
        rw [find_cmd_found host cmd text s seen short token found] at done
        split at done
        · cases done
        · rename_i fits
          exact same ▸ ⟨opens, plain, Nat.not_le.mp fits⟩
  · intro guard
    cases found : findIn host cmd (pathDirs text) with
    | none =>
        have nowhere : ∀ dir ∈ pathDirs text, ¬HasCmd host cmd dir := by
          intro dir member has
          obtain ⟨first, leads⟩ := leads_exists (HasCmd host cmd) _ dir member has
          obtain ⟨opens, plain, -⟩ := guard first leads
          cases found.symm.trans ((find_in_iff host cmd _ first).mpr ⟨opens, plain⟩)
        refine ⟨none, find_cmd_null host cmd text s seen short found, fun dir first => ?_, by simpa using nowhere⟩
        obtain ⟨member, has⟩ := leads_mem _ _ _ dir first
        exact absurd has (nowhere dir member)
    | some token =>
        obtain ⟨opens, -⟩ := (find_in_iff host cmd _ token).mp found
        have lacks := opens_lacks host cmd _ token opens
        have fits := (guard token lacks).2.2
        refine ⟨some (token ++ 47 :: cmd), ?_, fun dir first => ?_, ?_⟩
        · rw [find_cmd_found host cmd text s seen short token found, if_neg (Nat.not_le.mpr fits)]
        · rw [leads_unique _ _ (fun _ lacks => lacks) _ token dir lacks first]
        · obtain ⟨member, has⟩ := leads_mem _ _ _ token lacks
          exact iff_of_false (Option.some_ne_none _) fun nowhere => nowhere token member has

omit seen short in
theorem null_executed (line : Bytes) (rest : List Bytes) (read : words line = cmd :: rest)
    (few : (words line).length < tokensSz) (unknown : cmd ∉ builtins) (null : (findCmd host cmd).run s = .ok none s) :
    (after ((runLine host line).run s)).calls = s.calls ++ [.exec none rest] := by
  rw [line_external host line cmd rest s few read ((unknown_iff cmd).mpr unknown), EStateM.run_bind, null]
  exact exec_logged none rest _ s

theorem exec_right_iff (line : Bytes) (rest : List Bytes) (read : words line = cmd :: rest)
    (few : (words line).length < tokensSz) (unknown : cmd ∉ builtins) :
    ExecRight host cmd s line ↔
      ∃ dir, Leads (HasCmd host cmd) (OpensWithout host cmd) (pathDirs text) dir ∧ ¬IsDots cmd := by
  constructor
  · intro right
    cases found : findIn host cmd (pathDirs text) with
    | some dir => exact ⟨dir, (find_in_iff host cmd _ dir).mp found⟩
    | none =>
        have null := find_cmd_null host cmd text s seen short found
        have calls := right null
        rw [null_executed host cmd s line rest read few unknown null] at calls
        simp at calls
  · rintro ⟨dir, opens, plain⟩ null
    rw [find_cmd_found host cmd text s seen short dir ((find_in_iff host cmd _ dir).mpr ⟨opens, plain⟩)] at null
    split at null
    · cases null
    · cases null

theorem find_cmd_right_iff :
    (FindRight host cmd s (pathDirs text) ↔ FindGuard host cmd (pathDirs text)) ∧
      ∀ line rest, words line = cmd :: rest → (words line).length < tokensSz → cmd ∉ builtins →
        (ExecRight host cmd s line ↔
          ∃ dir, Leads (HasCmd host cmd) (OpensWithout host cmd) (pathDirs text) dir ∧ ¬IsDots cmd) :=
  ⟨find_guard_iff host cmd text s seen short, exec_right_iff host cmd text s seen short⟩

end

-- /x does not open, /l has two dots only, and /bin has ls and two dots.
def twoDirs : Host :=
  { quietHost with
    readdir := fun dir =>
      if dir = [47, 98, 105, 110] then some [[46], [46, 46], [108, 115]]
      else if dir = [47, 108] then some [[46], [46, 46]]
      else none }

def withPath (text : Bytes) : State := bareEnv.setValue path (some text)

theorem with_path_seen (text : Bytes) : (withPath text).envpValue path = some text := by
  simp [withPath]

theorem bin_leads :
    Leads (HasCmd twoDirs [108, 115]) (OpensWithout twoDirs [108, 115]) [[47, 108], [47, 98, 105, 110]] [47, 98, 105, 110] := by
  refine ⟨[[47, 108]], [], rfl, ⟨_, rfl, by decide⟩, ?_⟩
  rw [List.forall_mem_singleton]
  refine ⟨by decide, ?_⟩
  rintro ⟨names, opened, has⟩
  cases opened
  exact absurd has (by decide)

-- "ls" with the PATH "/l:/bin".
theorem find_cmd_right_bin :
    FindRight twoDirs [108, 115] (withPath [47, 108, 58, 47, 98, 105, 110]) [[47, 108], [47, 98, 105, 110]] ∧
      ExecRight twoDirs [108, 115] (withPath [47, 108, 58, 47, 98, 105, 110]) [108, 115, 10] := by
  obtain ⟨answer, exec⟩ := find_cmd_right_iff twoDirs [108, 115] [47, 108, 58, 47, 98, 105, 110]
    (withPath [47, 108, 58, 47, 98, 105, 110]) (with_path_seen _) (by decide)
  have dirs : pathDirs [47, 108, 58, 47, 98, 105, 110] = [[47, 108], [47, 98, 105, 110]] := by decide
  rw [dirs] at answer exec
  refine ⟨answer.mpr fun dir first => ?_, (exec [108, 115, 10] [] (by decide) (by decide) (by decide)).mpr ?_⟩
  · have lacks := opens_lacks twoDirs [108, 115] _ _ bin_leads
    have same := leads_unique _ _ (fun _ lacks => lacks) _ _ dir lacks first
    subst same
    exact ⟨bin_leads, by unfold IsDots; decide, by decide⟩
  · exact ⟨_, bin_leads, by unfold IsDots; decide⟩

theorem unreadable_dir_hides :
    ¬FindRight twoDirs [108, 115] (withPath [47, 120, 58, 47, 98, 105, 110]) [[47, 120], [47, 98, 105, 110]] := by
  rintro ⟨answer, done, right, -⟩
  have file := right [47, 98, 105, 110] ⟨[[47, 120]], [], rfl, ⟨_, rfl, by decide⟩, by
    rw [List.forall_mem_singleton]
    rintro ⟨names, opened, -⟩
    cases opened⟩
  have dirs : pathDirs [47, 120, 58, 47, 98, 105, 110] = [[47, 120], [47, 98, 105, 110]] := by decide
  have null := find_cmd_null twoDirs [108, 115] [47, 120, 58, 47, 98, 105, 110] _ (with_path_seen _) (by decide)
    (by rw [dirs]; rfl)
  rw [null, file] at done
  cases done

end Yaup.Shell
