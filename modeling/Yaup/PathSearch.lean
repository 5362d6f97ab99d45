import Yaup.Lib.Scan
import Yaup.Shell

set_option autoImplicit false

namespace Yaup.Shell

open Lib

def pathDirs (text : Bytes) : List Bytes := (text.splitOnP fun byte => byte = 58).filter fun dir => dir ≠ []

def HasCmd (host : Host) (cmd dir : Bytes) : Prop := ∃ names, host.readdir dir = some names ∧ cmd ∈ names

def Lacks (host : Host) (cmd dir : Bytes) : Prop := ¬HasCmd host cmd dir

def OpensWithout (host : Host) (cmd dir : Bytes) : Prop := host.readdir dir ≠ none ∧ Lacks host cmd dir

def IsDots (cmd : Bytes) : Prop := cmd = [46, 46] ∨ cmd = [46]

theorem path_dirs_tokens (text : Bytes) : tokens (fun byte => byte = 58) text = pathDirs text :=
  tokens_runs (fun byte => byte = 58) text

section
variable (host : Host) (cmd : Bytes)

theorem has_cmd_iff (dir : Bytes) : HasCmd host cmd dir ↔ cmd ∈ (host.readdir dir).getD [] := by
  cases read : host.readdir dir with
  | none => simp [HasCmd, read]
  | some names => simp [HasCmd, read]

instance : DecidablePred (HasCmd host cmd) := fun dir =>
  decidable_of_iff (((host.readdir dir).getD []).contains cmd = true)
    (List.contains_iff_mem.trans (has_cmd_iff host cmd dir).symm)

theorem opens_lacks (dirs : List Bytes) (dir : Bytes) (opens : Leads (HasCmd host cmd) (OpensWithout host cmd) dirs dir) :
    Leads (HasCmd host cmd) (Lacks host cmd) dirs dir :=
  leads_weaken _ _ _ (fun _ both => both.2) dirs dir opens

theorem find_in_iff (dirs : List Bytes) (dir : Bytes) :
    findIn host cmd dirs = some dir ↔ Leads (HasCmd host cmd) (OpensWithout host cmd) dirs dir ∧ ¬IsDots cmd := by
  induction dirs with
  | nil => exact iff_of_false (by simp [findIn]) fun found => leads_nil _ _ _ found.1
  | cons head rest ih =>
      rw [findIn, leads_cons]
      cases read : host.readdir head with
      | none =>
          have lacks : ¬HasCmd host cmd head := by
            rintro ⟨names, opened, -⟩
            cases read.symm.trans opened
          refine iff_of_false (by simp) ?_
          rintro ⟨⟨has, -⟩ | ⟨⟨opens, -⟩, -⟩, -⟩
          · exact lacks has
          · exact opens read
      | some names =>
          have has_iff : HasCmd host cmd head ↔ cmd ∈ names := by
            rw [has_cmd_iff, read]
            rfl
          have opens : OpensWithout host cmd head ↔ cmd ∉ names := by
            rw [OpensWithout, Lacks, has_iff, read]
            exact and_iff_right (Option.some_ne_none names)
          rw [has_iff, opens]
          dsimp only
          by_cases member : cmd ∈ names
          · by_cases dots : IsDots cmd
            · rw [if_neg fun hit => not_or.mpr hit.2 dots, ih]
              simp [dots]
            · rw [if_pos ⟨member, not_or.mp dots⟩]
              simp [member, dots, eq_comm]
          · rw [if_neg fun hit => member hit.1, ih]
            simp [member]

theorem find_cmd_run (text : Bytes) (s : State) (seen : s.envpValue path = some text) :
    (findCmd host cmd).run s =
      if text.length ≥ buffSz then .error .fault s
      else match findIn host cmd (pathDirs text) with
        | none => .ok none s
        | some token =>
            if token.length + 1 + cmd.length ≥ buffSz then .error .fault s
            else .ok (some (token ++ 47 :: cmd)) s := by
  rw [findCmd, EStateM.run_bind, value_run path s text seen]
  dsimp only
  rw [path_dirs_tokens]
  by_cases long : text.length ≥ buffSz
  · simp only [if_pos long]
    rfl
  · simp only [if_neg long]
    cases findIn host cmd (pathDirs text) with
    | none => rfl
    | some token =>
        by_cases full : token.length + 1 + cmd.length ≥ buffSz
        · simp only [if_pos full]
          rfl
        · simp only [if_neg full]
          rfl

def Locates (s : State) : Prop :=
  ∃ text, s.envpValue path = some text ∧ text.length < buffSz ∧
    ∀ token, findIn host cmd (pathDirs text) = some token → token.length + 1 + cmd.length < buffSz

def answered (s : State) : Option Bytes :=
  (s.envpValue path).bind fun text => (findIn host cmd (pathDirs text)).map fun token => token ++ 47 :: cmd

theorem find_cmd_answers (s : State) (locates : Locates host cmd s) :
    (findCmd host cmd).run s = .ok (answered host cmd s) s := by
  obtain ⟨text, seen, short, room⟩ := locates
  rw [find_cmd_run host cmd text s seen, if_neg (by omega), answered, seen, Option.bind_some]
  cases found : findIn host cmd (pathDirs text) with
  | none => rfl
  | some token =>
      have fits := room token found
      dsimp only
      rw [if_neg (by omega)]
      rfl

theorem find_cmd_stops (s : State) (lost : ¬Locates host cmd s) : ∃ e, (findCmd host cmd).run s = .error e s := by
  cases seen : s.envpValue path with
  | none =>
      rw [findCmd, EStateM.run_bind, value_missing path s seen]
      exact ⟨_, rfl⟩
  | some text =>
      rw [find_cmd_run host cmd text s seen]
      by_cases long : text.length ≥ buffSz
      · rw [if_pos long]
        exact ⟨_, rfl⟩
      · rw [if_neg long]
        by_contra goes
        refine lost ⟨text, seen, by omega, fun token found => ?_⟩
        by_contra full
        rw [found] at goes
        dsimp only at goes
        rw [if_pos (by omega)] at goes
        exact goes ⟨_, rfl⟩

-- The file that a word stands for: in the first directory of the path that has it, whatever
-- the directories before it are, or the word itself where none has it.
def program (s : State) : Bytes :=
  ((s.envpValue path).bind fun text =>
    ((pathDirs text).find? fun dir => decide (HasCmd host cmd dir)).map fun dir => dir ++ 47 :: cmd).getD cmd

def Finds (s : State) : Prop :=
  ∃ text dir, s.envpValue path = some text ∧ text.length < buffSz ∧
    Leads (HasCmd host cmd) (OpensWithout host cmd) (pathDirs text) dir ∧ ¬IsDots cmd ∧
    dir.length + 1 + cmd.length < buffSz

theorem program_first (s : State) (text dir : Bytes) (seen : s.envpValue path = some text)
    (first : Leads (HasCmd host cmd) (Lacks host cmd) (pathDirs text) dir) : program host cmd s = dir ++ 47 :: cmd := by
  rw [program, seen, Option.bind_some, (leads_find (HasCmd host cmd) (pathDirs text) dir).mpr first]
  rfl

theorem find_cmd_finds (s : State) (finds : Finds host cmd s) :
    (findCmd host cmd).run s = .ok (some (program host cmd s)) s := by
  obtain ⟨text, dir, seen, short, first, plain, fits⟩ := finds
  have found := (find_in_iff host cmd (pathDirs text) dir).mpr ⟨first, plain⟩
  rw [find_cmd_run host cmd text s seen, if_neg (by omega), found,
    program_first host cmd s text dir seen (opens_lacks host cmd _ dir first)]
  dsimp only
  rw [if_neg (by omega)]

theorem find_cmd_misses (s : State) (lost : ¬Finds host cmd s) :
    (findCmd host cmd).run s = .ok none s ∨ ∃ e, (findCmd host cmd).run s = .error e s := by
  by_cases locates : Locates host cmd s
  · rw [find_cmd_answers host cmd s locates]
    obtain ⟨text, seen, short, room⟩ := locates
    rw [answered, seen, Option.bind_some]
    cases found : findIn host cmd (pathDirs text) with
    | none => exact .inl rfl
    | some dir =>
        obtain ⟨first, plain⟩ := (find_in_iff host cmd (pathDirs text) dir).mp found
        exact absurd ⟨text, dir, seen, short, first, plain, room dir found⟩ lost
  · exact .inr (find_cmd_stops host cmd s locates)

end

end Yaup.Shell
