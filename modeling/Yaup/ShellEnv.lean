import Yaup.Lib.Run
import Yaup.Lib.Slots
import Yaup.Shell

set_option autoImplicit false

namespace Yaup.Shell

open Lib

structure EnvName where
  text : Bytes
  short : text.length < nameSz

inductive EnvAct where
  | set (host : Host) (name : EnvName) (first : Bytes) (more : List Bytes)
  | unset (name : EnvName)

def EnvAct.run : EnvAct → Sh Int
  | .set host name first more => envSet host (name.text :: first :: more)
  | .unset name => envUnset [name.text]

-- The table as a finite map: NULL is a value too.
abbrev EnvMap := Bytes → Option (Option Bytes)

def envMap (s : State) : EnvMap := readSlot s.envpName s.envpValue

def EnvAct.apply (act : EnvAct) (status : Int) (map : EnvMap) : EnvMap :=
  if status = 0 then
    match act with
    | .set _ name first more => Function.update map name.text (some (some (valueText (first :: more))))
    | .unset name => Function.update map name.text none
  else map

inductive EnvStep : State × EnvMap → EnvAct → State × EnvMap → Prop where
  | returned (s t : State) (map : EnvMap) (act : EnvAct) (status : Int) (done : act.run.run s = .ok status t) :
      EnvStep (s, map) act (t, act.apply status map)
  | trapped (s t : State) (map : EnvMap) (act : EnvAct) (e : Trap) (halted : act.run.run s = .error e t) :
      EnvStep (s, map) act (t, map)

def refusedNames : List Bytes := initNames.take 6

structure EnvTracks (both : State × EnvMap) : Prop where
  distinct : DistinctKeys both.1.envpName
  tracks : envMap both.1 = both.2
  kept : ∀ i : Fin maxEnv, i.val ≤ 5 → both.1.envpName i = initNames[i.val]?

def OthersFill (s : State) (name : Bytes) : Prop := ∀ i, ∃ other, s.envpName i = some other ∧ other ≠ name

def EnvRight (move : Move (State × EnvMap) EnvAct) : Prop :=
  ∃ status, move.act.run.run move.before.1 = .ok status move.after.1 ∧
    (status = 0 ∨ move.after.1 = move.before.1 ∧
      match move.act with
      | .set _ name _ _ => status = e2big ∧ OthersFill move.before.1 name.text
      | .unset name => status = einval ∧ (move.before.2 name.text = none ∨ name.text ∈ refusedNames))

def NoHoleBefore (s : State) (name : Bytes) : Prop :=
  ∀ i, s.envpName i = some name → ∀ j < i, s.envpName j ≠ none

-- The block of the value is empty where it is used and large enough, no hole comes before
-- the name, and a name that is absent is unset in a full table only.
def EnvGuard (s : State) : EnvAct → Prop
  | .set host name first more =>
      (host.junk ++ valueText (first :: more)).length < valueSz ∧ NoHoleBefore s name.text ∧
        (host.junk = [] ∨ OthersFill s name.text)
  | .unset name =>
      NoHoleBefore s name.text ∧ ((∃ i, s.envpName i = some name.text) ∨ ∀ i, s.envpName i ≠ none)

theorem env_slot_some (s : State) (name : Bytes) (i : Fin maxEnv) :
    envSlot s name = some i ↔
      (s.envpName i = none ∨ s.envpName i = some name) ∧
        ∀ j < i, s.envpName j ≠ none ∧ s.envpName j ≠ some name := by
  simp only [envSlot, Fin.find?_eq_some_iff, decide_eq_true_eq, decide_eq_false_iff_not, not_or, ne_eq]

theorem env_slot_none (s : State) (name : Bytes) :
    envSlot s name = none ↔ ∀ i, s.envpName i ≠ none ∧ s.envpName i ≠ some name := by
  simp only [envSlot, Fin.find?_eq_none_iff, decide_eq_false_iff_not, not_or, ne_eq]

theorem others_fill_iff (s : State) (name : Bytes) : envSlot s name = none ↔ OthersFill s name := by
  rw [env_slot_none]
  refine forall_congr' fun i => ?_
  cases s.envpName i with
  | none => simp
  | some other => simp

theorem hole_guard (s : State) (name : Bytes) (i : Fin maxEnv) (stop : envSlot s name = some i)
    (hole : s.envpName i = none) : NoHoleBefore s name ↔ ∀ j, s.envpName j ≠ some name := by
  obtain ⟨-, before⟩ := (env_slot_some s name i).mp stop
  constructor
  · intro clear j here
    refine clear j here i ?_ hole
    by_contra late
    rcases Nat.lt_or_eq_of_le (Fin.not_lt.mp late) with less | same
    · exact (before j less).2 here
    · rw [Fin.ext same, hole] at here
      cases here
  · exact fun absent j here => absurd here (absent j)

theorem found_guard (s : State) (name : Bytes) (i : Fin maxEnv) (distinct : DistinctKeys s.envpName)
    (stop : envSlot s name = some i) (here : s.envpName i = some name) : NoHoleBefore s name := by
  intro j there k before
  rw [distinct j i name there here] at before
  exact (((env_slot_some s name i).mp stop).2 k before).1

theorem env_set_long (host : Host) (name first : Bytes) (more : List Bytes) (s : State)
    (long : valueSz ≤ (host.junk ++ valueText (first :: more)).length) :
    (envSet host (name :: first :: more)).run s = .error .fault s := by
  simp only [envSet, ge_iff_le, if_pos long]
  rfl

theorem env_set_full (host : Host) (name first : Bytes) (more : List Bytes) (s : State)
    (room : (host.junk ++ valueText (first :: more)).length < valueSz) (full : envSlot s name = none) :
    (envSet host (name :: first :: more)).run s = .ok e2big s := by
  simp only [envSet, ge_iff_le, if_neg (Nat.not_le.mpr room)]
  rw [run_get_bind, full]
  rfl

theorem env_set_hole (host : Host) (name first : Bytes) (more : List Bytes) (s : State) (i : Fin maxEnv)
    (room : (host.junk ++ valueText (first :: more)).length < valueSz) (stop : envSlot s name = some i)
    (hole : s.envpName i = none) :
    (envSet host (name :: first :: more)).run s =
      .ok 0 ((s.setName i (some (nameText host name))).setValue i (some (host.junk ++ valueText (first :: more)))) := by
  simp only [envSet, ge_iff_le, if_neg (Nat.not_le.mpr room)]
  rw [run_get_bind, stop]
  simp only [if_pos hole]
  rfl

theorem env_set_found (host : Host) (name first : Bytes) (more : List Bytes) (s : State) (i : Fin maxEnv)
    (room : (host.junk ++ valueText (first :: more)).length < valueSz) (stop : envSlot s name = some i)
    (here : s.envpName i = some name) :
    (envSet host (name :: first :: more)).run s =
      .ok 0 (s.setValue i (some (host.junk ++ valueText (first :: more)))) := by
  simp only [envSet, ge_iff_le, if_neg (Nat.not_le.mpr room)]
  rw [run_get_bind, stop]
  simp only [here, reduceCtorEq, if_false]
  rfl

theorem env_unset_absent (name : Bytes) (more : List Bytes) (s : State) (full : envSlot s name = none) :
    (envUnset (name :: more)).run s = .ok einval s := by
  rw [envUnset, run_get_bind, full]
  rfl

theorem env_unset_hole (name : Bytes) (more : List Bytes) (s : State) (i : Fin maxEnv) (stop : envSlot s name = some i)
    (hole : s.envpName i = none) : (envUnset (name :: more)).run s = .error .fault s := by
  rw [envUnset, run_get_bind, stop]
  simp only [if_pos hole]
  rfl

theorem env_unset_refused (name : Bytes) (more : List Bytes) (s : State) (i : Fin maxEnv)
    (stop : envSlot s name = some i) (here : s.envpName i = some name) (low : i.val ≤ 5) :
    (envUnset (name :: more)).run s = .ok einval s := by
  rw [envUnset, run_get_bind, stop]
  simp only [here, reduceCtorEq, if_false, if_pos low]
  rfl

theorem env_unset_found (name : Bytes) (more : List Bytes) (s : State) (i : Fin maxEnv)
    (stop : envSlot s name = some i) (here : s.envpName i = some name) (high : ¬i.val ≤ 5) :
    (envUnset (name :: more)).run s = .ok 0 ((s.setName i none).setValue i none) := by
  rw [envUnset, run_get_bind, stop]
  simp only [here, reduceCtorEq, if_false, if_neg high]
  rfl

theorem step_returned (s t : State) (map : EnvMap) (act : EnvAct) (status : Int) (both : State × EnvMap)
    (done : act.run.run s = .ok status t) (step : EnvStep (s, map) act both) : both = (t, act.apply status map) := by
  cases step with
  | returned _ _ _ _ _ ran =>
      cases done.symm.trans ran
      rfl
  | trapped _ _ _ _ _ halted => cases done.symm.trans halted

theorem trapped_wrong (s t : State) (map : EnvMap) (act : EnvAct) (e : Trap) (both : State × EnvMap)
    (halted : act.run.run s = .error e t) : ¬EnvRight ⟨(s, map), act, both⟩ := by
  rintro ⟨status, done, -⟩
  cases halted.symm.trans done

theorem name_text_short (host : Host) (name : EnvName) : nameText host name.text = name.text := if_pos name.short

theorem append_same (junk text : Bytes) : junk ++ text = text ↔ junk = [] := List.append_left_eq_self

theorem store_tracks_iff (s : State) (map : EnvMap) (host : Host) (name : EnvName) (first : Bytes) (more : List Bytes)
    (i : Fin maxEnv) (t : State) (tracks : EnvTracks (s, map)) (free : s.envpName i = none ∨ s.envpName i = some name.text)
    (stored : t = (s.setName i (some name.text)).setValue i (some (host.junk ++ valueText (first :: more)))) :
    EnvTracks (t, (EnvAct.set host name first more).apply 0 map) ↔
      host.junk = [] ∧ ∀ j, j ≠ i → s.envpName j ≠ some name.text := by
  have names : t.envpName = Function.update s.envpName i (some name.text) := by rw [stored]; rfl
  have values : t.envpValue = Function.update s.envpValue i (some (host.junk ++ valueText (first :: more))) := by
    rw [stored, State.setValue_value, State.setName_value]
  have kept : ∀ j : Fin maxEnv, j.val ≤ 5 → t.envpName j = initNames[j.val]? := by
    intro j low
    rw [names, ← tracks.kept j low]
    by_cases same : j = i
    · subst same
      rw [Function.update_self]
      rcases free with empty | here
      · have some_name : initNames[j.val]? ≠ none := by
          rw [ne_eq, List.getElem?_eq_none_iff, Nat.not_le]
          exact Nat.lt_of_le_of_lt low (by decide)
        exact absurd ((tracks.kept j low).symm.trans empty) some_name
      · exact here.symm
    · rw [Function.update_of_ne same]
  have target : (EnvAct.set host name first more).apply 0 map =
      Function.update map name.text (some (some (valueText (first :: more)))) := if_pos rfl
  have put : (∀ j, j ≠ i → s.envpName j ≠ some name.text) → envMap t =
      Function.update map name.text (some (some (host.junk ++ valueText (first :: more)))) := by
    intro alone
    have whole : readSlot s.envpName s.envpValue = map := tracks.tracks
    rw [envMap, names, values, read_put s.envpName s.envpValue name.text _ i tracks.distinct alone, whole]
    · intro other here
      rcases free with empty | named
      · rw [empty] at here
        cases here
      · exact Option.some.inj (here.symm.trans named)
  constructor
  · rintro ⟨distinct, same, -⟩
    have alone : ∀ j, j ≠ i → s.envpName j ≠ some name.text := by
      intro j other here
      refine other (distinct j i name.text ?_ ?_)
      · change t.envpName j = _
        rw [names, Function.update_of_ne other]
        exact here
      · change t.envpName i = _
        rw [names, Function.update_self]
    refine ⟨?_, alone⟩
    have value := congrFun ((put alone).symm.trans (same.trans target)) name.text
    rw [Function.update_self, Function.update_self] at value
    exact (append_same _ _).mp (Option.some.inj (Option.some.inj value))
  · rintro ⟨empty, alone⟩
    refine ⟨?_, ?_, kept⟩
    · change DistinctKeys t.envpName
      rw [names]
      exact distinct_put s.envpName name.text i tracks.distinct alone
    · change envMap t = _
      rw [put alone, target, empty, List.nil_append]

theorem set_exact (s : State) (map : EnvMap) (host : Host) (name : EnvName) (first : Bytes) (more : List Bytes)
    (both : State × EnvMap) (tracks : EnvTracks (s, map)) (step : EnvStep (s, map) (.set host name first more) both) :
    (EnvTracks both ∧ EnvRight ⟨(s, map), .set host name first more, both⟩) ↔ EnvGuard s (.set host name first more) := by
  by_cases room : (host.junk ++ valueText (first :: more)).length < valueSz
  · rcases Option.eq_none_or_eq_some (envSlot s name.text) with full | ⟨i, stop⟩
    · have fill := (others_fill_iff s name.text).mp full
      have done := env_set_full host name.text first more s room full
      rw [step_returned s s map (.set host name first more) e2big both done step]
      refine iff_of_true ⟨tracks, e2big, done, .inr ⟨rfl, rfl, fill⟩⟩ ⟨room, fun i here => ?_, .inr fill⟩
      exact absurd here ((env_slot_none s name.text).mp full i).2
    · have unfilled : ¬OthersFill s name.text := by
        rw [← others_fill_iff, stop]
        exact Option.some_ne_none i
      have fit : EnvGuard s (.set host name first more) ↔ NoHoleBefore s name.text ∧ host.junk = [] := by
        rw [EnvGuard, and_iff_right room, or_iff_left unfilled]
      rw [fit]
      rcases ((env_slot_some s name.text i).mp stop).1 with hole | here
      · have done := env_set_hole host name.text first more s i room stop hole
        rw [name_text_short] at done
        rw [step_returned s _ map (.set host name first more) 0 both done step]
        rw [and_iff_left ⟨0, done, .inl rfl⟩, store_tracks_iff s map host name first more i _ tracks (.inl hole) rfl,
          hole_guard s name.text i stop hole, and_comm]
        refine and_congr_left fun _ => ⟨fun alone j there => ?_, fun absent j _ => absent j⟩
        by_cases same : j = i
        · rw [same, hole] at there
          cases there
        · exact alone j same there
      · have done := env_set_found host name.text first more s i room stop here
        have whole : s.setName i (some name.text) = s := by
          rw [State.setName, ← here, Function.update_eq_self]
        have alone : ∀ j, j ≠ i → s.envpName j ≠ some name.text := fun j other there =>
          other (tracks.distinct j i name.text there here)
        rw [step_returned s _ map (.set host name first more) 0 both done step]
        rw [and_iff_left ⟨0, done, .inl rfl⟩, store_tracks_iff s map host name first more i _ tracks (.inr here) (by rw [whole]),
          and_iff_left alone, and_iff_right (found_guard s name.text i tracks.distinct stop here)]
  · have halted := env_set_long host name.text first more s (Nat.not_lt.mp room)
    exact iff_of_false (fun good => trapped_wrong s s map (.set host name first more) _ both halted good.2)
      fun guard => room guard.1

theorem clear_tracks (s : State) (map : EnvMap) (name : Bytes) (i : Fin maxEnv) (tracks : EnvTracks (s, map))
    (here : s.envpName i = some name) (high : ¬i.val ≤ 5) :
    EnvTracks ((s.setName i none).setValue i none, Function.update map name none) where
  distinct := distinct_clear s.envpName i tracks.distinct
  tracks := by
    have whole : readSlot s.envpName s.envpValue = map := tracks.tracks
    change readSlot (Function.update s.envpName i none) ((s.setName i none).setValue i none).envpValue = _
    rw [State.setValue_value, State.setName_value, read_clear s.envpName s.envpValue name none i tracks.distinct here, whole]
  kept := by
    intro j low
    have other : j ≠ i := by
      rintro rfl
      exact high low
    change Function.update s.envpName i none j = _
    rw [Function.update_of_ne other]
    exact tracks.kept j low

theorem low_name_refused (s : State) (map : EnvMap) (name : Bytes) (i : Fin maxEnv) (tracks : EnvTracks (s, map))
    (here : s.envpName i = some name) (low : i.val ≤ 5) : name ∈ refusedNames := by
  have kept : some name = initNames[i.val]? := here.symm.trans (tracks.kept i low)
  refine List.mem_of_getElem? (i := i.val) ?_
  rw [refusedNames, List.getElem?_take_of_lt (by omega)]
  exact kept.symm

theorem unset_exact (s : State) (map : EnvMap) (name : EnvName) (both : State × EnvMap) (tracks : EnvTracks (s, map))
    (step : EnvStep (s, map) (.unset name) both) :
    (EnvTracks both ∧ EnvRight ⟨(s, map), .unset name, both⟩) ↔ EnvGuard s (.unset name) := by
  rcases Option.eq_none_or_eq_some (envSlot s name.text) with absent | ⟨i, stop⟩
  · have others := (env_slot_none s name.text).mp absent
    have done := env_unset_absent name.text [] s absent
    have whole : envMap s = map := tracks.tracks
    have unknown : map name.text = none := by
      rw [← whole]
      exact (read_slot_none _ _ _).mpr fun i => (others i).2
    rw [step_returned s s map (.unset name) einval both done step]
    refine iff_of_true ⟨tracks, einval, done, .inr ⟨rfl, rfl, .inl unknown⟩⟩ ⟨fun i here => ?_, .inr fun i => (others i).1⟩
    exact absurd here (others i).2
  · rcases ((env_slot_some s name.text i).mp stop).1 with hole | here
    · have halted := env_unset_hole name.text [] s i stop hole
      refine iff_of_false (fun good => trapped_wrong s s map (.unset name) _ both halted good.2) ?_
      rintro ⟨clear, ⟨j, there⟩ | full⟩
      · exact (hole_guard s name.text i stop hole).mp clear j there
      · exact full i hole
    · have guard : EnvGuard s (.unset name) := ⟨found_guard s name.text i tracks.distinct stop here, .inl ⟨i, here⟩⟩
      by_cases low : i.val ≤ 5
      · have done := env_unset_refused name.text [] s i stop here low
        have refused := low_name_refused s map name.text i tracks here low
        rw [step_returned s s map (.unset name) einval both done step]
        exact iff_of_true ⟨tracks, einval, done, .inr ⟨rfl, rfl, .inr refused⟩⟩ guard
      · have done := env_unset_found name.text [] s i stop here low
        rw [step_returned s _ map (.unset name) 0 both done step]
        exact iff_of_true ⟨clear_tracks s map name.text i tracks here low, 0, done, .inl rfl⟩ guard

theorem init_names_distinct : ∀ i j : Fin maxEnv, ∀ name, initNames[i.val]? = some name → initNames[j.val]? = some name → i = j := by
  have all : ∀ i j : Fin maxEnv, ∀ name ∈ initNames[i.val]?, initNames[j.val]? = some name → i = j := by decide
  exact fun i j name first second => all i j name first second

theorem init_env_tracks (env : Environ) (junk : Fin maxEnv → Option Bytes) :
    EnvTracks (initEnv env junk, envMap (initEnv env junk)) where
  distinct := init_names_distinct
  tracks := rfl
  kept := fun _ _ => rfl

theorem env_map_iff (env : Environ) (junk : Fin maxEnv → Option Bytes) (moves : List (Move (State × EnvMap) EnvAct))
    (last : State × EnvMap) (run : Run EnvStep (initEnv env junk, envMap (initEnv env junk)) moves last) :
    (Throughout EnvTracks moves last ∧ ∀ move ∈ moves, EnvRight move) ↔
      ∀ move ∈ moves, EnvGuard move.before.1 move.act := by
  refine run_right_iff EnvStep (fun both act => EnvGuard both.1 act) EnvTracks EnvRight ?_ _ last moves run
    (init_env_tracks env junk)
  rintro ⟨s, map⟩ act both tracks step
  cases act with
  | set host name first more => exact set_exact s map host name first more both tracks step
  | unset name => exact unset_exact s map name both tracks step

def letter (byte : UInt8) : EnvName := ⟨[byte], by simp [nameSz]⟩

def withVariable (s : State) (i : Fin maxEnv) (byte : UInt8) : State :=
  (s.setName i (some [byte])).setValue i (some (valueText [[120]]))

def setsX (byte : UInt8) : EnvAct := .set quietHost (letter byte) [120] []

theorem sets_x_step (s : State) (map : EnvMap) (i : Fin maxEnv) (byte : UInt8) (stop : envSlot s [byte] = some i)
    (hole : s.envpName i = none) :
    EnvStep (s, map) (setsX byte) (withVariable s i byte, (setsX byte).apply 0 map) :=
  .returned s _ map (setsX byte) 0 (env_set_hole quietHost [byte] [120] [] s i (by decide) stop hole)

theorem env_map_set_unset :
    ∃ (moves : List (Move (State × EnvMap) EnvAct)) (last : State × EnvMap), moves.length = 2 ∧
      Run EnvStep (bareEnv, envMap bareEnv) moves last ∧ Throughout EnvTracks moves last ∧
      ∀ move ∈ moves, EnvRight move := by
  let kept := withVariable bareEnv 8 65
  have stored := sets_x_step bareEnv (envMap bareEnv) 8 65 ((env_slot_some _ _ _).mpr (by decide)) rfl
  have cleared : EnvStep (kept, (setsX 65).apply 0 (envMap bareEnv)) (.unset (letter 65)) _ :=
    .returned kept _ _ (.unset (letter 65)) 0
      (env_unset_found [65] [] kept 8 ((env_slot_some _ _ _).mpr (by decide)) rfl (by decide))
  have run := Run.cons _ _ _ _ _ stored (.cons _ _ _ _ _ cleared (.nil _))
  obtain ⟨along, right⟩ := (env_map_iff noStrings (fun _ => none) _ _ run).mpr (by
    rw [List.forall_mem_cons, List.forall_mem_cons]
    refine ⟨⟨by decide, ?_, .inl rfl⟩, ⟨?_, .inl ⟨8, rfl⟩⟩, by simp⟩
    · unfold NoHoleBefore
      decide
    · unfold NoHoleBefore
      decide)
  exact ⟨_, _, rfl, run, along, right⟩

-- A and B are set, A is unset, and B is set again: into the hole that A left.
theorem hole_takes_name :
    ¬∀ (env : Environ) (junk : Fin maxEnv → Option Bytes) (moves : List (Move (State × EnvMap) EnvAct)) (last : State × EnvMap),
      Run EnvStep (initEnv env junk, envMap (initEnv env junk)) moves last →
        Throughout EnvTracks moves last ∧ ∀ move ∈ moves, EnvRight move := by
  intro claim
  let one := withVariable bareEnv 8 65
  let two := withVariable one 9 66
  let three := (two.setName 8 none).setValue 8 none
  have first := sets_x_step bareEnv (envMap bareEnv) 8 65 ((env_slot_some _ _ _).mpr (by decide)) rfl
  have second := sets_x_step one ((setsX 65).apply 0 (envMap bareEnv)) 9 66 ((env_slot_some _ _ _).mpr (by decide)) rfl
  obtain ⟨map, third⟩ : ∃ map, EnvStep (two, (setsX 66).apply 0 ((setsX 65).apply 0 (envMap bareEnv)))
      (.unset (letter 65)) (three, map) :=
    ⟨_, .returned two three _ (.unset (letter 65)) 0
      (env_unset_found [65] [] two 8 ((env_slot_some _ _ _).mpr (by decide)) rfl (by decide))⟩
  have fourth := sets_x_step three map 8 66 ((env_slot_some _ _ _).mpr (by decide)) rfl
  have run := Run.cons _ _ _ _ _ first (.cons _ _ _ _ _ second (.cons _ _ _ _ _ third (.cons _ _ _ _ _ fourth (.nil _))))
  have distinct := (claim _ _ _ _ run).1.2.distinct
  have same : (8 : Fin maxEnv) = 9 := distinct 8 9 [66] rfl rfl
  revert same
  decide

end Yaup.Shell
