import Yaup.CpWalks

set_option autoImplicit false

namespace Yaup.Busybox

open Lib

section
variable (sys : System) (junk : Kind) (fuel : Nat) (argv : List Bytes) (k t : Fs)

theorem cp_main_ok (code : Int) (done : (cpMain sys junk fuel argv).run k = .ok code t) :
    (argv.length = 3 ∧ (fileToFile sys (argv.getD 1 []) (lastOf argv)).run k = .ok () t) ∨
      (argv.length ≠ 3 ∧
        ∃ st, (copyOperands sys fuel (dashed argv) (lastOf argv) (operands argv) st).run k = .ok () t) := by
  rw [cpMain] at done
  by_cases few : argv.length < 3
  · simp only [if_pos few] at done
    cases done
  · simp only [if_neg few] at done
    by_cases odd : dashed argv = true ∧ ¬recursive argv = true
    · simp only [if_pos odd] at done
      cases done
    · simp only [if_neg odd] at done
      by_cases three : argv.length = 3
      · simp only [if_pos three] at done
        obtain ⟨_, u, copied, ended⟩ := (run_bind_ok _ _ _ _ _).mp done
        cases ended
        exact .inl ⟨three, copied⟩
      · simp only [if_neg three] at done
        rw [run_get_bind] at done
        split at done
        · cases done
        · obtain ⟨_, u, copied, ended⟩ := (run_bind_ok _ _ _ _ _).mp done
          cases ended
          exact .inr ⟨three, _, copied⟩

theorem holding_right (lands : ∀ src ∈ operands argv, AllLand k argv src)
    (holding : Holding k argv (fun d => ∃ src ∈ operands argv, CopiesOf k argv src d) t) : CpRight k t argv := by
  intro src s p file
  obtain ⟨d, land⟩ := lands src file.operand s p file
  have data : t.fileData d = k.fileData (p ++ s) :=
    holding.arrived d ⟨src, file.operand, s, p, file, land⟩ _ ⟨src, s, p, file, rfl, land⟩
  have dirs : ∀ q, k.tree.IsDir q → (t.at k.cwd).tree.IsDir q := fun q => (holding.carried.dirs q).mpr
  refine ⟨holding.carried.sources src s p file, ?_⟩
  by_cases top : p = []
  · rw [Lands, if_pos top] at land
    obtain ⟨n, q, target, rfl⟩ := land
    obtain ⟨bytes, some⟩ := regular_data k (p ++ s) file.regular
    have has : t.tree.Has (n :: q) := data_has t _ bytes (data.trans some)
    have after := target_transfer k (t.at k.cwd) rfl dirs _ n q (dir_has _ _ (parent_dir _ _ _ has)) target
    refine ⟨n :: q, target_locate (t.at k.cwd) _ n q after has, ?_⟩
    rw [← data, top]
    rfl
  · rw [Lands, if_neg top] at land
    obtain ⟨q, located, rfl⟩ := land
    have has := carried_has k argv t q holding.carried (located_has k _ q located)
    exact ⟨q, locate_transfer k (t.at k.cwd) rfl dirs _ q has located, data⟩

theorem pair_operand (three : argv.length = 3) (src : Bytes) (member : src ∈ operands argv) : src = argv.getD 1 [] := by
  rw [operands, if_pos three] at member
  exact List.mem_singleton.mp member

section
variable (three : argv.length = 3) (s : Place) (located : k.locate (argv.getD 1 []) = some s)
  (regular : k.tree.kindAt s = some .reg)

include three in
theorem pair_path (src : Bytes) : copyPath argv src = lastOf argv := if_pos three

include three in
theorem pair_member : argv.getD 1 [] ∈ operands argv := by
  rw [operands, if_pos three]
  exact List.mem_singleton_self _

include three located regular

theorem pair_alone (src : Bytes) (t p : Place) (file : SourceFile k argv src t p) : src = argv.getD 1 [] ∧ t = s ∧ p = [] := by
  have same := pair_operand argv three src file.operand
  have place := file.located
  rw [same, located] at place
  cases place
  exact ⟨same, rfl, below_file k p s .reg regular nofun file.regular⟩

theorem pair_source : SourceFile k argv (argv.getD 1 []) s [] := ⟨pair_member argv three, located, regular⟩

theorem pair_copies_iff (a d : Place) :
    Copies k argv a d ↔ a = s ∧ ∃ n q, k.target (lastOf argv) = some (n, q) ∧ d = n :: q := by
  constructor
  · rintro ⟨src, t, p, file, rfl, land⟩
    obtain ⟨-, rfl, rfl⟩ := pair_alone argv k three s located regular src t p file
    rw [Lands, if_pos rfl, pair_path argv three] at land
    exact ⟨rfl, land⟩
  · rintro ⟨rfl, land⟩
    refine ⟨_, a, [], pair_source argv k three a located regular, rfl, ?_⟩
    rw [Lands, if_pos rfl, pair_path argv three]
    exact land

theorem pair_copied (safe : CpSafe sys k argv)
    (done : (fileToFile sys (argv.getD 1 []) (lastOf argv)).run k = .ok () t) :
    (∀ src ∈ operands argv, AllLand k argv src) ∧
      Holding k argv (fun d => ∃ src ∈ operands argv, CopiesOf k argv src d) t := by
  have copies := pair_copies_iff argv k three s located regular
  have source := pair_source argv k three s located regular
  obtain ⟨-, n, q, target, -, holding⟩ := copy_holds k argv sys safe k t (fun _ => False) _ _ (lastOf argv) s []
    ⟨carried_start k argv, fun _ never => never.elim⟩ source located
    (fun n q target _ => (copies s (n :: q)).mpr ⟨rfl, n, q, target, rfl⟩) done
  refine ⟨fun src _ r p file => ?_, holding_weaken k argv _ _ _ (fun d there => ?_) holding⟩
  · obtain ⟨rfl, rfl, rfl⟩ := pair_alone argv k three s located regular src r p file
    refine ⟨n :: q, ?_⟩
    rw [Lands, if_pos rfl, pair_path argv three]
    exact ⟨n, q, target, rfl⟩
  · obtain ⟨src, -, r, p, file, land⟩ := there
    obtain ⟨-, m, o, other, rfl⟩ := (copies (p ++ r) d).mp ⟨src, r, p, file, rfl, land⟩
    cases target.symm.trans other
    exact .inr rfl

end

theorem cp_safe_holding (safe : CpSafe sys k argv) (usable : Usable k argv) (code : Int)
    (done : (cpMain sys junk fuel argv).run k = .ok code t) :
    (∀ src ∈ operands argv, AllLand k argv src) ∧
      Holding k argv (fun d => ∃ src ∈ operands argv, CopiesOf k argv src d) t := by
  rcases cp_main_ok sys junk fuel argv k t code done with ⟨three, copied⟩ | ⟨many, st, copied⟩
  · obtain ⟨s, located, regular | ⟨many, -⟩⟩ := usable _ (pair_member argv three)
    · exact pair_copied sys argv k t three s located regular safe copied
    · exact absurd three many
  · have kinds : ∀ src ∈ operands argv, ∃ s, k.locate src = some s ∧ (k.tree.kindAt s = some .reg ∨ k.tree.IsDir s) := by
      intro src member
      obtain ⟨s, located, kind⟩ := usable src member
      exact ⟨s, located, kind.imp_right And.right⟩
    obtain ⟨lands, holding⟩ := operands_copied k argv sys safe many fuel (dashed argv) (operands argv) st k t (fun _ => False)
      (fun _ member => member) kinds safe.later (fun _ _ => ⟨rfl, rfl⟩)
      ⟨carried_start k argv, fun _ never => never.elim⟩ copied
    exact ⟨lands, holding_weaken k argv _ _ _ (fun d there => .inr there) holding⟩

end

section
variable (sys : System) (k : Fs)

end

section
variable (sys : System) (junk : Kind) (fuel : Nat) (argv : List Bytes) (fs t : Fs)
  (done : (cpMain sys junk fuel argv).run fs = .ok 0 t)
include done

end

def nameB : Name := ⟨[98], by decide⟩

def letterNode (p : Place) : Option (Node Stat) :=
  if p = [] ∨ p = [nameA] ∨ p = [nameB] then some ⟨.dir, ⟨493, 0, 0, []⟩⟩
  else if p = [nameF, nameA] then some ⟨.reg, ⟨420, 0, 0, [120]⟩⟩
  else none

theorem letter_places (p : Place) (has : letterNode p ≠ none) :
    p = [] ∨ p = [nameA] ∨ p = [nameB] ∨ p = [nameF, nameA] := by
  by_contra other
  simp only [not_or] at other
  refine has ?_
  rw [letterNode, if_neg (by tauto), if_neg (by tauto)]

def letters : Tree Name Stat where
  node := letterNode
  names := fun _ => [nameA, nameB, nameF]
  depth := 2
  root := rfl
  parent := by
    intro n p has
    rcases letter_places (n :: p) has with place | place | place | place
    · cases place
    · cases place
      decide
    · cases place
      decide
    · cases place
      decide
  listed := by
    intro n p has
    rcases letter_places (n :: p) has with place | place | place | place
    · cases place
    · cases place
      decide
    · cases place
      decide
    · cases place
      decide
  nodup := fun _ => by decide
  shallow := by
    intro p has
    rcases letter_places p has with rfl | rfl | rfl | rfl
    · decide
    · decide
    · decide
    · decide

theorem letters_regular (p : Place) : letters.kindAt p = some .reg ↔ p = [nameF, nameA] := by
  constructor
  · intro regular
    have has : letterNode p ≠ none := by
      intro missing
      have gone : letters.node p = none := missing
      rw [Tree.kindAt, gone] at regular
      cases regular
    rcases letter_places p has with rfl | rfl | rfl | rfl
    · exact absurd regular (by decide)
    · exact absurd regular (by decide)
    · exact absurd regular (by decide)
    · rfl
  · rintro rfl
    decide

theorem letters_operand (src : Bytes) (member : src ∈ operands [[99, 112], [45, 114], [46], [47, 98]]) : src = [46] :=
  List.mem_singleton.mp member

theorem letters_located (src : Bytes) (s : Place) (member : src ∈ operands [[99, 112], [45, 114], [46], [47, 98]])
    (located : (⟨letters, [nameA]⟩ : Fs).locate src = some s) : src = [46] ∧ s = [nameA] := by
  have same := letters_operand src member
  subst same
  have here : (⟨letters, [nameA]⟩ : Fs).locate [46] = some [nameA] := by decide
  rw [here] at located
  cases located
  exact ⟨rfl, rfl⟩

theorem letters_source (src : Bytes) (s p : Place)
    (file : SourceFile ⟨letters, [nameA]⟩ [[99, 112], [45, 114], [46], [47, 98]] src s p) :
    src = [46] ∧ s = [nameA] ∧ p = [nameF] := by
  obtain ⟨rfl, rfl⟩ := letters_located src s file.operand file.located
  have whole := (letters_regular _).mp file.regular
  exact ⟨rfl, rfl, List.append_cancel_right (whole : p ++ [nameA] = [nameF] ++ [nameA])⟩

theorem letters_copies (a d : Place) (copy : Copies ⟨letters, [nameA]⟩ [[99, 112], [45, 114], [46], [47, 98]] a d) :
    a = [nameF, nameA] ∧ d = [nameF, nameB] := by
  obtain ⟨src, s, p, file, rfl, land⟩ := copy
  obtain ⟨rfl, rfl, rfl⟩ := letters_source src s p file
  have place : (⟨letters, [nameA]⟩ : Fs).locate (copyPath [[99, 112], [45, 114], [46], [47, 98]] [46]) = some [nameB] := by
    decide
  rw [Lands, if_neg (List.cons_ne_nil _ _), place] at land
  obtain ⟨q, same, rfl⟩ := land
  cases same
  exact ⟨rfl, rfl⟩

theorem letters_safe : CpSafe allowed ⟨letters, [nameA]⟩ [[99, 112], [45, 114], [46], [47, 98]] where
  agree := by
    refine ⟨fun a b d first second => ?_, fun a d src s p copy file same => ?_⟩
    · rw [(letters_copies a d first).1, (letters_copies b d second).1]
    · obtain ⟨-, rfl, rfl⟩ := letters_source src s p file
      rw [(letters_copies a d copy).2] at same
      exact absurd same (by decide)
  alone := by
    intro a copy
    obtain ⟨here, there⟩ := letters_copies a a copy
    rw [here] at there
    exact absurd there (by decide)
  kept := by
    intro a d copy
    rw [(letters_copies a d copy).2]
    decide
  outside := by
    intro a d src s copy member located isDir below
    obtain ⟨rfl, rfl⟩ := letters_located src s member located
    rw [(letters_copies a d copy).2] at below
    exact absurd below (by decide)
  walked := by
    intro src s member located isDir
    obtain ⟨rfl, rfl⟩ := letters_located src s member located
    refine ⟨fun _ _ => ⟨rfl, rfl⟩, fun n q regular => ⟨[nameB], by decide, ?_⟩⟩
    have whole : (n :: q) ++ [nameA] = [nameF] ++ [nameA] := (letters_regular _).mp regular
    obtain ⟨-, rfl⟩ := List.cons.inj (List.append_cancel_right whole)
    decide
  later := List.pairwise_singleton _ _

end Yaup.Busybox
