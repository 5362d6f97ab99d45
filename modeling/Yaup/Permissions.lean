import Yaup.ReadBack

set_option autoImplicit false

namespace Yaup

open Lib

section
variable (p : Proc) (x : Inode)

def SomeClass (usr grp oth : UInt16) : Prop :=
  (p.pUid = x.iUid ∧ x.iMode &&& usr ≠ 0) ∨ (p.pGid = x.iGid ∧ x.iMode &&& grp ≠ 0) ∨ x.iMode &&& oth ≠ 0

instance (usr grp oth : UInt16) : Decidable (SomeClass p x usr grp oth) := inferInstanceAs (Decidable (_ ∨ _ ∨ _))

def OfClasses (usr grp oth : UInt16) : Prop := irwxu &&& usr = usr ∧ irwxg &&& grp = grp ∧ irwxo &&& oth = oth

theorem or_and_mask (mode bit mask : UInt16) : (mode ||| bit) &&& mask = (mode &&& mask) ||| (bit &&& mask) :=
  UInt16.toBitVec_inj.mp BitVec.and_or_distrib_right

theorem mask_in_class (mode all perm : UInt16) (within : all &&& perm = perm) (asked : mode &&& perm ≠ 0) :
    mode &&& all ≠ 0 := by
  intro none
  rw [← within, ← UInt16.and_assoc, none, UInt16.zero_and] at asked
  exact asked rfl

theorem class_test (mode all perm : UInt16) (within : all &&& perm = perm) :
    (mode &&& all != 0 || mode &&& perm != 0) = decide (mode &&& all ≠ 0) := by
  by_cases any : mode &&& all = 0
  · have none : mode &&& perm = 0 := by
      by_contra asked
      exact mask_in_class mode all perm within asked any
    simp [any, none]
  · simp [any]

theorem has_perm_iff (usr grp oth : UInt16) (within : OfClasses usr grp oth) :
    hasPerm p x usr grp oth = true ↔ SomeClass p x irwxu irwxg irwxo := by
  obtain ⟨user, group, other⟩ := within
  rw [hasPerm, userHasPerm, groupHasPerm, otherHasPerm, class_test _ _ _ user, class_test _ _ _ group,
    class_test _ _ _ other]
  simp only [Bool.or_eq_true, Bool.and_eq_true, beq_iff_eq, decide_eq_true_eq, SomeClass, or_assoc]

theorem class_mask (usr grp oth : UInt16) (within : OfClasses usr grp oth) (asked : SomeClass p x usr grp oth) :
    SomeClass p x irwxu irwxg irwxo := by
  obtain ⟨user, group, other⟩ := within
  rcases asked with ⟨owner, bits⟩ | ⟨member, bits⟩ | bits
  · exact .inl ⟨owner, mask_in_class _ _ _ user bits⟩
  · exact .inr (.inl ⟨member, mask_in_class _ _ _ group bits⟩)
  · exact .inr (.inr (mask_in_class _ _ _ other bits))

end

def readPerm : UInt16 × UInt16 × UInt16 := (irusr, irgrp, iroth)
def writePerm : UInt16 × UInt16 × UInt16 := (iwusr, iwgrp, iwoth)

theorem perm_of_classes (perm : UInt16 × UInt16 × UInt16) (asked : perm ∈ [readPerm, writePerm]) :
    OfClasses perm.1 perm.2.1 perm.2.2 := by
  rcases List.mem_pair.mp asked with rfl | rfl
  · exact ⟨rfl, rfl, rfl⟩
  · exact ⟨rfl, rfl, rfl⟩

def LetsThrough (k : Kernel) (unset : Unset) (fd : Int) (perm : UInt16 × UInt16 × UInt16) (bad denied : String) : Prop :=
  ∃ f t, (openFile unset fd perm.1 perm.2.1 perm.2.2 bad denied).run k = .ok f t

def Asked (p : Proc) (x : Inode) (perm : UInt16 × UInt16 × UInt16) : Prop := SomeClass p x perm.1 perm.2.1 perm.2.2

def AnyBit (p : Proc) (x : Inode) : Prop := SomeClass p x irwxu irwxg irwxo

instance (p : Proc) (x : Inode) (perm : UInt16 × UInt16 × UInt16) : Decidable (Asked p x perm) :=
  inferInstanceAs (Decidable (SomeClass _ _ _ _ _))

instance (p : Proc) (x : Inode) : Decidable (AnyBit p x) := inferInstanceAs (Decidable (SomeClass _ _ _ _ _))

def askedBits (perm : UInt16 × UInt16 × UInt16) : UInt16 := perm.1 ||| perm.2.1 ||| perm.2.2

def SameAsked (perm : UInt16 × UInt16 × UInt16) (x y : Inode) : Prop :=
  y.iUid = x.iUid ∧ y.iGid = x.iGid ∧ y.iMode &&& askedBits perm = x.iMode &&& askedBits perm

def Inode.withMode (x : Inode) (mode : UInt16) : Inode := { x with iMode := mode }

def Unset.testing (unset : Unset) (x : Inode) : Unset := { unset with inode := some x }

section
variable (k : Kernel) (unset : Unset) (fd : Int) (f : FileId) (perm : UInt16 × UInt16 × UInt16) (bad denied : String)
variable (free : k.locks (.proc k.current) = none) (named : (k.procs k.current).filp fd = some (some f))
variable (asked : perm ∈ [readPerm, writePerm])
include free named asked

theorem lets_through_iff (x : Inode) (tested : unset.inode = some x) :
    LetsThrough k unset fd perm bad denied ↔ AnyBit (k.procs k.current) x := by
  have within := perm_of_classes perm asked
  rw [AnyBit, ← has_perm_iff _ _ _ _ _ within]
  constructor
  · rintro ⟨g, t, done⟩
    obtain ⟨-, -, y, same, may⟩ := open_file_ok k t unset fd _ _ _ bad denied g done
    cases tested.symm.trans same
    exact may
  · intro may
    exact ⟨f, k, open_file_run k unset fd _ _ _ bad denied f free named ⟨x, tested, may⟩⟩

theorem other_bits_iff (x : Inode) :
    (∀ y, SameAsked perm x y →
      (LetsThrough k (unset.testing y) fd perm bad denied ↔ LetsThrough k (unset.testing x) fd perm bad denied)) ↔
    Asked (k.procs k.current) x perm := by
  have test := fun y => lets_through_iff k (unset.testing y) fd f perm bad denied free named asked y rfl
  have bits : askedBits perm &&& irwxu = perm.1 ∧ askedBits perm &&& irwxg = perm.2.1 ∧
      askedBits perm &&& irwxo = perm.2.2 ∧ (0o001 : UInt16) &&& askedBits perm = 0 := by
    rcases List.mem_pair.mp asked with rfl | rfl
    · decide
    · decide
  obtain ⟨user, group, other, apart⟩ := bits
  simp only [test]
  constructor
  · intro same
    have bare := (same (x.withMode (x.iMode &&& askedBits perm)) ⟨rfl, rfl, ?_⟩).mpr ((same
      (x.withMode (x.iMode ||| 0o001)) ⟨rfl, rfl, ?_⟩).mp (.inr (.inr ?_)))
    · simpa only [AnyBit, Asked, SomeClass, Inode.withMode, UInt16.and_assoc, user, group, other] using bare
    · simp only [Inode.withMode, UInt16.and_assoc, UInt16.and_self]
    · simp only [Inode.withMode, or_and_mask, apart, UInt16.or_zero]
    · intro none
      rw [Inode.withMode, or_and_mask, UInt16.or_eq_zero_iff] at none
      exact absurd none.2 (by decide)
  · rintro had y ⟨owner, member, mode⟩
    refine iff_of_true ?_ (class_mask _ _ _ _ _ (perm_of_classes perm asked) had)
    refine class_mask _ _ perm.1 perm.2.1 perm.2.2 (perm_of_classes perm asked) ?_
    have each : ∀ all, y.iMode &&& (askedBits perm &&& all) = x.iMode &&& (askedBits perm &&& all) := by
      intro all
      rw [← UInt16.and_assoc, mode, UInt16.and_assoc]
    rw [SomeClass, owner, member, ← user, ← group, ← other, each, each, each, user, group, other]
    exact had

theorem denied_panics (x : Inode) (tested : unset.inode = some x) (none : ¬AnyBit (k.procs k.current) x) :
    (openFile unset fd perm.1 perm.2.1 perm.2.2 bad denied).run k =
      .error (.panic denied) (k.lock (.proc k.current)) := by
  have low : ¬ fd ≥ nrOfiles := Int.not_le.mpr (filp_low _ fd _ named)
  have refused : ¬ hasPerm (k.procs k.current) x perm.1 perm.2.1 perm.2.2 = true := by
    rw [has_perm_iff _ _ _ _ _ (perm_of_classes perm asked)]
    exact none
  simp [openFile, low, acquire_free k _ free, named, tested, refused]

-- A test lets the process through for any bit of a class it is in, so it is right where a
-- bit asked for is there or none at all.
theorem permission_test_iff (x : Inode) (tested : unset.inode = some x) :
    ((LetsThrough k unset fd perm bad denied ↔ Asked (k.procs k.current) x perm) ↔
      (AnyBit (k.procs k.current) x → Asked (k.procs k.current) x perm)) ∧
    ((∀ y, SameAsked perm x y →
      (LetsThrough k (unset.testing y) fd perm bad denied ↔ LetsThrough k unset fd perm bad denied)) ↔
      Asked (k.procs k.current) x perm) ∧
    (¬LetsThrough k unset fd perm bad denied →
      (openFile unset fd perm.1 perm.2.1 perm.2.2 bad denied).run k =
        .error (.panic denied) (k.lock (.proc k.current))) := by
  have itself : unset.testing x = unset := by
    rw [Unset.testing, ← tested]
  rw [lets_through_iff k unset fd f perm bad denied free named asked x tested]
  refine ⟨?_, ?_, denied_panics k unset fd f perm bad denied free named asked x tested⟩
  · exact ⟨fun same => same.mp, fun enough => ⟨enough, class_mask _ _ _ _ _ (perm_of_classes perm asked)⟩⟩
  · have others := other_bits_iff k unset fd f perm bad denied free named asked x
    rw [itself, lets_through_iff k unset fd f perm bad denied free named asked x tested] at others
    exact others

end

-- Process 0 owns the file and may only execute it, by the mode 0100.
def executableOnly : Unset := setLocals.testing (tenBytes.withMode 0o100100)

theorem permission_test_owner :
    ¬(LetsThrough (tenByteFile 0) executableOnly 3 readPerm "" "" ↔
      Asked ((tenByteFile 0).procs 0) (tenBytes.withMode 0o100100) readPerm) := by
  have exact_test := (permission_test_iff (tenByteFile 0) executableOnly 3 0 readPerm "" "" rfl
    (ten_byte_file_open 0 (by decide)).named (.head _) _ rfl).1
  exact fun right => absurd (exact_test.mp right) (by decide)

theorem execute_bit_reads :
    ∃ f t, (openFile executableOnly 3 irusr irgrp iroth "" "").run (tenByteFile 0) = .ok f t ∧
      ¬Asked ((tenByteFile 0).procs 0) (tenBytes.withMode 0o100100) readPerm :=
  ⟨0, _, open_file_run (tenByteFile 0) executableOnly 3 irusr irgrp iroth "" "" 0 rfl
    (ten_byte_file_open 0 (by decide)).named ⟨_, rfl, by decide⟩, by decide⟩

end Yaup
