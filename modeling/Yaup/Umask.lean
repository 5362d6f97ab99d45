import Mathlib.Tactic.Ring
import Yaup.Cksum
import Yaup.ParseMode
import Yaup.Login

set_option autoImplicit false

namespace Yaup.Busybox

open Lib

-- while ((c=fgetc(status)) != stop); for so many turns.
def skipTo (stop : UInt8) : Nat → Stream → Option Stream
  | 0, _ => none
  | turns + 1, status =>
      let next := fgetc status
      if next.1 = some stop then some next.2 else skipTo stop turns next.2

def fgetcInt (c : Option UInt8) : Int :=
  match c with
  | none => -1
  | some byte => byte.toNat

-- The loop that builds the mask; mode_t has 16 bits.
def maskLoop : Nat → Stream → UInt16 → Option UInt16
  | 0, _, _ => none
  | turns + 1, status, mask =>
      let next := fgetc status
      if next.1 = some 10 then some mask
      else maskLoop turns next.2 (UInt16.ofInt (mask.toNat * 10 + (fgetcInt next.1 - 48)))

def getMask (turns : Nat) (text : Bytes) : Option UInt16 := do
  let status ← skipTo 10 turns (fopen text)
  let status ← skipTo 58 turns status
  maskLoop turns status 0

def umaskKey : Bytes := [85, 109, 97, 115, 107, 58]

structure StatusText where
  name : Bytes
  white : Bytes
  digits : Bytes
  behind : Bytes
  line : 10 ∉ name
  blank : white ≠ [] ∧ ∀ c ∈ white, IsSpace c ∧ c ≠ 10
  octal : digits ≠ [] ∧ ∀ c ∈ digits, 48 ≤ c ∧ c ≤ 55
  ends : ∀ c ∈ behind.head?, c = 10

def StatusText.bytes (s : StatusText) : Bytes := s.name ++ 10 :: (umaskKey ++ (s.white ++ s.digits ++ s.behind))

def MaskRight (text : Bytes) : Prop :=
  ∃ turns mask, getMask turns text = some mask ∧ ∀ s : StatusText, s.bytes = text → mask.toNat = octalValue s.digits

-- Behind the first newline a colon, and behind the first one of these a newline.
def HasStops (text : Bytes) : Prop :=
  ∃ first key value rest, text = first ++ 10 :: (key ++ 58 :: (value ++ 10 :: rest)) ∧ 10 ∉ first ∧ 58 ∉ key ∧ 10 ∉ value

def placeValue (base : Int) (digits : List Int) : Int := digits.foldl (fun n digit => n * base + digit) 0

def digitOf (c : UInt8) : Int := c.toNat - 48

-- How much the value in base 10 is above the one in base 8, behind the white space of which
-- each character counts as a digit, too.
def StatusText.excess (s : StatusText) : Int :=
  placeValue 10 (s.digits.map digitOf) - placeValue 8 (s.digits.map digitOf) +
    10 ^ s.digits.length * placeValue 10 (s.white.map digitOf)

theorem skip_to_next (stop c : UInt8) (turns : Nat) (rest : Bytes) (eof : Bool) (other : c ≠ stop) :
    skipTo stop (turns + 1) ⟨c :: rest, eof⟩ = skipTo stop turns ⟨rest, eof⟩ :=
  if_neg fun same => other (Option.some.inj same)

theorem mask_loop_next (c : UInt8) (turns : Nat) (rest : Bytes) (eof : Bool) (mask : UInt16) (other : c ≠ 10) :
    maskLoop (turns + 1) ⟨c :: rest, eof⟩ mask =
      maskLoop turns ⟨rest, eof⟩ (UInt16.ofInt (mask.toNat * 10 + digitOf c)) :=
  if_neg fun same => other (Option.some.inj same)

theorem skip_to_reaches (stop : UInt8) (front rest : Bytes) (turns : Nat) (plain : stop ∉ front) (enough : front.length < turns) :
    skipTo stop turns ⟨front ++ stop :: rest, false⟩ = some ⟨rest, false⟩ := by
  induction front generalizing turns with
  | nil =>
      cases turns with
      | zero => cases enough
      | succ turns => exact if_pos rfl
  | cons c front ih =>
      cases turns with
      | zero => cases enough
      | succ turns =>
          have other : c ≠ stop := fun same => plain (same ▸ List.mem_cons_self)
          rw [List.cons_append, skip_to_next _ _ _ _ _ other]
          exact ih turns (List.not_mem_of_not_mem_cons plain) (Nat.lt_of_succ_lt_succ enough)

theorem skip_to_never (stop : UInt8) (turns : Nat) (rest : Bytes) (eof : Bool) (plain : stop ∉ rest) :
    skipTo stop turns ⟨rest, eof⟩ = none := by
  induction turns generalizing rest eof with
  | zero => rfl
  | succ turns ih =>
      cases rest with
      | nil => exact ih [] true plain
      | cons c rest =>
          have other : c ≠ stop := fun same => plain (same ▸ List.mem_cons_self)
          rw [skip_to_next _ _ _ _ _ other]
          exact ih rest eof (List.not_mem_of_not_mem_cons plain)

theorem mask_loop_never (turns : Nat) (rest : Bytes) (eof : Bool) (mask : UInt16) (plain : 10 ∉ rest) :
    maskLoop turns ⟨rest, eof⟩ mask = none := by
  induction turns generalizing rest eof mask with
  | zero => rfl
  | succ turns ih =>
      cases rest with
      | nil => exact ih [] true _ plain
      | cons c rest =>
          have other : c ≠ 10 := fun same => plain (same ▸ List.mem_cons_self)
          rw [mask_loop_next _ _ _ _ _ other]
          exact ih rest eof _ (List.not_mem_of_not_mem_cons plain)

theorem mode_value (n : Int) : ((UInt16.ofInt n).toNat : Int) = n % 65536 := by
  have low : 0 ≤ n % 65536 := Int.emod_nonneg n (by decide)
  have high : n % 65536 < 65536 := Int.emod_lt_of_pos n (by decide)
  have cut : (UInt16.ofInt n).toNat = (n % 65536).toNat % 65536 := UInt16.toNat_ofNat'
  omega

theorem mask_cut (n digit : Int) : UInt16.ofInt ((UInt16.ofInt n).toNat * 10 + digit) = UInt16.ofInt (n * 10 + digit) := by
  have back : UInt16.ofInt ((UInt16.ofInt n).toNat : Int) = UInt16.ofInt n := by
    rw [mode_value, UInt16.ofInt, UInt16.ofInt]
    exact congrArg (fun n : Int => UInt16.ofNat n.toNat) (Int.emod_emod_of_dvd n (dvd_refl _))
  rw [UInt16.ofInt_add, UInt16.ofInt_mul, UInt16.ofInt_add, UInt16.ofInt_mul, back]

-- By induction on the line, with n the mask before it is cut to 16 bits.
theorem mask_loop_value (line rest : Bytes) (turns : Nat) (n : Int) (plain : 10 ∉ line) (enough : line.length < turns) :
    maskLoop turns ⟨line ++ 10 :: rest, false⟩ (UInt16.ofInt n) =
      some (UInt16.ofInt ((line.map digitOf).foldl (fun n digit => n * 10 + digit) n)) := by
  induction line generalizing turns n with
  | nil =>
      cases turns with
      | zero => cases enough
      | succ turns => simp [maskLoop, fgetc]
  | cons c line ih =>
      cases turns with
      | zero => cases enough
      | succ turns =>
          have other : c ≠ 10 := fun same => plain (same ▸ List.mem_cons_self)
          rw [List.cons_append, mask_loop_next _ _ _ _ _ other, mask_cut]
          exact ih turns _ (List.not_mem_of_not_mem_cons plain) (Nat.lt_of_succ_lt_succ enough)

theorem place_value_append (base : Int) (front digits : List Int) :
    placeValue base (front ++ digits) = base ^ digits.length * placeValue base front + placeValue base digits := by
  have from_any : ∀ n, digits.foldl (fun n digit => n * base + digit) n = base ^ digits.length * n + placeValue base digits := by
    induction digits with
    | nil => simp [placeValue]
    | cons digit digits ih =>
        intro n
        have first := ih (0 * base + digit)
        rw [placeValue, List.foldl_cons, List.foldl_cons, first, ih, List.length_cons]
        ring
  rw [placeValue, List.foldl_append]
  exact from_any _

theorem octal_place_value (digits : Bytes) (octal : ∀ c ∈ digits, 48 ≤ c ∧ c ≤ 55) :
    (octalValue digits : Int) = placeValue 8 (digits.map digitOf) := by
  suffices ∀ n : Nat, (digits.foldl (fun n c => 8 * n + (c.toNat - 48)) n : Nat) =
      (digits.map digitOf).foldl (fun n digit => n * 8 + digit) (n : Int) from this 0
  induction digits with
  | nil => exact fun n => rfl
  | cons c digits ih =>
      intro n
      have low : 48 ≤ c.toNat := UInt8.le_iff_toNat_le.mp (octal c List.mem_cons_self).1
      have first : ((8 * n + (c.toNat - 48) : Nat) : Int) = n * 8 + digitOf c := by
        unfold digitOf
        omega
      rw [List.foldl_cons, List.map_cons, List.foldl_cons, ih (fun c member => octal c (List.mem_cons_of_mem _ member)), first]

theorem skip_to_done (stop : UInt8) (turns : Nat) (text : Bytes) (status : Stream)
    (done : skipTo stop turns ⟨text, false⟩ = some status) :
    ∃ front rest, text = front ++ stop :: rest ∧ stop ∉ front ∧ status = ⟨rest, false⟩ := by
  induction turns generalizing text with
  | zero => cases done
  | succ turns ih =>
      cases text with
      | nil =>
          rw [skip_to_never stop _ [] false (by simp)] at done
          cases done
      | cons c text =>
          by_cases same : c = stop
          · subst same
            have next : skipTo c (turns + 1) ⟨c :: text, false⟩ = some ⟨text, false⟩ := if_pos rfl
            rw [next] at done
            cases done
            exact ⟨[], text, rfl, by simp, rfl⟩
          · rw [skip_to_next _ _ _ _ _ same] at done
            obtain ⟨front, rest, rfl, plain, left⟩ := ih text done
            exact ⟨c :: front, rest, rfl, List.not_mem_cons_of_ne_of_not_mem (Ne.symm same) plain, left⟩

theorem mask_loop_done (turns : Nat) (text : Bytes) (n : Int) (mask : UInt16)
    (done : maskLoop turns ⟨text, false⟩ (UInt16.ofInt n) = some mask) :
    ∃ value rest, text = value ++ 10 :: rest ∧ 10 ∉ value ∧
      mask = UInt16.ofInt ((value.map digitOf).foldl (fun n digit => n * 10 + digit) n) := by
  induction turns generalizing text n with
  | zero => cases done
  | succ turns ih =>
      cases text with
      | nil =>
          rw [mask_loop_never _ [] false _ (by simp)] at done
          cases done
      | cons c text =>
          by_cases newline : c = 10
          · subst newline
            have next : maskLoop (turns + 1) ⟨10 :: text, false⟩ (UInt16.ofInt n) = some (UInt16.ofInt n) := by
              simp [maskLoop, fgetc]
            rw [next] at done
            cases done
            exact ⟨[], text, rfl, by simp, rfl⟩
          · rw [mask_loop_next _ _ _ _ _ newline, mask_cut] at done
            obtain ⟨value, rest, rfl, plain, answer⟩ := ih text _ done
            exact ⟨c :: value, rest, rfl, List.not_mem_cons_of_ne_of_not_mem (Ne.symm newline) plain, answer⟩

theorem get_mask_done (turns : Nat) (text : Bytes) (mask : UInt16) (done : getMask turns text = some mask) :
    ∃ first key value rest, text = first ++ 10 :: (key ++ 58 :: (value ++ 10 :: rest)) ∧ 10 ∉ first ∧ 58 ∉ key ∧ 10 ∉ value ∧
      mask = UInt16.ofInt (placeValue 10 (value.map digitOf)) := by
  obtain ⟨_, skipped, done⟩ := Option.bind_eq_some_iff.mp done
  obtain ⟨first, behind, rfl, line, rfl⟩ := skip_to_done 10 turns text _ skipped
  obtain ⟨_, skipped, done⟩ := Option.bind_eq_some_iff.mp done
  obtain ⟨key, more, rfl, before, rfl⟩ := skip_to_done 58 turns behind _ skipped
  obtain ⟨value, rest, rfl, plain, answer⟩ := mask_loop_done turns more 0 mask done
  exact ⟨first, key, value, rest, rfl, line, before, plain, answer⟩

theorem get_mask_stops (text : Bytes) (stops : HasStops text) : ∃ turns mask, getMask turns text = some mask := by
  obtain ⟨first, key, value, rest, rfl, line, before, plain⟩ := stops
  refine ⟨first.length + key.length + value.length + 1, ?_⟩
  have third := mask_loop_value value rest (first.length + key.length + value.length + 1) 0 plain (by omega)
  rw [getMask, fopen, skip_to_reaches 10 first _ _ line (by omega), Option.bind_eq_bind, Option.bind_some,
    skip_to_reaches 58 key _ _ before (by omega), Option.bind_some]
  exact ⟨_, third⟩

theorem split_unique (stop : UInt8) (front rest front' rest' : Bytes) (plain : stop ∉ front) (plain' : stop ∉ front')
    (same : front ++ stop :: rest = front' ++ stop :: rest') : front = front' ∧ rest = rest' := by
  have parts := congrArg (fun text => text.takeWhile fun other => other ≠ stop) same
  simp only [take_while_until _ _ _ plain, take_while_until _ _ _ plain'] at parts
  subst parts
  exact ⟨rfl, (List.cons.inj (List.append_cancel_left same)).2⟩

theorem status_line_plain (s : StatusText) : 10 ∉ s.white ++ s.digits := by
  intro member
  rcases List.mem_append.mp member with white | digit
  · exact (s.blank.2 10 white).2 rfl
  · exact absurd (s.octal.2 10 digit).1 (by decide)

theorem status_value (s : StatusText) :
    placeValue 10 ((s.white ++ s.digits).map digitOf) = octalValue s.digits + s.excess := by
  rw [List.map_append, place_value_append, List.length_map, octal_place_value s.digits s.octal.2, StatusText.excess]
  ring

theorem get_mask_status (s : StatusText) (turns : Nat) (mask : UInt16) (done : getMask turns s.bytes = some mask) :
    mask = UInt16.ofInt (octalValue s.digits + s.excess) := by
  obtain ⟨first, key, value, rest, whole, line, before, plain, rfl⟩ := get_mask_done turns s.bytes mask done
  obtain ⟨rfl, second⟩ := split_unique 10 _ _ _ _ s.line line whole
  have colon : 58 ∉ ([85, 109, 97, 115, 107] : Bytes) := by decide
  obtain ⟨rfl, third⟩ := split_unique 58 [85, 109, 97, 115, 107] _ _ _ colon before second
  have behind : s.behind ≠ [] := by
    intro empty
    rw [empty, List.append_nil] at third
    have text : s.white ++ s.digits = value ++ 10 :: rest := third
    refine status_line_plain s ?_
    rw [text]
    simp
  obtain ⟨c, more, follows⟩ := List.exists_cons_of_ne_nil behind
  have newline : c = 10 := s.ends c (by rw [follows]; rfl)
  subst newline
  rw [follows] at third
  obtain ⟨rfl, -⟩ := split_unique 10 _ _ _ _ (status_line_plain s) plain third
  rw [status_value s]

theorem mask_value_right (value : Nat) (excess : Int) :
    (UInt16.ofInt (value + excess)).toNat = value ↔ value < 65536 ∧ (65536 : Int) ∣ excess := by
  have cut := mode_value (value + excess)
  omega

theorem mask_right_excess (s : StatusText) (right : MaskRight s.bytes) :
    octalValue s.digits < 65536 ∧ (65536 : Int) ∣ s.excess := by
  obtain ⟨turns, mask, done, right⟩ := right
  have value := right s rfl
  rw [get_mask_status s turns mask done] at value
  exact (mask_value_right _ _).mp value

theorem mask_right_iff (text : Bytes) :
    MaskRight text ↔ HasStops text ∧
      ∀ s : StatusText, s.bytes = text → octalValue s.digits < 65536 ∧ (65536 : Int) ∣ s.excess := by
  constructor
  · intro right
    obtain ⟨turns, mask, done, -⟩ := id right
    obtain ⟨first, key, value, rest, whole, line, before, plain, -⟩ := get_mask_done turns text mask done
    refine ⟨⟨first, key, value, rest, whole, line, before, plain⟩, fun s same => ?_⟩
    exact mask_right_excess s (same ▸ right)
  · rintro ⟨stops, cut⟩
    obtain ⟨turns, mask, done⟩ := get_mask_stops text stops
    refine ⟨turns, mask, done, fun s same => ?_⟩
    rw [get_mask_status s turns mask (same ▸ done)]
    exact (mask_value_right _ _).mpr (cut s same)

theorem tab_excess (digits : List Int) (some : digits ≠ []) (four : digits.length ≤ 4) (octal : ∀ d ∈ digits, 0 ≤ d ∧ d ≤ 7) :
    ¬(65536 : Int) ∣ placeValue 10 digits - placeValue 8 digits + 10 ^ digits.length * placeValue 10 [digitOf 9] := by
  have tab : placeValue 10 [digitOf 9] = -39 := by decide
  rw [tab]
  rcases digits with _ | ⟨a, _ | ⟨b, _ | ⟨c, _ | ⟨d, _ | ⟨e, more⟩⟩⟩⟩⟩
  · exact absurd rfl some
  · have first := octal a (by simp)
    simp only [placeValue, List.foldl_cons, List.foldl_nil, List.length_cons, List.length_nil]
    omega
  · have first := octal a (by simp)
    have second := octal b (by simp)
    simp only [placeValue, List.foldl_cons, List.foldl_nil, List.length_cons, List.length_nil]
    omega
  · have first := octal a (by simp)
    have second := octal b (by simp)
    simp only [placeValue, List.foldl_cons, List.foldl_nil, List.length_cons, List.length_nil]
    obtain ⟨x, same⟩ : ∃ x, 36 * a + 2 * b = x := ⟨_, rfl⟩
    have small : 0 ≤ x ∧ x ≤ 266 := by omega
    rintro ⟨k, whole⟩
    have cut : x - 39000 = 65536 * k := by omega
    omega
  · have first := octal a (by simp)
    have second := octal b (by simp)
    have third := octal c (by simp)
    simp only [placeValue, List.foldl_cons, List.foldl_nil, List.length_cons, List.length_nil]
    obtain ⟨x, same⟩ : ∃ x, 488 * a + 36 * b + 2 * c = x := ⟨_, rfl⟩
    have small : 0 ≤ x ∧ x ≤ 3682 := by omega
    rintro ⟨k, whole⟩
    have cut : x - 390000 = 65536 * k := by omega
    omega
  · simp only [List.length_cons] at four
    omega

theorem mask_tab_wrong (s : StatusText) (tab : s.white = [9]) (four : s.digits.length ≤ 4) : ¬MaskRight s.bytes := by
  intro right
  have cut := (mask_right_excess s right).2
  have octal : ∀ d ∈ s.digits.map digitOf, 0 ≤ d ∧ d ≤ 7 := by
    intro d member
    obtain ⟨c, digit, rfl⟩ := List.mem_map.mp member
    have low : 48 ≤ c.toNat := UInt8.le_iff_toNat_le.mp (s.octal.2 c digit).1
    have high : c.toNat ≤ 55 := UInt8.le_iff_toNat_le.mp (s.octal.2 c digit).2
    unfold digitOf
    omega
  have wrong := tab_excess (s.digits.map digitOf) (by simpa using s.octal.1) (by simpa using four) octal
  rw [StatusText.excess, tab] at cut
  rw [List.length_map] at wrong
  exact wrong cut

-- "Name:\tsh", "Umask:\t0022".
def shStatus : StatusText where
  name := [78, 97, 109, 101, 58, 9, 115, 104]
  white := [9]
  digits := [48, 48, 50, 50]
  behind := [10]
  line := by decide
  blank := by simp [IsSpace]
  octal := by simp
  ends := by simp

theorem get_mask_0022 : ¬MaskRight shStatus.bytes := mask_tab_wrong shStatus rfl (by decide)

end Yaup.Busybox
