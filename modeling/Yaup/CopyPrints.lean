import Mathlib.Data.List.Forall2
import Yaup.PrintMains

set_option autoImplicit false

namespace Yaup.Busybox

open Lib

def Print.unnamed : Print → Print
  | .name _ => .name []
  | .sum checksum blocks _ => .sum checksum blocks []
  | print => print

-- A path that names a source file of cp before the run, and one that names its copy after,
-- which opens for reading.
def CopyOf (sys : System) (fs t : Fs) (argv : List Bytes) (old new : Bytes) : Prop :=
  ∃ src s p d, SourceFile fs argv src s p ∧ fs.locate old = some (p ++ s) ∧ t.locate (copyPath argv src) = some d ∧
    t.locate new = some (p ++ d) ∧ sys.read (p ++ d) = true

structure SameFor (tool : Printer) (amb later : Ambient) : Prop where
  sys : later.sys = amb.sys
  columns : tool = .head → later.columns = amb.columns
  signed : tool = .tr → later.signed = amb.signed
  blksize : tool = .sum → later.blksize = amb.blksize
  cells : tool = .nl → later.cells = amb.cells
  block : tool = .grep → later.block = amb.block ∧ later.found = amb.found ∧ later.turns = amb.turns

theorem work_same (tool : Printer) (amb later : Ambient) (same : SameFor tool amb later) (argv : List Bytes) :
    tool.work later argv = tool.work amb argv := by
  cases tool with
  | head =>
      have columns := same.columns rfl
      funext path data feed
      simp only [Printer.work, headWork, columns]
  | tr =>
      have signed := same.signed rfl
      funext path data feed
      simp only [Printer.work, trWork, signed]
  | nl =>
      have cells := same.cells rfl
      funext path data feed
      simp only [Printer.work, nlWork, cells]
  | sum =>
      have blksize := same.blksize rfl
      funext path data feed
      simp only [Printer.work, sumWork, blksize]
  | grep =>
      obtain ⟨block, found, turns⟩ := same.block rfl
      funext path data feed
      simp only [Printer.work, grepWork, block, found, turns]
  | cat => rfl
  | tail => rfl
  | wc => rfl
  | od => rfl

theorem readable_data (sys : System) (fs : Fs) (path data : Bytes) (p : Place) (located : fs.locate path = some p)
    (there : fs.Readable sys path data) : sys.read p = true ∧ fs.fileData p = some data := by
  obtain ⟨q, found, here, opened⟩ := there
  rw [located] at found
  cases found
  cases read : sys.read p with
  | false => simp [Fs.fopen, located, read] at opened
  | true =>
      simp only [Fs.fopen, located, read, Option.bind_some, if_true, contents_regular sys fs p here] at opened
      exact ⟨rfl, opened⟩

theorem data_regular (fs : Fs) (p : Place) (data : Bytes) (whole : fs.fileData p = some data) :
    fs.tree.kindAt p = some .reg := by
  obtain ⟨entry, here, bytes⟩ := Option.bind_eq_some_iff.mp whole
  rw [Tree.kindAt, here, Option.map_some]
  by_cases reg : entry.kind = .reg
  · rw [reg]
  · rw [if_neg reg] at bytes
    cases bytes

theorem data_readable (sys : System) (fs : Fs) (path data : Bytes) (p : Place) (located : fs.locate path = some p)
    (here : fs.tree.kindAt p = some .reg) (read : sys.read p = true) (whole : fs.fileData p = some data) :
    fs.Readable sys path data := by
  refine ⟨p, located, here, ?_⟩
  simp only [Fs.fopen, located, read, Option.bind_some, if_true, contents_regular sys fs p here, whole]

theorem work_unnamed (amb : Ambient) (argv : List Bytes) (tool : Printer) (old new data : Bytes) (feed next : Feed)
    (out : List Print) (worked : tool.work amb argv old data feed = some (out, next)) :
    ∃ again, tool.work amb argv new data feed = some (again, next) ∧ again.map Print.unnamed = out.map Print.unnamed := by
  cases tool with
  | cat => exact ⟨out, worked, rfl⟩
  | head => exact ⟨out, worked, rfl⟩
  | tail => cases worked
  | tr => exact ⟨out, worked, rfl⟩
  | nl => exact ⟨out, worked, rfl⟩
  | od => exact ⟨out, worked, rfl⟩
  | grep => exact ⟨out, worked, rfl⟩
  | wc =>
      obtain ⟨n, counted, made⟩ := Option.bind_eq_some_iff.mp worked
      cases made
      exact ⟨[.name new, .counts n], by simp [Printer.work, wcWork, counted], rfl⟩
  | sum =>
      change (if amb.blksize feed.files = 0 then none else _) = _ at worked
      by_cases none : amb.blksize feed.files = 0
      · rw [if_pos none] at worked
        cases worked
      · rw [if_neg none] at worked
        cases worked
        exact ⟨_, if_neg none, rfl⟩

theorem work_options (amb : Ambient) (tool : Printer) (options olds news : List Bytes) (index : options.length = tool.first) :
    tool.work amb (options ++ news) = tool.work amb (options ++ olds) := by
  have kept : ∀ i < tool.first, ∀ files : List Bytes, (options ++ files).getD i [] = options.getD i [] := by
    intro i inside files
    rw [List.getD_eq_getElem?_getD, List.getD_eq_getElem?_getD, List.getElem?_append_left (index ▸ inside)]
  cases tool with
  | head => rw [Printer.work, Printer.work, kept 1 (by decide), kept 1 (by decide)]
  | tr => rw [Printer.work, Printer.work, kept 1 (by decide), kept 1 (by decide), kept 2 (by decide), kept 2 (by decide)]
  | grep => rw [Printer.work, Printer.work, kept 1 (by decide), kept 1 (by decide)]
  | cat => rfl
  | tail => rfl
  | wc => rfl
  | nl => rfl
  | od => rfl
  | sum => rfl

-- By induction on the files: each has the bytes of its partner.
theorem printed_alike (amb : Ambient) (argv : List Bytes) (tool : Printer) (fs t : Fs) (olds news : List Bytes)
    (same : List.Forall₂ (fun old new => ∀ data, fs.Readable amb.sys old data → t.Readable amb.sys new data) olds news)
    (feed last : Feed) (out : List Print) (printed : Printed amb.sys fs (tool.work amb argv) olds feed out last) :
    ∃ again, Printed amb.sys t (tool.work amb argv) news feed again last ∧
      again.map Print.unnamed = out.map Print.unnamed := by
  induction printed generalizing news with
  | done feed =>
      cases same
      exact ⟨[], .done feed, rfl⟩
  | file path data rest feed next last out later there worked others ih =>
      cases same with
      | @cons _ new _ news readable same =>
          obtain ⟨text, again, alike⟩ := work_unnamed amb argv tool path new data feed next out worked
          obtain ⟨texts, printed, rests⟩ := ih news same
          refine ⟨text ++ texts, .file new data news feed next last text texts (readable data there) again printed, ?_⟩
          rw [List.map_append, List.map_append, alike, rests]

section
variable (sys : System) (junk : Kind) (fuel : Nat) (argv : List Bytes) (fs t : Fs)
  (safe : CpSafe sys fs argv) (usable : Usable fs argv) (code : Int)
  (done : (cpMain sys junk fuel argv).run fs = .ok code t)

include done safe usable

theorem copy_readable (old new data : Bytes) (copy : CopyOf sys fs (t.at fs.cwd) argv old new)
    (there : fs.Readable sys old data) :
    (t.at fs.cwd).Readable sys new data ∧ (t.at fs.cwd).Readable sys old data := by
  obtain ⟨src, s, p, d, file, named, located, found, read⟩ := copy
  obtain ⟨lands, holding⟩ := cp_safe_holding sys junk fuel argv fs t safe usable code done
  have carried := holding.carried
  obtain ⟨kept, e, again, copied⟩ := holding_right argv fs t lands holding src s p file
  rw [located] at again
  cases again
  obtain ⟨permitted, whole⟩ := readable_data sys fs old data (p ++ s) named there
  have regular := data_regular (t.at fs.cwd) (p ++ d) data (copied.trans whole)
  have has := kind_has _ _ _ file.regular
  have still : (t.at fs.cwd).locate old = some (p ++ s) :=
    locate_transfer fs (t.at fs.cwd) rfl (fun q => (carried.dirs q).mpr) old _ (carried_has fs argv t _ carried has) named
  exact ⟨data_readable sys _ new data _ found regular read (copied.trans whole),
    data_readable sys _ old data _ still ((carried.kinds _ has).trans file.regular) permitted (kept.trans whole)⟩

end

theorem cmp_open_readable (sys : System) (fs : Fs) (path data : Bytes) (st : Kind) (there : fs.Readable sys path data) :
    cmpOpen sys fs path st = .ok (data, .reg) := by
  have regular := readable_kind sys fs path data st there
  obtain ⟨-, -, -, opened⟩ := there
  simp [cmpOpen, regular, opened]

theorem cmp_main_same (sys : System) (fs : Fs) (c1 c2 : Option UInt8) (junk : Kind) (cmd first second data : Bytes)
    (one : fs.Readable sys first data) (two : fs.Readable sys second data) (fits : data.length < Lib.intMax) :
    cmpMain sys c1 c2 junk fs [cmd, first, second] = .ok .same := by
  have shared := common_prefix_fits data data fits.le fits.le fun _ => fits
  have answer : cmp c1 c2 data data = .ok .same := by
    rw [cmp, cmp_loop_run data data 0 0 c1 c2 (Nat.le_refl 0) (by omega), if_pos rfl]
  have three : ¬[cmd, first, second].length ≠ 3 := not_not.mpr rfl
  rw [cmpMain, if_neg three, List.getD_cons_succ, List.getD_cons_zero, cmp_open_readable sys fs first data junk one]
  change (cmpOpen sys fs second .reg >>= _) = _
  rw [cmp_open_readable sys fs second data .reg two]
  change (cmp c1 c2 data data).mapError _ = _
  rw [answer]
  rfl

theorem copies_print_alike (amb later : Ambient) (junk first second : Kind) (fuel : Nat) (argv : List Bytes) (fs t : Fs)
    (safe : CpSafe amb.sys fs argv) (usable : Usable fs argv) (code : Int)
    (done : (cpMain amb.sys junk fuel argv).run fs = .ok code t) (tool : Printer) (same : SameFor tool amb later)
    (options olds news : List Bytes) (index : options.length = tool.first) (asked : tool.Asked (options ++ olds))
    (again : tool.Asked (options ++ news)) (copies : List.Forall₂ (CopyOf amb.sys fs (t.at fs.cwd) argv) olds news)
    (feed : Feed) (returned : (tool.main amb fs first (options ++ olds) feed).stop = none) :
    ((tool.main later (t.at fs.cwd) second (options ++ news) feed).stop = none ∧
      (tool.main later (t.at fs.cwd) second (options ++ news) feed).feed =
        (tool.main amb fs first (options ++ olds) feed).feed ∧
      (tool.main later (t.at fs.cwd) second (options ++ news) feed).out.map Print.unnamed =
        (tool.main amb fs first (options ++ olds) feed).out.map Print.unnamed) ∧
    ∀ old new data, CopyOf amb.sys fs (t.at fs.cwd) argv old new → fs.Readable amb.sys old data →
      data.length < Lib.intMax → ∀ c1 c2 st cmd, cmpMain amb.sys c1 c2 st (t.at fs.cwd) [cmd, old, new] = .ok .same := by
  have reads := copy_readable amb.sys junk fuel argv fs t safe usable code done
  have files : ∀ paths : List Bytes, (options ++ paths).drop tool.first = paths := fun paths => index ▸ List.drop_left
  constructor
  · rw [printer_main amb tool fs first _ feed asked, files olds] at returned ⊢
    have printed := file_loop_returned amb.sys fs _ olds first feed returned
    obtain ⟨texts, copied, alike⟩ := printed_alike amb _ tool fs (t.at fs.cwd) olds news
      (copies.imp fun old new copy data there => (reads old new data copy there).1) feed _ _ printed
    rw [printer_main later tool (t.at fs.cwd) second _ feed again, files news, same.sys, work_same tool amb later same,
      work_options amb tool options olds news index, file_loop_all amb.sys _ _ news second feed _ _ copied]
    exact ⟨rfl, rfl, alike⟩
  · intro old new data copy there fits c1 c2 st cmd
    obtain ⟨after, kept⟩ := reads old new data copy there
    exact cmp_main_same amb.sys (t.at fs.cwd) c1 c2 st cmd old new data kept after fits

-- What "cp -r . /b" in /a leaves.
def lettersCopied : Fs :=
  match (cpMain allowed .reg 2 [[99, 112], [45, 114], [46], [47, 98]]).run ⟨letters, [nameA]⟩ with
  | .ok _ t => t
  | .error _ t => t

theorem letters_copied_of (old : Bytes) (named : (⟨letters, [nameA]⟩ : Fs).locate old = some [nameF, nameA]) :
    CopyOf allowed ⟨letters, [nameA]⟩ (lettersCopied.at [nameA]) [[99, 112], [45, 114], [46], [47, 98]] old [47, 98, 47, 102] :=
  ⟨[46], [nameA], [nameF], [nameB], ⟨by decide, by decide, by decide⟩, named, by decide, by decide, rfl⟩

theorem letters_usable : Usable ⟨letters, [nameA]⟩ [[99, 112], [45, 114], [46], [47, 98]] := by
  intro src member
  rw [letters_operand src member]
  exact ⟨[nameA], by decide, .inr ⟨by decide, by decide⟩⟩

-- "sum f ./f" before it, and "sum /b/f /b/f" after it with COLUMNS set.
theorem letter_prints_alike :
    (Printer.sum.main { plainAmbient with columns := some [56, 48] } (lettersCopied.at [nameA]) .other
      [[115, 117, 109], [47, 98, 47, 102], [47, 98, 47, 102]] ⟨[], 0⟩).out.map Print.unnamed =
    (Printer.sum.main plainAmbient ⟨letters, [nameA]⟩ .dir [[115, 117, 109], [102], [46, 47, 102]] ⟨[], 0⟩).out.map
      Print.unnamed :=
  (copies_print_alike plainAmbient { plainAmbient with columns := some [56, 48] } .reg .dir .other 2
    [[99, 112], [45, 114], [46], [47, 98]] ⟨letters, [nameA]⟩ lettersCopied letters_safe letters_usable 0 rfl .sum
    ⟨rfl, nofun, nofun, fun _ => rfl, nofun, nofun⟩ [[115, 117, 109]] [[102], [46, 47, 102]] [[47, 98, 47, 102], [47, 98, 47, 102]]
    rfl ⟨by decide, by simp, by decide⟩ ⟨by decide, by simp, by decide⟩
    (.cons (letters_copied_of _ (by decide)) (.cons (letters_copied_of _ (by decide)) .nil)) ⟨[], 0⟩ rfl).1.2.2

end Yaup.Busybox
