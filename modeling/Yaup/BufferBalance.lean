import Yaup.Alone
import Yaup.InodeRefs
import Yaup.Lib.Run
import Yaup.ReadBack

set_option autoImplicit false

namespace Yaup

open Lib

namespace Steps

variable {α β : Type}

abbrev Returns (x : Steps α) (k : Kernel) (made : List Note) (a : α) (t : Kernel) : Prop :=
  Prog.Returns acquire release x k made a t

abbrev Silent (x : Steps α) : Prop := Prog.Silent acquire release x

theorem state_then (f : Kernel → Steps α) (k t : Kernel) (made : List Note) (a : α)
    (done : Returns (Prog.state >>= f) k made a t) : Returns (f k) k made a t := done

theorem change_then (g : Kernel → Kernel) (f : Unit → Steps α) (k t : Kernel) (made : List Note) (a : α)
    (done : Returns (Prog.change g >>= f) k made a t) : Returns (f ()) (g k) made a t := done

theorem bget_silent (dev : Dev) (blk : Blk) : Silent (bget dev blk) := by
  refine Prog.silent_bind _ _ _ _ (Prog.silent_acquire _ _ _) fun _ => Prog.silent_state _ _ _ fun k => ?_
  generalize findBlock k dev blk = found
  generalize freeBlock k = unused
  cases found with
  | some b => exact Prog.silent_bind _ _ _ _ (Prog.silent_release _ _ _) fun _ => Prog.silent_pure _ _ _
  | none =>
      cases unused with
      | none => exact Prog.silent_halt _ _ _
      | some b =>
          refine Prog.silent_bind _ _ _ _ (Prog.silent_change _ _ _) fun _ => ?_
          refine Prog.silent_bind _ _ _ _ (Prog.silent_change _ _ _) fun _ => ?_
          refine Prog.silent_bind _ _ _ _ (Prog.silent_change _ _ _) fun _ => ?_
          refine Prog.silent_bind _ _ _ _ (Prog.silent_release _ _ _) fun _ => ?_
          exact Prog.silent_bind _ _ _ _ (Prog.silent_release _ _ _) fun _ => Prog.silent_pure _ _ _

theorem bread_body_silent (b : BufId) : Silent (breadBody b) := by
  unfold breadBody
  refine Prog.silent_state _ _ _ fun k => ?_
  split
  · exact Prog.silent_bind _ _ _ _ (Prog.silent_change _ _ _) fun _ =>
      Prog.silent_bind _ _ _ _ (Prog.silent_change _ _ _) fun _ => Prog.silent_pure _ _ _
  · exact Prog.silent_pure _ _ _

theorem holdingsleep_silent (l : Lock) : Silent (holdingsleep l) :=
  Prog.silent_state _ _ _ fun _ => Prog.silent_pure _ _ _

theorem open_file_silent (unset : Unset) (fd : Int) (usr grp oth : UInt16) (bad denied : String) :
    Silent (openFile unset fd usr grp oth bad denied) := by
  unfold openFile
  split
  · exact Prog.silent_halt _ _ _
  · refine Prog.silent_state _ _ _ fun k => ?_
    refine Prog.silent_bind _ _ _ _ (Prog.silent_acquire _ _ _) fun _ => ?_
    generalize (k.procs k.current).filp fd = file
    generalize unset.inode = inode
    rcases file with _ | _ | f
    · exact Prog.silent_halt _ _ _
    · exact Prog.silent_halt _ _ _
    · cases inode with
      | none => exact Prog.silent_halt _ _ _
      | some x =>
          dsimp only
          split
          · exact Prog.silent_halt _ _ _
          · exact Prog.silent_bind _ _ _ _ (Prog.silent_release _ _ _) fun _ => Prog.silent_pure _ _ _

theorem bread_notes (dev : Dev) (blk : Blk) (k t : Kernel) (made : List Note) (b : BufId)
    (done : (bread dev blk).Returns k made b t) : made = [.gets b] ∧ (Yaup.bread dev blk).run k = .ok b t := by
  have ran : (bread dev blk).alone.run k = .ok b t := done.1
  rw [alone_bread] at ran
  obtain ⟨c, s, got, rest⟩ := Prog.returns_silent _ _ _ _ _ _ _ _ (bget_silent dev blk) done
  obtain ⟨d, u, filled, rest⟩ := Prog.returns_silent _ _ _ _ _ _ _ _ (bread_body_silent c) rest
  obtain ⟨noted, last, rfl⟩ := (Prog.returns_tell _ _ _ _ _ _ _ _).mp rest
  obtain ⟨rfl, -, rfl⟩ := (Prog.returns_pure _ _ _ _ _ _ _).mp last
  exact ⟨rfl, ran⟩

theorem bwrite_notes (b : BufId) (k t : Kernel) (made : List Note) (r : Int) (done : (bwrite b).Returns k made r t) :
    made = [.gives b] := by
  obtain ⟨noted, rest, rfl⟩ := (Prog.returns_tell _ _ _ _ _ _ _ _).mp done
  obtain ⟨_, s, taken, rest⟩ := Prog.returns_silent _ _ _ _ _ _ _ _ (Prog.silent_acquire _ _ _) rest
  replace rest := state_then _ _ _ _ _ rest
  suffices Silent _ from by rw [← rest.2, this]
  split
  · exact Prog.silent_bind _ _ _ _ (Prog.silent_release _ _ _) fun _ => Prog.silent_pure _ _ _
  · refine Prog.silent_bind _ _ _ _ (Prog.silent_change _ _ _) fun _ => ?_
    refine Prog.silent_bind _ _ _ _ (Prog.silent_change _ _ _) fun _ => ?_
    refine Prog.silent_state _ _ _ fun u => ?_
    split
    · refine Prog.silent_bind _ _ _ _ (Prog.silent_change _ _ _) fun _ => ?_
      refine Prog.silent_bind _ _ _ _ (Prog.silent_change _ _ _) fun _ => ?_
      exact Prog.silent_bind _ _ _ _ (Prog.silent_change _ _ _) fun _ => Prog.silent_pure _ _ _
    · exact Prog.silent_pure _ _ _

theorem brelease_notes (b : BufId) (k t : Kernel) (made : List Note) (r : Int)
    (done : (brelease b).Returns k made r t) : made = [.gives b] ∧ (Yaup.brelease b).run k = .ok r t := by
  have ran : (brelease b).alone.run k = .ok r t := done.1
  rw [alone_brelease] at ran
  refine ⟨?_, ran⟩
  obtain ⟨noted, rest, rfl⟩ := (Prog.returns_tell _ _ _ _ _ _ _ _).mp done
  replace rest := state_then _ _ _ _ _ rest
  suffices Silent _ from by rw [← rest.2, this]
  split
  · exact Prog.silent_halt _ _ _
  · refine Prog.silent_bind _ _ _ _ (holdingsleep_silent _) fun mine => ?_
    split
    · exact Prog.silent_bind _ _ _ _ (Prog.silent_change _ _ _) fun _ =>
        Prog.silent_bind _ _ _ _ (Prog.silent_release _ _ _) fun _ => Prog.silent_pure _ _ _
    · exact Prog.silent_pure _ _ _

theorem read_then (dev : Dev) (blk : Blk) (f : BufId → Steps α) (k t : Kernel) (made : List Note) (a : α)
    (done : (bread dev blk >>= f).Returns k made a t) :
    ∃ b u rest, (Yaup.bread dev blk).run k = .ok b u ∧ (f b).Returns u rest a t ∧ made = .gets b :: rest := by
  obtain ⟨b, u, first, rest, read, after, same⟩ := (Prog.returns_bind _ _ _ _ _ _ _ _).mp done
  obtain ⟨one, ran⟩ := bread_notes dev blk k u first b read
  rw [one] at same
  exact ⟨b, u, rest, ran, after, same⟩

theorem released_then (b : BufId) (f : Int → Steps α) (k t : Kernel) (made : List Note) (a : α)
    (done : (brelease b >>= f).Returns k made a t) :
    ∃ r u rest, (Yaup.brelease b).run k = .ok r u ∧ (f r).Returns u rest a t ∧ made = .gives b :: rest := by
  obtain ⟨r, u, first, rest, released, after, same⟩ := (Prog.returns_bind _ _ _ _ _ _ _ _).mp done
  obtain ⟨one, ran⟩ := brelease_notes b k u first r released
  rw [one] at same
  exact ⟨r, u, rest, ran, after, same⟩

theorem wrote_then (b : BufId) (f : Int → Steps α) (k t : Kernel) (made : List Note) (a : α)
    (done : (bwrite b >>= f).Returns k made a t) :
    ∃ r u rest, (f r).Returns u rest a t ∧ made = .gives b :: rest := by
  obtain ⟨r, u, first, rest, wrote, after, same⟩ := (Prog.returns_bind _ _ _ _ _ _ _ _).mp done
  rw [bwrite_notes b k u first r wrote] at same
  exact ⟨r, u, rest, after, same⟩

theorem locked_then (l : Lock) (f : Unit → Steps α) (k t : Kernel) (made : List Note) (a : α)
    (done : Returns (Prog.acquire l >>= f) k made a t) : ∃ u, Returns (f ()) u made a t := by
  obtain ⟨_, u, taken, rest⟩ := Prog.returns_silent _ _ _ _ _ _ _ _ (Prog.silent_acquire _ _ l) done
  exact ⟨u, rest⟩

theorem unlocked_end (l : Lock) (c : α) (k t : Kernel) (made : List Note) (a : α)
    (done : Returns (Prog.release l >>= fun _ => pure c) k made a t) : made = [] := by
  obtain ⟨_, u, given, rest⟩ := Prog.returns_silent _ _ _ _ _ _ _ _ (Prog.silent_release _ _ l) done
  exact ((Prog.returns_pure _ _ _ _ _ _ _).mp rest).2.2

theorem iget_balanced (dev : Dev) (num : Ino) (k t : Kernel) (made : List Note) (i : InodeId)
    (done : (iget dev num).Returns k made i t) : Lib.Balanced made := by
  obtain ⟨s, searched⟩ := locked_then _ _ _ _ _ _ done
  replace searched := state_then _ _ _ _ _ searched
  revert searched
  generalize igetLoop s dev num = found
  intro searched
  rcases found with j | _ | free
  · rw [unlocked_end _ _ _ _ _ _ searched]
    exact balanced_nil
  · exact absurd searched (Prog.returns_halt _ _ _ _ _ _ _)
  · unfold igetFound igetLoad at searched
    replace searched := state_then _ _ _ _ _ searched
    obtain ⟨b, u, notes, -, loading, rfl⟩ := read_then _ _ _ _ _ _ _ searched
    replace loading := change_then _ _ _ _ _ _ loading
    replace loading := change_then _ _ _ _ _ _ loading
    replace loading := change_then _ _ _ _ _ _ loading
    replace loading := change_then _ _ _ _ _ _ loading
    obtain ⟨_, v, unlocked, loaded⟩ := Prog.returns_silent _ _ _ _ _ _ _ _ (Prog.silent_release _ _ _) loading
    obtain ⟨r, w, last, -, closing, rfl⟩ := released_then _ _ _ _ _ _ loaded
    rw [unlocked_end _ _ _ _ _ _ closing]
    exact balanced_pair b

theorem iput_notes (i : InodeId) (k t : Kernel) (made : List Note) (r : Int) (done : (iput i).Returns k made r t) :
    ((k.inodes i).iFlag &&& idirt = 0 ∧ made = []) ∨
      ((k.inodes i).iFlag &&& idirt ≠ 0 ∧ ∃ b, made = [.gets b, .gives b]) := by
  obtain ⟨_, s, taken, putting⟩ := Prog.returns_silent _ _ _ _ _ _ _ _ (Prog.silent_acquire _ _ (Lock.ino i)) done
  obtain ⟨-, rfl⟩ := acquire_ok k s (Lock.ino i) ((congrArg (EStateM.run · k) (alone_acquire (Lock.ino i))).symm.trans taken)
  replace putting := state_then _ _ _ _ _ putting
  simp only [Kernel.lock_inodes] at putting
  split at putting
  · rename_i dirty
    obtain ⟨b, u, notes, -, storing, rfl⟩ := read_then _ _ _ _ _ _ _ putting
    replace storing := change_then _ _ _ _ _ _ storing
    obtain ⟨q, v, last, closing, rfl⟩ := wrote_then _ _ _ _ _ _ storing
    replace closing := change_then _ _ _ _ _ _ closing
    replace closing := change_then _ _ _ _ _ _ closing
    rw [unlocked_end _ _ _ _ _ _ closing]
    exact .inr ⟨dirty, b, rfl⟩
  · rename_i clean
    exact .inl ⟨not_not.mp clean, ((Prog.returns_pure _ _ _ _ _ _ _).mp putting).2.2⟩

theorem iput_balanced (i : InodeId) (k t : Kernel) (made : List Note) (r : Int)
    (done : (iput i).Returns k made r t) : Lib.Balanced made := by
  rcases iput_notes i k t made r done with ⟨-, rfl⟩ | ⟨-, b, rfl⟩
  · exact balanced_nil
  · exact balanced_pair b

theorem ifree_notes (i : InodeId) (k t : Kernel) (made : List Note) (r : Int)
    (done : (ifree i).Returns k made r t) : ∃ b, made = [.gets b, .gives b] := by
  obtain ⟨s, clearing⟩ := locked_then _ _ _ _ _ _ done
  replace clearing := state_then _ _ _ _ _ clearing
  obtain ⟨b, u, notes, -, storing, rfl⟩ := read_then _ _ _ _ _ _ _ clearing
  replace storing := change_then _ _ _ _ _ _ storing
  obtain ⟨q, v, last, closing, rfl⟩ := wrote_then _ _ _ _ _ _ storing
  rw [unlocked_end _ _ _ _ _ _ closing]
  exact ⟨b, rfl⟩

theorem ifree_balanced (i : InodeId) (k t : Kernel) (made : List Note) (r : Int)
    (done : (ifree i).Returns k made r t) : Lib.Balanced made := by
  obtain ⟨b, rfl⟩ := ifree_notes i k t made r done
  exact balanced_pair b

theorem bfree_balanced (setPosAt : UInt8 → UInt64 → Option (Kernel → Kernel)) (dev : Dev) (blk : Blk) (k t : Kernel)
    (made : List Note) (r : Int) (done : (bfree setPosAt dev blk).Returns k made r t) : Lib.Balanced made := by
  unfold bfree at done
  replace done := state_then _ _ _ _ _ done
  obtain ⟨b, u, notes, -, setting, rfl⟩ := read_then _ _ _ _ _ _ _ done
  replace setting := state_then _ _ _ _ _ setting
  revert setting
  generalize setPosAt (dataByte u b (blk.toNat % sizeofBitmap)) _ = write
  intro setting
  cases write with
  | none => exact absurd setting (Prog.returns_halt _ _ _ _ _ _ _)
  | some write =>
      dsimp only at setting
      replace setting := change_then _ _ _ _ _ _ setting
      obtain ⟨q, w, last, -, closing, rfl⟩ := released_then _ _ _ _ _ _ setting
      rw [((Prog.returns_pure _ _ _ _ _ _ _).mp closing).2.2]
      exact balanced_pair b

theorem ialloc_loop_net (getFreePos : Block → UInt64) (unset : Option InodeId) (dev : Dev) (left c : Nat)
    (k t : Kernel) (made : List Note) (answer : Option InodeId)
    (done : (iallocLoop getFreePos unset dev left c).Returns k made answer t) :
    (UInt64.ofNat c < (k.superblock dev).sFreeInoLen → 0 < net made) ∧
      (¬UInt64.ofNat c < (k.superblock dev).sFreeInoLen → made = []) := by
  induction left generalizing c k made with
  | zero => exact absurd done (Prog.returns_halt _ _ _ _ _ _ _)
  | succ left ih =>
      unfold iallocLoop at done
      replace done := state_then _ _ _ _ _ done
      by_cases more : UInt64.ofNat c < (k.superblock dev).sFreeInoLen
      · refine ⟨fun _ => ?_, fun last => absurd more last⟩
        rw [if_pos more] at done
        obtain ⟨b, u, notes, -, searching, rfl⟩ := read_then _ _ _ _ _ _ _ done
        rw [net_gets]
        replace searching := state_then _ _ _ _ _ searching
        dsimp only at searching
        split at searching
        · obtain ⟨i, v, first, second, got, last, rfl⟩ := (Prog.returns_bind _ _ _ _ _ _ _ _).mp searching
          obtain ⟨-, -, rfl⟩ := (Prog.returns_pure _ _ _ _ _ _ _).mp last
          rw [List.append_nil, balanced_net first (iget_balanced dev _ u v first i got)]
          exact Int.zero_lt_one
        · obtain ⟨most, none_left⟩ := ih (c + 1) u notes searching
          by_cases again : UInt64.ofNat (c + 1) < (u.superblock dev).sFreeInoLen
          · have several := most again
            omega
          · rw [none_left again, net_nil]
            exact Int.zero_lt_one
      · refine ⟨fun less => absurd less more, fun _ => ?_⟩
        rw [if_neg more] at done
        exact ((Prog.returns_pure _ _ _ _ _ _ _).mp done).2.2

theorem ialloc_balanced_iff (getFreePos : Block → UInt64) (unset : Option InodeId) (dev : Dev) (k t : Kernel)
    (made : List Note) (answer : Option InodeId) (done : (ialloc getFreePos unset dev).Returns k made answer t) :
    Lib.Balanced made ↔ (k.superblock dev).sFreeInoLen = 0 := by
  obtain ⟨keeps, reads⟩ := ialloc_loop_net getFreePos unset dev _ 0 k t made answer done
  constructor
  · intro balanced
    by_contra some
    have kept := keeps (UInt64.pos_iff_ne_zero.mpr some)
    rw [balanced_net made balanced] at kept
    exact Int.lt_irrefl 0 kept
  · intro empty
    rw [reads (by rw [empty]; exact UInt64.not_lt_zero)]
    exact balanced_nil

end Steps

def Lacks (ip : InodeId) (entry : List UInt8) : List Nat → Kernel → Prop
  | [], _ => True
  | n :: rest, k => ∀ b s, (bread (k.inodes ip).iDev ((k.inodes ip).addr n)).run k = .ok b s →
      searchBlock s b entry = none ∧ Lacks ip entry rest (s.released b)

namespace Steps

theorem dir_search_net (ip : InodeId) (entry : List UInt8) (slots : List Nat) (k t : Kernel) (made : List Note)
    (found : Option (Dev × Ino)) (done : (dirSearch ip entry slots).Returns k made found t) :
    (found = none → Lib.Balanced made ∧ Lacks ip entry slots k) ∧
      (found ≠ none → net made = 1 ∧ ¬Lacks ip entry slots k) := by
  induction slots generalizing k made with
  | nil =>
      obtain ⟨rfl, -, rfl⟩ := (Prog.returns_pure _ _ _ _ _ _ _).mp done
      exact ⟨fun _ => ⟨balanced_nil, trivial⟩, fun some => absurd rfl some⟩
  | cons n rest ih =>
      unfold dirSearch at done
      replace done := state_then _ _ _ _ _ done
      obtain ⟨b, u, notes, ran, searching, rfl⟩ := read_then _ _ _ _ _ _ _ done
      replace searching := state_then _ _ _ _ _ searching
      revert searching
      generalize searched : searchBlock u b entry = answer
      intro searching
      cases answer with
      | some num =>
          obtain ⟨rfl, -, rfl⟩ := (Prog.returns_pure _ _ _ _ _ _ _).mp searching
          refine ⟨fun none => (Option.some_ne_none _ none).elim, fun _ => ⟨net_gets b [], fun lacks => ?_⟩⟩
          have absent := (lacks b u ran).1
          rw [searched] at absent
          cases absent
      | none =>
          obtain ⟨r, v, last, gave, later, rfl⟩ := released_then _ _ _ _ _ _ searching
          rw [brelease_used u b (bread_counted _ u _ _ b ran)] at gave
          cases gave
          obtain ⟨absent, present⟩ := ih _ last later
          have here : Lacks ip entry (n :: rest) k ↔ Lacks ip entry rest (u.released b) := by
            constructor
            · intro lacks
              exact (lacks b u ran).2
            · intro lacks c s again
              rw [ran] at again
              cases again
              exact ⟨searched, lacks⟩
          rw [here, net_gets, net_gives]
          refine ⟨fun none => ?_, fun some => ?_⟩
          · obtain ⟨balanced, lacks⟩ := absent none
            exact ⟨balanced_append _ last (balanced_pair b) balanced, lacks⟩
          · obtain ⟨one, holds⟩ := present some
            exact ⟨by omega, holds⟩

theorem dir_lookup_net (ip : InodeId) (entry : List UInt8) (k t : Kernel) (made : List Note)
    (answer : Option InodeId) (done : (dirLookup ip entry).Returns k made answer t) :
    (Lib.Balanced made ↔ Lacks ip entry (List.range ndirect) k) ∧ (answer ≠ none → net made = 1) := by
  obtain ⟨found, s, first, second, searched, after, rfl⟩ := (Prog.returns_bind _ _ _ _ _ _ _ _).mp done
  obtain ⟨absent, present⟩ := dir_search_net ip entry _ k s first found searched
  cases found with
  | none =>
      obtain ⟨rfl, -, rfl⟩ := (Prog.returns_pure _ _ _ _ _ _ _).mp after
      obtain ⟨balanced, lacks⟩ := absent rfl
      rw [List.append_nil]
      exact ⟨iff_of_true balanced lacks, fun some => absurd rfl some⟩
  | some key =>
      obtain ⟨i, u, third, fourth, got, last, rfl⟩ := (Prog.returns_bind _ _ _ _ _ _ _ _).mp after
      obtain ⟨rfl, -, rfl⟩ := (Prog.returns_pure _ _ _ _ _ _ _).mp last
      obtain ⟨one, holds⟩ := present (Option.some_ne_none key)
      have kept : net (first ++ (third ++ [])) = 1 := by
        rw [List.append_nil, net_append, one, balanced_net third (iget_balanced key.1 key.2 s u third i got)]
        rfl
      refine ⟨iff_of_false (fun balanced => ?_) holds, fun _ => kept⟩
      rw [balanced_net _ balanced] at kept
      cases kept

theorem namei_loop_net (start : Option InodeId) (path : List UInt8) (k t : Kernel) (made : List Note) (i : InodeId)
    (done : (nameiLoop start path).Returns k made i t) :
    (path.head? = some 0 → made = []) ∧ (path.head? ≠ some 0 → 0 < net made) := by
  fun_induction nameiLoop start path generalizing k made with
  | case1 start => exact absurd done (Prog.returns_halt _ _ _ _ _ _ _)
  | case2 more ip =>
      obtain ⟨-, -, rfl⟩ := (Prog.returns_pure _ _ _ _ _ _ _).mp done
      exact ⟨fun _ => rfl, fun named => absurd rfl named⟩
  | case3 more => exact absurd done (Prog.returns_halt _ _ _ _ _ _ _)
  | case4 start byte more named found => exact absurd done (Prog.returns_halt _ _ _ _ _ _ _)
  | case5 byte more named entry rest found => exact absurd done (Prog.returns_halt _ _ _ _ _ _ _)
  | case6 byte more named entry rest found ip ih =>
      obtain ⟨answer, u, first, second, looked, after, rfl⟩ := (Prog.returns_bind _ _ _ _ _ _ _ _).mp done
      obtain ⟨-, kept⟩ := dir_lookup_net ip entry k u first answer looked
      cases answer with
      | none => exact absurd after (Prog.returns_halt _ _ _ _ _ _ _)
      | some j =>
          have one := kept (Option.some_ne_none j)
          obtain ⟨ends, goes⟩ := ih j u second after
          refine ⟨fun last => absurd (Option.some.inj last) named, fun _ => ?_⟩
          rw [net_append, one]
          by_cases last : (rest.drop 1).head? = some 0
          · rw [ends last, net_nil]
            exact Int.zero_lt_one
          · have more := goes last
            omega

theorem namei_balanced_iff (path : List UInt8) (k t : Kernel) (made : List Note) (i : InodeId)
    (done : (namei path).Returns k made i t) :
    Lib.Balanced made ↔ ∃ more, path = 0 :: more ∨ path = 47 :: 0 :: more := by
  replace done := state_then _ _ _ _ _ done
  have kept : ∀ start (rest : List UInt8), (nameiLoop start rest).Returns k made i t →
      (Lib.Balanced made ↔ rest.head? = some 0) := by
    intro start rest ran
    obtain ⟨ends, goes⟩ := namei_loop_net start rest k t made i ran
    by_cases last : rest.head? = some 0
    · rw [ends last]
      exact iff_of_true balanced_nil last
    · refine iff_of_false (fun balanced => ?_) last
      have some := goes last
      rw [balanced_net made balanced] at some
      exact Int.lt_irrefl 0 some
  cases path with
  | nil => exact absurd done (Prog.returns_halt _ _ _ _ _ _ _)
  | cons byte rest =>
      dsimp only at done
      by_cases slash : byte = 47
      · rw [if_pos slash] at done
        rw [kept _ _ done, List.head?_eq_some_iff]
        simp [slash]
      · rw [if_neg slash] at done
        rw [kept _ _ done, List.head?_eq_some_iff]
        simp [slash]

theorem file_block_notes (f : FileId) (k t : Kernel) (made : List Note) (b : BufId)
    (done : (fileBlock f).Returns k made b t) : made = [.gets b] := by
  replace done := state_then _ _ _ _ _ done
  revert done
  generalize fileKey k f = key
  intro done
  cases key with
  | none => exact absurd done (Prog.returns_halt _ _ _ _ _ _ _)
  | some key => exact (bread_notes key.1 key.2 k t made b done).1

theorem read_loop_net (f : FileId) (n : Nat) (b : BufId) (i : Fin blkSz) (k t : Kernel) (made : List Note)
    (data : Bytes) (done : (readLoop f n b i).Returns k made data t) : net made = 0 := by
  induction n generalizing b i k t made data with
  | zero =>
      obtain ⟨-, -, rfl⟩ := (Prog.returns_pure _ _ _ _ _ _ _).mp done
      exact net_nil
  | succ n ih =>
      unfold readLoop at done
      replace done := state_then _ _ _ _ _ done
      replace done := change_then _ _ _ _ _ _ done
      split at done
      · obtain ⟨rest, u, first, second, ran, after, rfl⟩ := (Prog.returns_bind _ _ _ _ _ _ _ _).mp done
        obtain ⟨-, -, rfl⟩ := (Prog.returns_pure _ _ _ _ _ _ _).mp after
        rw [List.append_nil]
        exact ih _ _ _ _ _ _ ran
      · obtain ⟨r, u, last, -, turning, rfl⟩ := released_then _ _ _ _ _ _ done
        obtain ⟨c, v, first, second, shown, turned, rfl⟩ := (Prog.returns_bind _ _ _ _ _ _ _ _).mp turning
        obtain rfl := file_block_notes f u v first c shown
        replace turned := state_then _ _ _ _ _ turned
        obtain ⟨rest, w, third, fourth, ran, after, rfl⟩ := (Prog.returns_bind _ _ _ _ _ _ _ _).mp turned
        obtain ⟨-, -, rfl⟩ := (Prog.returns_pure _ _ _ _ _ _ _).mp after
        rw [List.append_nil, List.cons_append, List.nil_append, net_gives, net_gets, ih _ _ _ _ _ _ ran]
        rfl

theorem sys_read_net (unset : Unset) (fd : Int) (buffsize : UInt64) (k t : Kernel) (made : List Note)
    (answer : Int × Bytes) (done : (sysRead unset fd buffsize).Returns k made answer t) : net made = 1 := by
  unfold sysRead at done
  revert done
  generalize unset.clamp = clamp
  intro done
  cases clamp with
  | none => exact absurd done (Prog.returns_halt _ _ _ _ _ _ _)
  | some pair =>
      obtain ⟨f, s, opened, reading⟩ := Prog.returns_silent _ _ _ _ _ _ _ _ (open_file_silent unset fd _ _ _ _ _) done
      replace reading := state_then _ _ _ _ _ reading
      generalize (if fread = 0 then (1 : UInt8) else 0) = mask at reading
      dsimp only at reading
      split at reading
      · exact absurd reading (Prog.returns_halt _ _ _ _ _ _ _)
      · obtain ⟨b, u, first, second, shown, after, rfl⟩ := (Prog.returns_bind _ _ _ _ _ _ _ _).mp reading
        obtain rfl := file_block_notes f s u first b shown
        replace after := state_then _ _ _ _ _ after
        obtain ⟨data, v, third, fourth, ran, last, rfl⟩ := (Prog.returns_bind _ _ _ _ _ _ _ _).mp after
        obtain ⟨-, -, rfl⟩ := (Prog.returns_pure _ _ _ _ _ _ _).mp last
        rw [List.append_nil, List.cons_append, List.nil_append, net_gets, read_loop_net f _ b _ u v third data ran]
        rfl

section
variable (balloc : Dev → Steps BufId)

theorem new_block_notes (silent : ∀ dev, Silent (balloc dev)) (f : FileId) (k t : Kernel) (made : List Note)
    (b : BufId) (done : (newBlock balloc f).Returns k made b t) : made = [.gets b] := by
  replace done := state_then _ _ _ _ _ done
  revert done
  generalize (k.files f).fInode = inode
  intro done
  cases inode with
  | none => exact absurd done (Prog.returns_halt _ _ _ _ _ _ _)
  | some ip =>
      obtain ⟨c, u, got, after⟩ := Prog.returns_silent _ _ _ _ _ _ _ _ (silent _) done
      obtain ⟨rest, last, rfl⟩ := (Prog.returns_tell _ _ _ _ _ _ _ _).mp after
      obtain ⟨rfl, -, rfl⟩ := (Prog.returns_pure _ _ _ _ _ _ _).mp last
      rfl

theorem write_loop_net (silent : ∀ dev, Silent (balloc dev)) (f : FileId) (data : Bytes) (b : BufId)
    (i : Fin blkSz) (k t : Kernel) (made : List Note) (blocks : List Blk)
    (done : (writeLoop balloc f data b i).Returns k made blocks t) : net made = 0 := by
  induction data generalizing b i k t made blocks with
  | nil =>
      obtain ⟨-, -, rfl⟩ := (Prog.returns_pure _ _ _ _ _ _ _).mp done
      exact net_nil
  | cons byte rest ih =>
      unfold writeLoop at done
      replace done := change_then _ _ _ _ _ _ done
      split at done
      · exact ih _ _ _ _ _ _ done
      · replace done := change_then _ _ _ _ _ _ done
        obtain ⟨r, u, last, -, turning, rfl⟩ := released_then _ _ _ _ _ _ done
        obtain ⟨c, v, first, second, got, turned, rfl⟩ := (Prog.returns_bind _ _ _ _ _ _ _ _).mp turning
        obtain rfl := new_block_notes balloc silent f u v first c got
        replace turned := state_then _ _ _ _ _ turned
        obtain ⟨later, w, third, fourth, ran, after, rfl⟩ := (Prog.returns_bind _ _ _ _ _ _ _ _).mp turned
        obtain ⟨-, -, rfl⟩ := (Prog.returns_pure _ _ _ _ _ _ _).mp after
        rw [List.append_nil, List.cons_append, List.nil_append, net_gives, net_gets, ih _ _ _ _ _ _ ran]
        rfl

theorem sys_write_net (silent : ∀ dev, Silent (balloc dev)) (unset : Unset) (fd : Int) (buf : Bytes) (k t : Kernel)
    (made : List Note) (answer : Int × List Blk) (done : (sysWrite balloc unset fd buf).Returns k made answer t) :
    net made = 1 := by
  obtain ⟨f, s, opened, writing⟩ := Prog.returns_silent _ _ _ _ _ _ _ _ (open_file_silent unset fd _ _ _ _ _) done
  replace writing := state_then _ _ _ _ _ writing
  generalize (if fwrt = 0 then (1 : UInt8) else 0) = mask at writing
  dsimp only at writing
  split at writing
  · exact absurd writing (Prog.returns_halt _ _ _ _ _ _ _)
  · obtain ⟨b, u, first, second, shown, after, rfl⟩ := (Prog.returns_bind _ _ _ _ _ _ _ _).mp writing
    obtain rfl := file_block_notes f s u first b shown
    replace after := state_then _ _ _ _ _ after
    obtain ⟨fresh, v, third, fourth, ran, last, rfl⟩ := (Prog.returns_bind _ _ _ _ _ _ _ _).mp after
    obtain ⟨-, -, rfl⟩ := (Prog.returns_pure _ _ _ _ _ _ _).mp last
    rw [List.append_nil, List.cons_append, List.nil_append, net_gets,
      write_loop_net balloc silent f buf b _ u v third fresh ran]
    rfl

end

end Steps

inductive BufferCall where
  | iget (dev : Dev) (num : Ino)
  | ialloc (getFreePos : Block → UInt64) (unset : Option InodeId) (dev : Dev)
  | ifree (i : InodeId)
  | iput (i : InodeId)
  | bfree (setPosAt : UInt8 → UInt64 → Option (Kernel → Kernel)) (dev : Dev) (blk : Blk)
  | dirLookup (ip : InodeId) (entry : List UInt8)
  | namei (path : List UInt8)
  | sysRead (unset : Unset) (fd : Int) (buffsize : UInt64)
  | sysWrite (balloc : Dev → Steps BufId) (unset : Unset) (fd : Int) (buf : Bytes)

def BufferCall.run : BufferCall → Kern Unit
  | .iget dev num => discard (Yaup.iget dev num)
  | .ialloc getFreePos unset dev => discard (Yaup.ialloc getFreePos unset dev)
  | .ifree i => discard (Yaup.ifree i)
  | .iput i => discard (Yaup.iput i)
  | .bfree setPosAt dev blk => discard (Yaup.bfree setPosAt dev blk)
  | .dirLookup ip entry => discard (Yaup.dirLookup ip entry)
  | .namei path => discard (Yaup.namei path)
  | .sysRead unset fd buffsize => discard (Yaup.sysRead unset fd buffsize)
  | .sysWrite balloc unset fd buf => discard (Yaup.sysWrite (fun dev => (balloc dev).alone) unset fd buf)

-- Of balloc only the buffer it answers sys_write with is noted.
def BufferCall.steps : BufferCall → Steps Unit
  | .iget dev num => (Steps.iget dev num).only
  | .ialloc getFreePos unset dev => (Steps.ialloc getFreePos unset dev).only
  | .ifree i => (Steps.ifree i).only
  | .iput i => (Steps.iput i).only
  | .bfree setPosAt dev blk => (Steps.bfree setPosAt dev blk).only
  | .dirLookup ip entry => (Steps.dirLookup ip entry).only
  | .namei path => (Steps.namei path).only
  | .sysRead unset fd buffsize => (Steps.sysRead unset fd buffsize).only
  | .sysWrite balloc unset fd buf => (Steps.sysWrite (fun dev => (balloc dev).quiet) unset fd buf).only

theorem buffer_call_alone (call : BufferCall) : call.steps.alone = call.run := by
  cases call with
  | iget dev num => exact Steps.alone_only _ _ (Steps.alone_iget dev num)
  | ialloc getFreePos unset dev => exact Steps.alone_only _ _ (Steps.alone_ialloc getFreePos unset dev)
  | ifree i => exact Steps.alone_only _ _ (Steps.alone_ifree i)
  | iput i => exact Steps.alone_only _ _ (Steps.alone_iput i)
  | bfree setPosAt dev blk => exact Steps.alone_only _ _ (Steps.alone_bfree setPosAt dev blk)
  | dirLookup ip entry => exact Steps.alone_only _ _ (Steps.alone_dir_lookup ip entry)
  | namei path => exact Steps.alone_only _ _ (Steps.alone_namei path)
  | sysRead unset fd buffsize => exact Steps.alone_only _ _ (Steps.alone_sys_read unset fd buffsize)
  | sysWrite balloc unset fd buf =>
      have main := Steps.alone_sys_write (fun dev => (balloc dev).quiet) unset fd buf
      have quiet : ∀ dev, Steps.alone (balloc dev).quiet = (balloc dev).alone := fun dev => Prog.quiet_alone _ _ _
      simp only [quiet] at main
      exact Steps.alone_only _ _ main

def GivesAll (k : Kernel) : BufferCall → Prop
  | .iget _ _ | .ifree _ | .iput _ | .bfree _ _ _ => True
  | .ialloc _ _ dev => (k.superblock dev).sFreeInoLen = 0
  | .dirLookup ip entry => Lacks ip entry (List.range ndirect) k
  | .namei path => ∃ more, path = 0 :: more ∨ path = 47 :: 0 :: more
  | .sysRead _ _ _ | .sysWrite _ _ _ _ => False

theorem only_returns {α : Type} (x : Steps α) (k t : Kernel) (made : List Note) (done : x.only.Returns k made () t) :
    ∃ a, x.Returns k made a t := by
  obtain ⟨a, u, first, rest, ran, after, rfl⟩ := (Prog.returns_bind _ _ _ _ _ _ _ _).mp done
  obtain ⟨-, rfl, rfl⟩ := (Prog.returns_pure _ _ _ _ _ _ _).mp after
  rw [List.append_nil]
  exact ⟨a, ran⟩

theorem one_not_balanced (made : List Note) (one : net made = 1) : ¬Lib.Balanced made := by
  intro balanced
  rw [balanced_net made balanced] at one
  cases one

theorem call_balanced_iff (call : BufferCall) (k t : Kernel) (made : List Note)
    (done : call.steps.Returns k made () t) : Lib.Balanced made ↔ GivesAll k call := by
  cases call with
  | iget dev num =>
      obtain ⟨i, ran⟩ := only_returns _ k t made done
      exact iff_of_true (Steps.iget_balanced dev num k t made i ran) trivial
  | ialloc getFreePos unset dev =>
      obtain ⟨answer, ran⟩ := only_returns _ k t made done
      exact Steps.ialloc_balanced_iff getFreePos unset dev k t made answer ran
  | ifree i =>
      obtain ⟨r, ran⟩ := only_returns _ k t made done
      exact iff_of_true (Steps.ifree_balanced i k t made r ran) trivial
  | iput i =>
      obtain ⟨r, ran⟩ := only_returns _ k t made done
      exact iff_of_true (Steps.iput_balanced i k t made r ran) trivial
  | bfree setPosAt dev blk =>
      obtain ⟨r, ran⟩ := only_returns _ k t made done
      exact iff_of_true (Steps.bfree_balanced setPosAt dev blk k t made r ran) trivial
  | dirLookup ip entry =>
      obtain ⟨answer, ran⟩ := only_returns _ k t made done
      exact (Steps.dir_lookup_net ip entry k t made answer ran).1
  | namei path =>
      obtain ⟨i, ran⟩ := only_returns _ k t made done
      exact Steps.namei_balanced_iff path k t made i ran
  | sysRead unset fd buffsize =>
      obtain ⟨answer, ran⟩ := only_returns _ k t made done
      exact iff_of_false (one_not_balanced made (Steps.sys_read_net unset fd buffsize k t made answer ran)) id
  | sysWrite balloc unset fd buf =>
      obtain ⟨answer, ran⟩ := only_returns _ k t made done
      have silent : ∀ dev, Steps.Silent (balloc dev).quiet := fun dev s => Prog.quiet_notes _ _ _ s
      exact iff_of_false (one_not_balanced made
        (Steps.sys_write_net _ silent unset fd buf k t made answer ran)) id

theorem call_returns (call : BufferCall) (k t : Kernel) (ran : call.run.run k = .ok () t) :
    ∃ made, call.steps.Returns k made () t := by
  rw [← buffer_call_alone call] at ran
  exact ⟨_, ran, rfl⟩

structure BufferUse where
  p : Pid
  wild : Wild
  call : BufferCall
  made : List Note

def BufferUses (k : Kernel) (use : BufferUse) (t : Kernel) : Prop :=
  use.call.steps.Returns (begun k use.p use.wild) use.made () t

def BufferUse.GivesAll (k : Kernel) (use : BufferUse) : Prop := Yaup.GivesAll (begun k use.p use.wild) use.call

theorem buffers_given_back_iff (first last : Kernel) (moves : List (Move Kernel BufferUse))
    (run : Run BufferUses first moves last) :
    (∀ move ∈ moves, Lib.Balanced move.act.made ↔ move.act.GivesAll move.before) ∧
      ((∀ move ∈ moves, move.act.GivesAll move.before) → Lib.Balanced (moves.flatMap fun move => move.act.made)) := by
  have each : ∀ move ∈ moves, Lib.Balanced move.act.made ↔ move.act.GivesAll move.before := by
    intro move member
    have done := run_moves_taken _ first last moves run move member
    exact call_balanced_iff move.act.call _ move.after move.act.made done
  exact ⟨each, fun gives => balanced_flat_map moves _ fun move member => (each move member).mpr (gives move member)⟩

-- A byte written to a file of ten bytes: the buffer of its block is never given back.
theorem sys_write_keeps_buffer :
    ¬∀ (call : BufferCall) (k t : Kernel) (made : List Note), call.steps.Returns k made () t → Lib.Balanced made := by
  intro claim
  obtain ⟨b, s, -, ran⟩ := sys_write_within (tenByteFile 0) 3 0 0 (fun dev => (Steps.bget dev 6).alone) setLocals [97]
    (ten_byte_file_open 0 (by decide)) (ten_byte_file_ready 0) ⟨tenBytes, rfl, by decide⟩ (by decide)
  let call : BufferCall := .sysWrite (fun dev => Steps.bget dev 6) setLocals 3 [97]
  have done : call.run.run (tenByteFile 0) = .ok () _ := discard_run _ _ _ _ ran
  obtain ⟨made, returns⟩ := call_returns call _ _ done
  exact (call_balanced_iff call _ _ made returns).mp (claim call _ _ made returns)

structure FirstInode (k : Kernel) : Prop where
  table : k.locks .buffer = none
  loose : k.locks (.buf 0) = none
  slot : k.locks (.ino 0) = none
  super : k.superblock = Kernel.zero.superblock
  named : (k.inodes 0).named = (0, 0)
  key : (k.blocks 0).key = (0, 0)
  clean : (k.blocks 0).bDirty = false

section
variable (k : Kernel) (first : FirstInode k)
include first

theorem first_inode_place : (k.inodes 0).iDev = 0 ∧ tableBlk k (k.inodes 0).iDev (k.inodes 0).iNum = 0 := by
  obtain ⟨onDev, onNum⟩ := Prod.ext_iff.mp first.named
  refine ⟨onDev, ?_⟩
  rw [show (k.inodes 0).iDev = 0 from onDev, show (k.inodes 0).iNum = 0 from onNum, tableBlk, first.super]
  rfl

theorem first_inode_read : ∃ x : Buffer, x.key = (0, 0) ∧ x.bDirty = false ∧
    (bread 0 0).run (k.lock (.ino 0)) = .ok 0 ((k.lock (.ino 0)).setBlock 0 x) := by
  have hit : findBlock (k.lock (.ino 0)) 0 0 = some 0 :=
    (find_block_some _ 0 0 0).mpr ⟨first.key, fun c below => absurd below (Fin.not_lt_zero c)⟩
  by_cases zero : (k.blocks 0).bCount = 0
  · refine ⟨(k.blocks 0).fill (k.disk (0, 0)), first.key, first.clean, ?_⟩
    exact bread_reload (k.lock (.ino 0)) 0 0 0 first.table hit zero
  · refine ⟨k.blocks 0, first.key, first.clean, ?_⟩
    rw [bread_held (k.lock (.ino 0)) 0 0 0 first.table hit zero, Kernel.setBlock, ← Kernel.lock_blocks k (.ino 0),
      Function.update_eq_self]

theorem first_inode_written (x : Buffer) (loose : x.bDirty = false) :
    (bwrite 0).run ((k.lock (.ino 0)).setBlock 0 x) = .ok 0 ((k.lock (.ino 0)).setBlock 0 x) := by
  rw [bwrite_run, if_pos (by simp [first.loose])]
  simp [loose]

theorem first_inode_iput (dirty : (k.inodes 0).iFlag &&& idirt ≠ 0) : ∃ t, (iput 0).run k = .ok 0 t ∧ FirstInode t := by
  obtain ⟨onDev, place⟩ := first_inode_place k first
  obtain ⟨x, key, clean, read⟩ := first_inode_read k first
  rw [← onDev, ← place] at read
  have wrote := first_inode_written k first { x with
    bData := storeRecord sizeofDInode x.bData (k.inodes 0).iNum (k.inodes 0).toDInode.bytes } clean
  refine ⟨_, iput_stored k _ _ 0 0 0 first.slot dirty read ((congrArg (bwrite 0).run ?_).trans wrote), ?_⟩
  · simp [Kernel.storeInode, Kernel.setBlock]
  · exact ⟨first.table, by simp [Kernel.wroteInode, first.loose], by simp [Kernel.wroteInode], first.super,
      by simpa [Kernel.wroteInode, Inode.written, Inode.named] using first.named,
      by simpa [Kernel.wroteInode, Buffer.key] using key, by simpa [Kernel.wroteInode] using clean⟩

theorem first_inode_ifree : ∃ t, (ifree 0).run k = .ok 0 t := by
  obtain ⟨onDev, place⟩ := first_inode_place k first
  obtain ⟨x, key, clean, read⟩ := first_inode_read k first
  have wrote := first_inode_written k first { x with bData := clearRecord sizeofDInode x.bData (k.inodes 0).iNum } clean
  have cleared : ((k.lock (.ino 0)).setBlock 0 x).clearInode 0 0 =
      (k.lock (.ino 0)).setBlock 0 { x with bData := clearRecord sizeofDInode x.bData (k.inodes 0).iNum } := by
    simp [Kernel.clearInode, Steps.set_block_twice]
  rw [ifree_free k 0 first.slot, place, onDev, read]
  simp only [cleared, wrote]
  exact ⟨_, rfl⟩

end

theorem first_inode_begun (k : Kernel) (p : Pid) (w : Wild) (first : FirstInode k) : FirstInode (begun k p w) :=
  ⟨first.table, first.loose, first.slot, first.super, first.named, first.key, first.clean⟩

def dirtyInode : Kernel := Kernel.zero.setInode 0 { Kernel.zero.inodes 0 with iFlag := idirt, iCount := 1 }

theorem buffers_given_back_dirty :
    ∃ (moves : List (Move Kernel BufferUse)) (last : Kernel), moves.length = 2 ∧ Run BufferUses dirtyInode moves last ∧
      (∀ move ∈ moves, ∃ b, move.act.made = [.gets b, .gives b]) ∧
      (∀ move ∈ moves, Lib.Balanced move.act.made ↔ move.act.GivesAll move.before) ∧
      Lib.Balanced (moves.flatMap fun move => move.act.made) := by
  have start : FirstInode dirtyInode := ⟨rfl, rfl, rfl, rfl, rfl, rfl, rfl⟩
  have flagged : ((begun dirtyInode 0 Kernel.zero.wild).inodes 0).iFlag &&& idirt ≠ 0 := by decide
  obtain ⟨s, put, after⟩ := first_inode_iput _ (first_inode_begun _ 0 Kernel.zero.wild start) flagged
  obtain ⟨t, freed⟩ := first_inode_ifree _ (first_inode_begun s 0 Kernel.zero.wild after)
  obtain ⟨one, puts⟩ := call_returns (.iput 0) _ _ (discard_run _ _ _ _ put)
  obtain ⟨two, frees⟩ := call_returns (.ifree 0) _ _ (discard_run _ _ _ _ freed)
  obtain ⟨r, wrote⟩ := only_returns _ _ _ _ puts
  obtain ⟨q, cleared⟩ := only_returns _ _ _ _ frees
  have run : Run BufferUses dirtyInode [⟨dirtyInode, ⟨0, Kernel.zero.wild, .iput 0, one⟩, s⟩,
      ⟨s, ⟨0, Kernel.zero.wild, .ifree 0, two⟩, t⟩] t := .cons _ _ _ _ _ puts (.cons _ _ _ _ _ frees (.nil _))
  obtain ⟨each, all⟩ := buffers_given_back_iff _ _ _ run
  refine ⟨_, t, rfl, run, ?_, each, all ?_⟩
  · simp only [List.mem_cons, List.not_mem_nil, or_false, forall_eq_or_imp, forall_eq]
    refine ⟨?_, Steps.ifree_notes 0 _ _ two q cleared⟩
    rcases Steps.iput_notes 0 _ _ one r wrote with ⟨clean, -⟩ | ⟨-, through⟩
    · exact absurd clean flagged
    · exact through
  · simp [BufferUse.GivesAll, GivesAll]

end Yaup
