import DurableQueue.Proofs.Log.Keeping
import DurableQueue.Proofs.Session.Steady

/-!
# Packed segments

The writer leaves a segment after the frame that takes it past the limit, and makes the next one only
when something is written to it. So the segments behind the write cursor are longer than the limit by
one frame at most, the one at the write cursor is not and is there only if it holds something
(`Packed`). The reader takes segments away and adds none, so all that happens to a session keeps them
packed as long as no segment has to be given up: an append (`Packed.append`), a delivery
(`Sketch.packed_deliver`), a clear (`Sketch.packed_clear`), and settling after each of them
(`Sketch.settle_same`).
-/

namespace DurableQueue

/-- Whatever segments there are besides the one at the write cursor are full, that one is not, and it is
there only if something was written to it. None was set aside. -/
structure Packed (c : Config) (segments aside : Nat → Option Bytes) (write : Position) : Prop where
  full : ∀ k ≠ write.file, ∀ bs ∈ segments k,
    c.maxBytesPerFile < bs.length ∧ bs.length ≤ c.maxBytesPerFile + Frame.diskSize c.maxMsgSize
  room : write.offset ≤ c.maxBytesPerFile
  begun : write.offset = 0 → segments write.file = none
  aside : ∀ k, aside k = none

/-- The segments of an outline are packed. -/
def Outline.Packed (o : Outline) (c : Config) : Prop := DurableQueue.Packed c o.segments o.aside o.write

variable {c : Config} {segments segments' aside : Nat → Option Bytes} {write : Position} {m : Bytes}

/-- Packed segments stay so when some of them go. -/
theorem Packed.fewer (packed : Packed c segments aside write)
    (less : ∀ k, segments' k = segments k ∨ segments' k = none) : Packed c segments' aside write where
  full k other bs there := by
    rcases less k with same | gone
    · rw [same] at there
      exact packed.full k other bs there
    · rw [gone] at there
      cases there
  room := packed.room
  begun zero := by
    rcases less write.file with same | gone
    · rw [same]
      exact packed.begun zero
    · exact gone
  aside := packed.aside

/-- A frame at the write cursor fills its segment, or leaves room in it. -/
theorem Packed.snoc (packed : Packed c segments aside write) (ends : Ends segments write)
    (admitted : c.Admits m) :
    Packed c
      (Function.update segments write.file
        (some (((segments write.file).getD []).overwrite write.offset (Frame.encode m))))
      aside (write.past c.maxBytesPerFile m.length) := by
  have room := packed.room
  have most : m.length ≤ c.maxMsgSize := admitted.2
  rcases Position.past_cases c.maxBytesPerFile write m.length with ⟨stay, below⟩ | ⟨leave, above⟩
  · rw [stay]
    constructor
    case full =>
      intro k other bs there
      rw [Function.update_of_ne other] at there
      exact packed.full k other bs there
    case room => exact below
    case begun =>
      intro zero
      simp only [Frame.diskSize, Frame.headerSize] at zero
      omega
    case aside => exact packed.aside
  · rw [leave]
    constructor
    case full =>
      intro k other bs there
      by_cases left : k = write.file
      · -- the segment that was left ends with the frame that took it past the limit
        subst left
        rw [Function.update_self] at there
        cases there
        rw [← ends.last, Bytes.overwrite_length, List.length_append, Frame.length_encode, ends.last]
        simp only [Frame.diskSize] at above ⊢
        omega
      · rw [Function.update_of_ne left] at there
        exact packed.full k left bs there
    case room => exact Nat.zero_le _
    case begun =>
      intro _
      have next : write.nextFile.file ≠ write.file := Nat.succ_ne_self _
      rw [Function.update_of_ne next]
      exact ends.beyond _ (Nat.lt_succ_self _)
    case aside => exact packed.aside

namespace Outline

variable {o : Outline}

/-- **An append keeps the segments packed**, whether or not it comes to anything. -/
theorem Packed.append (packed : o.Packed c) (ends : Ends o.segments o.write) (m : Bytes) :
    (o.append c m).2.Packed c := by
  unfold Outline.append
  simp only
  split
  case isTrue refused => exact packed
  case isFalse admitted =>
  split
  case isTrue long => exact packed
  case isFalse short =>
  split
  case isTrue far =>
    -- something was written to the segment, so opening it does not make it
    have offset : o.write.offset ≠ 0 := by
      intro zero
      rw [zero] at far
      exact absurd far (by decide)
    have there : some ((o.segments o.write.file).getD []) = o.segments o.write.file := by
      cases held : o.segments o.write.file with
      | none =>
        have last := ends.last
        rw [held] at last
        exact absurd last.symm offset
      | some bs => rfl
    rw [there, Function.update_eq_self]
    exact packed
  case isFalse near =>
    have within : c.Admits m := by
      simp only [Config.Admits]
      omega
    exact DurableQueue.Packed.snoc packed ends within

theorem without_cases (segments : Nat → Option Bytes) (numbers : List Nat) (k : Nat) :
    without c segments numbers k = segments k ∨ without c segments numbers k = none := by
  unfold without
  split
  · exact Or.inr rfl
  · exact Or.inl rfl

/-- A delivery takes the read cursor to `next`, and segments go only. -/
theorem commit_rest (behind : o.next ≤ o.write) : ∃ segments depth,
    o.commit c = { o with segments, read := o.next, depth } ∧
      ∀ k, segments k = o.segments k ∨ segments k = none := by
  obtain ⟨segments, left⟩ : ∃ segments, segments =
    if o.next.file = o.read.file then o.segments else without c o.segments [o.read.file] := ⟨_, rfl⟩
  have fewer : ∀ k, segments k = o.segments k ∨ segments k = none := by
    intro k
    rw [left]
    split
    · exact Or.inl rfl
    · exact without_cases _ _ k
  unfold Outline.commit
  simp only [← left]
  by_cases unread : o.next < o.write
  · exact ⟨segments, Word.wrap (o.depth - 1), by rw [checkTail, if_pos unread], fewer⟩
  · have met : o.next = o.write := Position.le_antisymm behind (Position.not_lt.1 unread)
    exact ⟨segments, 0, by rw [checkTail, if_neg unread, if_pos met], fewer⟩

end Outline

namespace Sketch

variable {k : Sketch} {rounds : Nat}

/-- A segment that is given up is left by the read cursor. -/
theorem giveUp_read : k.log.read < (k.giveUp c).log.read := by
  obtain ⟨o, looked, read⟩ : ∃ o : Outline, o.checkTail c = k.log.quarantine c ∧
      o.read = k.log.read.nextFile := ⟨_, rfl, rfl⟩
  have further : k.log.read < o.read := read ▸ Position.lt_nextFile _
  rw [giveUp, ← looked, Outline.checkTail]
  split
  · exact further
  · split
    · exact further
    · refine Position.lt_of_lt_of_le further ?_
      simp only [Outline.fresh, Position.le_iff]
      omega

/-- What reading changes of an outline. -/
theorem readFrame_rest {o o' : Outline} (found : o.readFrame c = some (m, o')) :
    ∃ next reader, o' = { o with next, reader } := by
  unfold Outline.readFrame at found
  split at found
  · cases found
  · split at found
    · cases found
    · cases found
      exact ⟨_, _, rfl⟩

theorem settleWithin_read : k.log.read ≤ (settleWithin c rounds k).log.read := by
  induction rounds generalizing k with
  | zero => exact Position.le_refl _
  | succ rounds ih =>
    rw [settleWithin]
    split
    · exact Position.le_refl _
    · split
      · next m o found =>
        obtain ⟨next, reader, rfl⟩ := readFrame_rest found
        exact Position.le_refl _
      · exact Position.le_trans (Position.le_of_lt giveUp_read) ih

/-- **Settling touches no segment if the read cursor stays where it is.** -/
theorem settleWithin_same (same : (settleWithin c rounds k).log.read = k.log.read) :
    (settleWithin c rounds k).log.segments = k.log.segments ∧
      (settleWithin c rounds k).log.aside = k.log.aside ∧
      (settleWithin c rounds k).log.write = k.log.write := by
  cases rounds with
  | zero => exact ⟨rfl, rfl, rfl⟩
  | succ rounds =>
    rw [settleWithin] at same ⊢
    split
    · exact ⟨rfl, rfl, rfl⟩
    · next busy =>
      rw [if_neg busy] at same
      cases found : k.log.readFrame c with
      | some out =>
        obtain ⟨m, o⟩ := out
        obtain ⟨next, reader, rfl⟩ := readFrame_rest found
        exact ⟨rfl, rfl, rfl⟩
      | none =>
        rw [found] at same
        have further : k.log.read < (settleWithin c rounds (k.giveUp c)).log.read :=
          Position.lt_of_lt_of_le giveUp_read settleWithin_read
        rw [show (settleWithin c rounds (k.giveUp c)).log.read = k.log.read from same] at further
        exact absurd further Position.lt_irrefl

/-- Segments that were packed before settling still are, unless one of them was given up. -/
theorem packed_settle (packed : k.log.Packed c) (same : (k.settle c).log.read = k.log.read) :
    (k.settle c).log.Packed c := by
  obtain ⟨segments, aside, write⟩ := settleWithin_same same
  rw [Outline.Packed, settle, segments, aside, write]
  exact packed

/-! ### Events -/

variable (packed : k.log.Packed c)
include packed

theorem packed_push (ends : Ends k.log.segments k.log.write)
    (same : (k.step c (.push m)).2.log.read = k.log.read) : (k.step c (.push m)).2.log.Packed c := by
  have appended := packed.append ends m
  have stays : (k.log.append c m).2.read = k.log.read := by
    unfold Outline.append
    simp only
    split
    · rfl
    · split
      · rfl
      · split
        · rfl
        · rfl
  exact packed_settle (k := { k with log := (k.log.append c m).2 }) appended (same.trans stays.symm)

/-- What was read lies before the write cursor, and the read cursor goes behind it. -/
theorem packed_deliver (behind : k.log.next ≤ k.log.write)
    (moved : k.staged.isSome → (k.step c .deliver).2.log.read = k.log.next) :
    (k.step c .deliver).2.log.Packed c := by
  cases staged : k.staged with
  | none =>
    have passed : (k.step c .deliver).2 = k := by
      rw [step, staged]
    rw [passed]
    exact packed
  | some m =>
    have stepped : (k.step c .deliver).2 =
        settle c { k with log := k.log.commit c, staged := none } := by
      rw [step, staged]
    have there := moved (staged ▸ rfl)
    obtain ⟨segments, depth, committed, fewer⟩ := k.log.commit_rest (c := c) behind
    rw [stepped, committed] at there ⊢
    exact packed_settle (k := { k with
      log := { k.log with segments, read := k.log.next, depth }, staged := none })
      (DurableQueue.Packed.fewer packed fewer) there

/-- Once everything is deleted, the segment at the write cursor is one that was never begun. -/
theorem packed_clear (beyond : ∀ j, k.log.write.file < j → k.log.segments j = none)
    (moved : (k.step c .clear).2.log.read = (k.log.fresh c).read)
    (gone : ∀ j ≠ (k.log.fresh c).write.file, (k.step c .clear).2.log.segments j = none) :
    (k.step c .clear).2.log.Packed c := by
  obtain ⟨emptied, emptied_eq⟩ : ∃ emptied : Sketch,
    emptied = { k with log := k.log.fresh c, staged := none } := ⟨_, rfl⟩
  have stepped : (k.step c .clear).2 = emptied.settle c := by rw [emptied_eq]; rfl
  have log : emptied.log = k.log.fresh c := by rw [emptied_eq]
  rw [stepped, ← log] at moved
  rw [stepped] at gone ⊢
  obtain ⟨segments, -, -⟩ := settleWithin_same moved
  refine packed_settle ?_ moved
  rw [log]
  constructor
  case full =>
    intro j other bs there
    rw [← log, ← segments] at there
    have none := gone j other
    rw [settle] at none
    rw [none] at there
    cases there
  case room => exact Nat.zero_le _
  case begun =>
    intro _
    have past : k.log.write.file < (k.log.fresh c).write.file := by
      simp only [Outline.fresh]
      omega
    rcases Outline.without_cases (c := c) k.log.segments k.log.span (k.log.fresh c).write.file with
      same | none
    · exact same.trans (beyond _ past)
    · exact none
  case aside => exact packed.aside

end Sketch

end DurableQueue
