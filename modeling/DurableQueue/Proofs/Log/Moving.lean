import DurableQueue.Proofs.Log.Deleting

/-!
# How a log moves on

Whatever the disk holds and whatever fails on it, a log moves on in one of a few ways that it decides
on by itself. One that skips, deletes or heals starts afresh (`skip_outcome`, `heal_outcome`,
`deleteAll_outcome`); a look at the tail finds a message, finds that the cursors met, or finds that
they crossed (`checkTail_outcome`); and committing, setting a segment aside and taking up a record
each end in such a look (`commit_outcome`, `quarantine_outcome`, `ofRecord_outcome`).
-/

namespace DurableQueue

open FileSystem

namespace Log

variable {log : Log}

/-! ### Starting afresh -/

/-- The disk once every segment between the cursors was to be removed. -/
def swept (log : Log) : Disk := (log.disk.removeEach (log.span.map log.segmentPath)).2

theorem skip_outcome (log : Log) : ∃ told,
    log.skip.2 = { log.fresh with disk := log.swept, journal := told } := ⟨_, rfl⟩

theorem heal_outcome (log : Log) : ∃ told,
    log.heal = { log.fresh with disk := log.swept, needSync := true, journal := told } := by
  obtain ⟨told, eq⟩ := log.skip_outcome
  unfold heal
  revert eq
  cases log.skip with
  | mk result log' =>
    rintro rfl
    cases result with
    | error e => exact ⟨_, rfl⟩
    | ok u => exact ⟨told, rfl⟩

/-- The record is removed last, and what fails then is the answer. -/
theorem deleteAll_outcome (log : Log) : ∃ told,
    log.deleteAll = (
      match (Record.remove log.swept log.recordPath).1 with
      | .ok () => log.skip.1
      | .error e => .error (.removeFile log.recordPath e),
      { log.fresh with disk := (Record.remove log.swept log.recordPath).2, journal := told }) := by
  obtain ⟨told, eq⟩ := log.skip_outcome
  unfold deleteAll
  revert eq
  cases log.skip with
  | mk result log' =>
    rintro rfl
    have path : ({ log.fresh with disk := log.swept, journal := told } : Log).recordPath =
        log.recordPath := rfl
    simp only [path]
    cases Record.remove log.swept log.recordPath with
    | mk result d =>
      cases result with
      | error e => exact ⟨_, rfl⟩
      | ok u => exact ⟨told, rfl⟩

/-! ### Looking at the tail -/

/-- What a look at the tail finds: a message that is unread, cursors that met, after which nothing
is waiting, or cursors that crossed, after which the log starts afresh. -/
inductive Tail (log : Log) : Log → Prop where
  | unread (behind : log.read < log.write) : Tail log log
  | met (meet : log.read = log.write) (sync : Bool) (told : List Notice) (resets : Nat) :
    Tail log { log with depth := 0, needSync := sync, journal := told, tailResets := resets }
  | crossed (past : log.write < log.read) (told : List Notice) (resets : Nat) :
    Tail log { log.fresh with
      disk := log.swept, needSync := true, journal := told, tailResets := resets }

/-- The depth is looked at as it is. -/
theorem checkTail_outcome (log : Log) : log.Tail (log.checkTail log.depth).2 := by
  by_cases behind : log.read < log.write
  · have unread : log.hasUnread = true := decide_eq_true behind
    rw [checkTail, if_pos unread]
    exact .unread behind
  have unread : ¬log.hasUnread = true := by
    rw [hasUnread, decide_eq_true_iff]
    exact behind
  by_cases meet : log.read = log.write
  · by_cases zero : log.depth = 0
    · have calm : log.checkTail log.depth = (false, { log with depth := 0 }) := by
        have same : log = { log with depth := 0 } := by
          rw [← zero]
        rw [← same]
        simp only [checkTail, if_neg unread, zero, ne_eq, not_true_eq_false, if_false, meet, or_self]
      rw [calm]
      exact .met meet log.needSync log.journal log.tailResets
    · have reset : log.checkTail log.depth = (true, { log.tell .depthReset with
          depth := 0, needSync := true, tailResets := log.tailResets + 1 }) := by
        simp only [checkTail, if_neg unread, zero, ne_eq, not_false_eq_true, if_true, tell, meet,
          not_true_eq_false, if_false, true_or]
      rw [reset]
      exact .met meet true (.depthReset :: log.journal) (log.tailResets + 1)
  · have past : log.write < log.read := by
      simp only [Position.lt_iff, Position.ext_iff'] at behind meet ⊢
      omega
    -- what the depth was does not matter to a log that starts afresh
    obtain ⟨found, found_eq⟩ : ∃ found : Log, found = if log.depth ≠ 0 then
        { log.tell .depthReset with depth := 0, needSync := true } else log := ⟨_, rfl⟩
    obtain ⟨depth, sync, told, same⟩ : ∃ depth sync told,
        found = { log with depth, needSync := sync, journal := told } := by
      rw [found_eq]
      split
      · exact ⟨_, _, _, rfl⟩
      · exact ⟨_, _, _, rfl⟩
    have passed : found.read ≠ found.write := by
      rw [same]
      exact meet
    obtain ⟨told', healed⟩ := heal_outcome (found.tell .cursorPassed)
    rw [checkTail, if_neg unread]
    simp only
    rw [← found_eq, if_pos passed, if_pos (Or.inr passed), healed]
    rw [same]
    exact .crossed past told' _

/-- Committing takes the read cursor to `next`, removes the segment that it leaves, and looks at the
tail. -/
theorem commit_outcome (log : Log) : ∃ sync told, Tail { log with
    read := log.next, depth := Word.wrap (log.depth - 1)
    disk := if log.next.file = log.read.file then log.disk
      else (log.disk.remove (log.segmentPath log.read.file)).2
    needSync := sync, journal := told } log.commit.2 := by
  unfold commit
  simp only
  by_cases same : log.read.file = log.next.file
  · rw [if_pos same, if_pos same.symm]
    exact ⟨log.needSync, log.journal, checkTail_outcome _⟩
  · have path : ({ log with
        read := log.next, depth := Word.wrap (log.depth - 1) } : Log).segmentPath log.read.file =
          log.segmentPath log.read.file := rfl
    rw [if_neg same, if_neg (Ne.symm same), path]
    cases log.disk.remove (log.segmentPath log.read.file) with
    | mk result d =>
      cases result with
      | error e => exact ⟨true, .consumedRemovalFailed :: log.journal, checkTail_outcome _⟩
      | ok u => exact ⟨true, .consumedRemoved :: log.journal, checkTail_outcome _⟩

/-- Setting a segment aside takes the read cursor to the next one, and the write cursor as well if
it was in the same segment, and looks at the tail. -/
theorem quarantine_outcome (log : Log) : ∃ told, Tail
    { log with
      read := log.read.nextFile, next := log.read.nextFile
      write := if log.read.file = log.write.file then log.write.nextFile else log.write
      disk := (log.disk.rename (log.segmentPath log.read.file)
        (Naming.quarantinePath (log.segmentPath log.read.file))).2
      needSync := true, journal := told, reader := none
      writer := if log.read.file = log.write.file then none else log.writer } log.quarantine := by
  obtain ⟨left, left_eq⟩ : ∃ left : Log, left = if log.read.file = log.write.file then
      { log with reader := none, writer := none, write := log.write.nextFile }
    else { log with reader := none } := ⟨_, rfl⟩
  obtain ⟨write, write_eq⟩ : ∃ write, write = if log.read.file = log.write.file then
      log.write.nextFile else log.write := ⟨_, rfl⟩
  obtain ⟨w, w_eq⟩ : ∃ w, w = if log.read.file = log.write.file then none else log.writer := ⟨_, rfl⟩
  have same : left = { log with reader := none, writer := w, write } := by
    rw [left_eq, write_eq, w_eq]
    split <;> rfl
  have path : ({ log with reader := none, writer := w, write } : Log).segmentPath log.read.file =
      log.segmentPath log.read.file := rfl
  unfold quarantine
  simp only [← left_eq, ← write_eq, ← w_eq]
  rw [same]
  simp only [path]
  split
  · exact ⟨.quarantined :: log.journal, checkTail_outcome _⟩
  · exact ⟨.quarantineFailed :: log.journal, checkTail_outcome _⟩

/-- A record is taken up as it is, or with nothing waiting, or by a log that starts afresh. -/
theorem ofRecord_outcome (c : Config) (d : Disk) (r : Record) :
    let found : Log :=
      { config := c, disk := d, read := r.read, next := r.read, write := r.write, depth := r.length }
    (r.write < r.read ∧ ∃ told, ofRecord c d r = { found.fresh with
      disk := found.swept, needSync := true, journal := told, tailResets := 1 }) ∨
    (r.read ≤ r.write ∧ ∃ depth sync told resets, ofRecord c d r =
      { found with depth, needSync := sync, journal := told, tailResets := resets } ∧
      (r.read = r.write → depth = 0)) := by
  intro found
  unfold ofRecord
  simp only
  by_cases crossed : r.write < r.read
  · rw [if_pos crossed]
    obtain ⟨told, healed⟩ := heal_outcome (found.tell .cursorsCrossed)
    rw [healed]
    exact Or.inl ⟨crossed, told, rfl⟩
  · rw [if_neg crossed]
    refine Or.inr ⟨Position.not_lt.1 crossed, ?_⟩
    split
    · exact ⟨0, true, _, 1, rfl, fun _ => rfl⟩
    · next agreed =>
      refine ⟨r.length, false, [], 0, rfl, fun meet => ?_⟩
      by_contra waiting
      exact agreed (Or.inr ⟨meet, waiting⟩)

end Log

end DurableQueue
