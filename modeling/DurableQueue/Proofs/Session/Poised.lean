import DurableQueue.Proofs.Log.Poised
import DurableQueue.Proofs.Session.Rounds
import DurableQueue.Queue

/-!
# Sessions whatever fails

A session is poised if its log is, and if a message on offer lies between the read cursor and `next`
(`Session.Poised`). It stays so whatever it is asked for and whatever fails. Settling writes no frame
(`Poised.settle`); a push writes one exactly if it succeeds (`Poised.push`), and a delivery takes the
read cursor on (`Poised.deliver`), so no two pushes write at one place and no two deliveries read
from one.
-/

namespace DurableQueue

open FileSystem

namespace Session

/-- The log is poised, and what is on offer lies between the read cursor and `next`. -/
structure Poised (s : Session) : Prop where
  log : s.log.Poised
  staged : s.staged.isSome → s.log.read < s.log.next

variable {s s' t : Session} {m : Bytes} {log : Log}

/-- A log that only tells something or asks for a sync stays where it is. -/
theorem Poised.withLog (h : s.Poised) (quiet : s.log.Quiet log) (read : log.read = s.log.read)
    (next : log.next = s.log.next) : Poised { s with log } where
  log := quiet.poised
  staged := by
    intro offered
    simp only [read, next]
    exact h.staged offered

theorem quiet_tell (h : log.Poised) (n : Notice) : log.Quiet (log.tell n) :=
  h.going rfl rfl rfl rfl rfl (fun _ writing => writing) rfl

theorem quiet_requestSync (h : log.Poised) : log.Quiet log.requestSync :=
  h.going rfl rfl rfl rfl rfl (fun _ writing => writing) rfl

theorem quiet_closeFiles (h : log.Poised) : log.Quiet log.closeFiles :=
  h.going rfl rfl rfl rfl rfl nofun rfl

/-- A sync that is due leaves the cursors and what is on offer. -/
theorem Poised.flush (h : s.Poised) :
    s.log.Quiet s.flush.log ∧ s.flush.Poised ∧ s.flush.staged = s.staged := by
  have quiet : s.log.Quiet s.flush.log := by
    by_cases due : s.Due
    · have asked := quiet_requestSync h.log
      have synced := asked.trans asked.poised.sync
      rw [flush_of_due due]
      revert synced
      cases s.log.requestSync.sync with
      | mk result log' =>
        intro synced
        cases result with
        | error e => exact synced.trans (quiet_tell synced.poised .syncFailed)
        | ok u => exact synced
    · rw [flush_of_not_due due]
      exact h.log.quiet
  obtain ⟨staged, -, d, sync, told, w, eq⟩ := s.flush_rest
  refine ⟨quiet, ⟨quiet.poised, ?_⟩, staged⟩
  rw [staged, eq]
  exact h.staged

/-- **Settling writes no frame and takes no cursor back.** -/
theorem Settles.poised (settles : s.Settles t) (h : s.Poised) : s.log.Quiet t.log ∧ t.Poised := by
  induction settles with
  | wait nothing =>
    obtain ⟨flushed, poised, -⟩ := h.flush
    exact ⟨flushed, poised⟩
  | stage idle read =>
    obtain ⟨flushed, poised, -⟩ := h.flush
    obtain ⟨quiet, ahead⟩ := poised.log.readFrame
    rw [read] at quiet ahead
    exact ⟨flushed.trans quiet, quiet.poised, fun _ => ahead _ rfl⟩
  | @again s t e log idle read rest ih =>
    obtain ⟨flushed, poised, -⟩ := h.flush
    have none := Option.isNone_iff_eq_none.1 idle.1
    obtain ⟨quiet, -⟩ := poised.log.readFrame
    rw [read] at quiet
    have told := quiet.trans (quiet_tell quiet.poised .frameUnreadable)
    have given : (s.flush.giveUp log).log = (log.tell .frameUnreadable).quarantine := rfl
    have aside := told.trans told.poised.quarantine
    rw [← given] at aside
    have vacant : (s.flush.giveUp log).staged = Option.none := none
    obtain ⟨later, settled⟩ := ih ⟨aside.poised, by simp [vacant]⟩
    exact ⟨(flushed.trans aside).trans later, settled⟩

theorem Poised.settle (h : s.Poised) : s.log.Quiet s.settle.log ∧ s.settle.Poised :=
  s.settles_settle.poised h

theorem poised_start (h : log.Poised) : (Session.start log).Poised :=
  (Poised.settle (s := { log := log.tell .loopStarted })
    ⟨(quiet_tell h .loopStarted).poised, nofun⟩).2

/-- A push that succeeds writes one frame at the write cursor, one that fails writes none, and
neither is answered as if the queue had ended. -/
theorem Poised.push (h : s.Poised) (m : Bytes) :
    ((s.push m).1 = .ok () ∧ (s.push m).2.log.config = s.log.config ∧
      s.log.Onward (s.push m).2.log ∧ s.log.write < (s.push m).2.log.write ∧
      (s.push m).2.log.frames = s.log.frames ++ [s.log.frameOf m] ∧ (s.push m).2.Poised) ∨
    ((∃ e, (s.push m).1 = .error e ∧ ∀ name, e ≠ .exited name) ∧
      s.log.Quiet (s.push m).2.log ∧ (s.push m).2.Poised) := by
  unfold Session.push
  obtain ⟨log', eq, config, onward, further, frames, poised, read, next⟩ |
    ⟨e, log', eq, quiet, living, read, next⟩ := h.log.append m
  · rw [eq]
    obtain ⟨rest, settled⟩ := Poised.settle (s := { s with log := log', dirty := s.dirty + 1 })
      ⟨poised, fun offered => by
        simp only [read, next]
        exact h.staged offered⟩
    exact Or.inl ⟨rfl, rest.config.trans config, onward.trans rest.onward,
      Position.lt_of_lt_of_le further rest.onward.write, rest.frames.trans frames, settled⟩
  · rw [eq]
    obtain ⟨rest, settled⟩ := Poised.settle (s := { s with log := log', dirty := s.dirty + 1 })
      ⟨quiet.poised, fun offered => by
        simp only [read, next]
        exact h.staged offered⟩
    exact Or.inr ⟨⟨e, rfl, living⟩, quiet.trans rest, settled⟩

/-- What is handed out is what was on offer. -/
theorem staged_of_deliver (delivered : s.deliver = some (m, s')) : s.staged = some m := by
  rw [Session.deliver, Option.map_eq_some_iff] at delivered
  obtain ⟨message, offered, eq⟩ := delivered
  rw [offered, (Prod.mk.inj eq).1]

/-- A delivery hands out what lies at the read cursor and takes the cursor on. -/
theorem Poised.deliver (h : s.Poised) (delivered : s.deliver = some (m, s')) :
    s.log.Quiet s'.log ∧ s.log.read < s'.log.read ∧ s'.Poised := by
  rw [Session.deliver, Option.map_eq_some_iff] at delivered
  obtain ⟨message, offered, eq⟩ := delivered
  have ahead := h.staged (by rw [offered]; rfl)
  obtain ⟨quiet, further⟩ := h.log.commit
  revert eq quiet further
  cases s.log.commit with
  | mk reset log' =>
    intro eq quiet further
    obtain ⟨told, told_eq⟩ : ∃ told : Log, told = if reset then log'.tell .tailReset else log' :=
      ⟨_, rfl⟩
    obtain ⟨committed, read⟩ : s.log.Quiet told ∧ told.read = log'.read := by
      rw [told_eq]
      split
      · exact ⟨quiet.trans (quiet_tell quiet.poised .tailReset), rfl⟩
      · exact ⟨quiet, rfl⟩
    simp only [← told_eq, Prod.mk.injEq] at eq
    obtain ⟨rfl, rfl⟩ := eq
    obtain ⟨rest, settled⟩ := Poised.settle
      (s := { s with log := told, staged := none, dirty := s.dirty + 1 }) ⟨committed.poised, nofun⟩
    refine ⟨committed.trans rest, Position.lt_of_lt_of_le ahead ?_, settled⟩
    exact Position.le_trans (read ▸ further) rest.onward.read

/-- No sync is answered as if the queue had ended. -/
theorem sync_ne_exited (log : Log) (name : String) : log.sync.1 ≠ .error (.exited name) := by
  have stored : ∀ log : Log, log.storeRecord.1 ≠ .error (.exited name) := by
    intro log
    unfold Log.storeRecord Record.store
    simp only
    cases Record.writeSynced log.disk (Naming.temporaryPath log.recordPath log.disk.freshTag)
        (Text.encode log.record.text) with
    | mk result d =>
      cases result with
      | error e =>
        simp only [Record.abandon]
        cases d.remove (Naming.temporaryPath log.recordPath log.disk.freshTag) with
        | mk result d => cases result <;> exact fun h => by cases h
      | ok u =>
        simp only
        cases d.rename (Naming.temporaryPath log.recordPath log.disk.freshTag) log.recordPath with
        | mk result d' =>
          cases result with
          | error e =>
            simp only [Record.abandon]
            cases d'.remove (Naming.temporaryPath log.recordPath log.disk.freshTag) with
            | mk result d => cases result <;> exact fun h => by cases h
          | ok u => exact fun h => by cases h
  unfold Log.sync
  split
  · exact stored log
  · next h _ =>
    cases log.disk.sync h with
    | mk result d =>
      cases result with
      | error e => exact fun h => by cases h
      | ok u => exact stored { log with disk := d }

/-- Nor is a deletion. -/
theorem deleteAll_ne_exited (log : Log) (name : String) :
    log.deleteAll.1 ≠ .error (.exited name) := by
  have skipped : log.skip.1 ≠ .error (.exited name) := by
    unfold Log.skip
    simp only
    split <;> nofun
  unfold Log.deleteAll
  revert skipped
  cases log.skip with
  | mk result log' =>
    intro skipped
    simp only
    split
    · exact skipped
    · nofun

/-- Clearing writes no frame, whatever the session was like. -/
theorem quiet_clear (s : Session) : s.log.Quiet s.clear.2.log ∧ s.clear.2.Poised := by
  have quiet := s.log.quiet_deleteAll
  unfold Session.clear
  revert quiet
  cases s.log.deleteAll with
  | mk result log' =>
    intro quiet
    have asked := quiet.trans (quiet_requestSync quiet.poised)
    have told := asked.trans (quiet_tell asked.poised .cleared)
    obtain ⟨rest, settled⟩ := Poised.settle
      (s := { s with log := log'.requestSync.tell .cleared, staged := none, dirty := 0 })
      ⟨told.poised, nofun⟩
    exact ⟨told.trans rest, settled⟩

theorem Poised.tick (h : s.Poised) : s.log.Quiet s.tick.log ∧ s.tick.Poised := by
  obtain ⟨asked, asked_eq⟩ : ∃ asked : Log, asked = if 0 < s.dirty then s.log.requestSync else s.log :=
    ⟨_, rfl⟩
  obtain ⟨quiet, read, next⟩ : s.log.Quiet asked ∧ asked.read = s.log.read ∧
      asked.next = s.log.next := by
    rw [asked_eq]
    split
    · exact ⟨quiet_requestSync h.log, rfl, rfl⟩
    · exact ⟨h.log.quiet, rfl, rfl⟩
  obtain ⟨rest, settled⟩ := (h.withLog quiet read next).settle
  unfold Session.tick
  rw [← asked_eq]
  exact ⟨quiet.trans rest, settled⟩

/-- Ending a session writes no frame. -/
theorem Poised.finish (h : s.Poised) (mode : ExitMode) : s.log.Quiet (s.finish mode).2.log := by
  obtain ⟨told, ⟨-, -, eq⟩ | ⟨-, -, eq⟩⟩ := s.finish_cases mode
  · rw [eq]
    have closed := h.log.sync.trans (quiet_closeFiles h.log.sync.poised)
    exact closed.trans (quiet_tell closed.poised told)
  · rw [eq]
    have closed := s.log.quiet_deleteAll.trans (quiet_closeFiles s.log.quiet_deleteAll.poised)
    exact closed.trans (quiet_tell closed.poised told)

/-- A queue that could be opened is poised, whatever the disk holds. -/
theorem poised_openOn {d : Disk} {c : Config} {q : Queue} (opened : (Queue.openOn d c).1 = .ok q) :
    q.session.Poised ∧ q.session.log.config = c := by
  unfold Queue.openOn at opened
  split at opened
  · cases opened
  · simp only at opened
    split at opened
    · cases opened
    · split at opened
      · cases opened
      · next record d' _ =>
        cases opened
        have taken : (Log.ofRecord c d' (record.getD {})).Poised ∧
            (Log.ofRecord c d' (record.getD {})).config = c := by
          have ordered := Log.inOrder_ofRecord c d' (record.getD {})
          obtain ⟨-, told, eq⟩ | ⟨-, depth, sync, told, resets, eq, -⟩ :=
            Log.ofRecord_outcome c d' (record.getD {})
          · rw [eq] at ordered ⊢
            exact ⟨⟨ordered, nofun⟩, rfl⟩
          · rw [eq] at ordered ⊢
            exact ⟨⟨ordered, nofun⟩, rfl⟩
        have told := quiet_tell taken.1 .opening
        refine ⟨poised_start told.poised, ?_⟩
        have looped := quiet_tell told.poised .loopStarted
        have settled := Poised.settle
          (s := { log := ((Log.ofRecord c d' (record.getD {})).tell .opening).tell .loopStarted })
          ⟨looped.poised, nofun⟩
        exact settled.1.config.trans taken.2

end Session

end DurableQueue
