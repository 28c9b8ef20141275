import DurableQueue.Proofs.Log.Leading
import DurableQueue.Proofs.Session.Settling

/-!
# The rounds of a session

On an event a session does what is asked of it (`Session.handle`) and then settles. `Settles` is
settling without a count of the rounds: a flush, and after that there is nothing to be read now, or a
message is staged, or its segment is given up and all begins again. The rounds that a session allows
itself are enough (`settles_settle`), so what one round keeps, settling keeps. Afterwards less was done
than makes a sync due (`Settles.dirty_lt`). All that happens to a session comes down to requests of its
log (`leads_run`).
-/

namespace DurableQueue

open FileSystem

namespace Log

/-- Setting a segment aside takes the read cursor to the next one, or both cursors to one place. -/
theorem quarantine_cases {log : Log} (unread : log.read < log.write) :
    log.quarantine.read = log.quarantine.write ∨
      log.quarantine.read = log.read.nextFile ∧ log.quarantine.write = log.write ∧
        log.read.file < log.write.file := by
  obtain ⟨told, tail⟩ := log.quarantine_outcome
  revert tail
  generalize log.quarantine = log'
  intro tail
  have between := Position.file_le (Position.le_of_lt unread)
  cases tail with
  | unread behind =>
    refine Or.inr ⟨rfl, ?_⟩
    by_cases same : log.read.file = log.write.file
    · simp only [if_pos same, Position.lt_iff, Position.nextFile] at behind
      omega
    · exact ⟨if_neg same, by omega⟩
  | met meet sync told resets => exact Or.inl meet
  | crossed past told resets => exact Or.inl rfl

end Log

namespace Session

/-- A message is to be read now: none is on offer, and one is unread. -/
def Idle (s : Session) : Prop := s.staged.isNone ∧ s.log.hasUnread

/-- The session once the segment at the read cursor was given up, with the log that failed to read
there. -/
def giveUp (s : Session) (log : Log) : Session :=
  { s with log := (log.tell .frameUnreadable).quarantine, corruptions := s.corruptions + 1 }

/-- Settling, round after round. -/
inductive Settles : Session → Session → Prop where
  | wait {s : Session} (nothing : ¬s.flush.Idle) : Settles s s.flush
  | stage {s : Session} {m : Bytes} {log : Log} (idle : s.flush.Idle)
    (read : s.flush.log.readFrame = (.ok m, log)) :
    Settles s { s.flush with log, staged := some m }
  | again {s t : Session} {e : Error} {log : Log} (idle : s.flush.Idle)
    (read : s.flush.log.readFrame = (.error e, log)) (rest : Settles (s.flush.giveUp log) t) :
    Settles s t

/-- What a session does on an event before it settles. -/
def handle (s : Session) : Event → Session
  | .push message => { s with log := (s.log.append message).2, dirty := s.dirty + 1 }
  | .deliver =>
    let (reset, log) := s.log.commit
    { s with
      log := if reset then log.tell .tailReset else log, staged := none, dirty := s.dirty + 1 }
  | .clear =>
    { s with log := (s.log.deleteAll.2.requestSync).tell .cleared, staged := none, dirty := 0 }
  | .tick => { s with log := if 0 < s.dirty then s.log.requestSync else s.log }

/-- An event that nothing comes of: nothing is on offer that could be delivered. -/
def Passes (s : Session) (e : Event) : Prop := e = .deliver ∧ s.staged = none

instance (s : Session) (e : Event) : Decidable (s.Passes e) :=
  inferInstanceAs (Decidable (e = .deliver ∧ s.staged = none))

variable {s t : Session} {e : Event}

/-- **On an event a session does what is asked of it and settles.** -/
theorem step_eq (s : Session) (e : Event) :
    (s.step e).2 = if s.Passes e then s else (s.handle e).settle := by
  cases e with
  | push m => rfl
  | deliver =>
    unfold step deliver
    rcases Option.eq_none_or_eq_some s.staged with vacant | ⟨m, staged⟩
    · rw [if_pos ⟨rfl, vacant⟩, vacant]
      rfl
    · have taken : ¬s.Passes .deliver := fun passes => by simp [passes.2] at staged
      rw [if_neg taken, staged]
      rfl
  | clear => rfl
  | tick => rfl

/-! ### Flushing -/

/-- A flush changes neither a cursor nor what is on offer. -/
structure FlushRest (s t : Session) : Prop where
  staged : t.staged = s.staged
  corruptions : t.corruptions = s.corruptions
  log : ∃ d sync told w, t.log = { s.log with disk := d, needSync := sync, journal := told, writer := w }

theorem flush_rest (s : Session) : FlushRest s s.flush := by
  by_cases due : s.Due
  · obtain ⟨d, sync, told, w, eq⟩ := Log.sync_rest s.log.requestSync
    rw [flush_of_due due]
    revert eq
    cases s.log.requestSync.sync with
    | mk result log =>
      rintro rfl
      cases result with
      | ok u => exact ⟨rfl, rfl, d, sync, told, w, rfl⟩
      | error e => exact ⟨rfl, rfl, d, sync, _, w, rfl⟩
  · rw [flush_of_not_due due]
    exact ⟨rfl, rfl, s.log.disk, s.log.needSync, s.log.journal, s.log.writer, rfl⟩

theorem leads_flush (s : Session) : s.log.Leads s.flush.log := by
  by_cases due : s.Due
  · have synced : s.log.Leads s.log.requestSync.sync.2 :=
      (s.log.leads_serve .requestSync).trans (Log.leads_serve _ .sync)
    rw [flush_of_due due]
    revert synced
    cases s.log.requestSync.sync with
    | mk result log =>
      intro synced
      cases result with
      | ok u => exact synced
      | error e => exact synced.tell .syncFailed
  · rw [flush_of_not_due due]
    exact .refl

/-- A flush leaves less done than makes a sync due. -/
theorem flush_dirty_lt (every : 0 < s.log.config.syncEvery) : s.flush.dirty < s.log.config.syncEvery := by
  by_cases due : s.Due
  · rw [flush_of_due due]
    cases s.log.requestSync.sync with
    | mk result log =>
      cases result with
      | ok u => exact every
      | error e => exact every
  · rw [flush_of_not_due due]
    exact Nat.lt_of_not_le fun many => due (Or.inr many)

/-! ### Rounds -/

/-- Some rounds are left, and enough for the segments that may have to be given up. -/
theorem settles_of_rounds {rounds : Nat} (some_ : 0 < rounds)
    (enough : s.log.read < s.log.write → s.distance + 2 ≤ rounds) :
    s.Settles (s.settleWithin rounds) := by
  induction rounds generalizing s with
  | zero => exact absurd some_ (Nat.lt_irrefl 0)
  | succ rounds ih =>
    obtain ⟨-, -, d, sync, told, w, flushed⟩ := s.flush_rest
    rw [settleWithin_of_flush rfl]
    split
    case isFalse nothing => exact .wait nothing
    case isTrue idle =>
    have unread : s.flush.log.read < s.flush.log.write := of_decide_eq_true idle.2
    have rounds_left : s.flush.distance + 1 ≤ rounds := by
      rw [flushed] at unread
      have before := enough unread
      simp only [distance, flushed] at before ⊢
      omega
    cases read : s.flush.log.readFrame with
    | mk result log =>
      cases result with
      | ok m => exact .stage idle read
      | error e =>
        refine .again idle read (ih (s := s.flush.giveUp log) (by omega) fun further => ?_)
        have same : log.read = s.flush.log.read ∧ log.write = s.flush.log.write := by
          obtain ⟨m, d, r, eq, -⟩ | ⟨e', d, r, eq, -⟩ := s.flush.log.readFrame_outcome
          · rw [read] at eq
            cases eq
          · rw [read] at eq
            cases eq
            exact ⟨rfl, rfl⟩
        have unread' : (log.tell .frameUnreadable).read < (log.tell .frameUnreadable).write := by
          simp only [Log.tell, same]
          exact unread
        have moved := Log.quarantine_cases unread'
        have read_file : (log.tell .frameUnreadable).read.file = s.flush.log.read.file := by
          simp only [Log.tell, same]
        have write_file : (log.tell .frameUnreadable).write.file = s.flush.log.write.file := by
          simp only [Log.tell, same]
        simp only [distance, giveUp] at further rounds_left ⊢
        rcases moved with met | ⟨next, write, before⟩
        · rw [met] at further
          exact absurd further Position.lt_irrefl
        · rw [read_file, write_file] at before
          simp only [next, write, Position.nextFile, read_file, write_file]
          omega

/-- A round in which a segment is given up. -/
theorem settleWithin_giveUp (n : Nat) {e : Error} {log : Log} (idle : s.flush.Idle)
    (read : s.flush.log.readFrame = (.error e, log)) :
    s.settleWithin (n + 1) = (s.flush.giveUp log).settleWithin n := by
  have idle : s.flush.staged.isNone ∧ s.flush.log.hasUnread := idle
  rw [settleWithin_of_flush rfl, if_pos idle, read]
  rfl

/-- **The rounds that a session allows itself are enough.** -/
theorem settles_settle (s : Session) : s.Settles s.settle :=
  settles_of_rounds (Nat.succ_pos _) fun _ => Nat.le_refl _

theorem leads_read {result : Except Error Bytes} {log : Log}
    (read : s.flush.log.readFrame = (result, log)) : s.log.Leads log := by
  have led := s.leads_flush.serve .read
  rw [Log.serve, read] at led
  exact led

theorem leads_giveUp {result : Except Error Bytes} {log : Log}
    (read : s.flush.log.readFrame = (result, log)) : s.log.Leads (s.flush.giveUp log).log := by
  have led := (leads_read read).tell .frameUnreadable
  exact led.trans (Log.leads_serve _ .quarantine)

theorem Settles.leads (settles : s.Settles t) : s.log.Leads t.log := by
  induction settles with
  | wait nothing => exact leads_flush _
  | stage idle read => exact leads_read read
  | again idle read rest ih => exact (leads_giveUp read).trans ih

theorem Settles.dirty_lt (settles : s.Settles t) (every : 0 < s.log.config.syncEvery) :
    t.dirty < s.log.config.syncEvery := by
  induction settles with
  | wait nothing => exact flush_dirty_lt every
  | stage idle read => exact flush_dirty_lt every
  | again idle read rest ih =>
    have config := (leads_giveUp read).config_eq
    rw [← config] at every ⊢
    exact ih every

/-! ### Events -/

theorem leads_handle (s : Session) (e : Event) : s.log.Leads (s.handle e).log := by
  cases e with
  | push m => exact s.log.leads_serve (.append m)
  | deliver =>
    have committed := s.log.leads_serve .commit
    rw [Log.serve] at committed
    unfold handle
    revert committed
    cases s.log.commit with
    | mk reset log =>
      intro committed
      cases reset with
      | true => exact committed.tell .tailReset
      | false => exact committed
  | clear => exact ((s.log.leads_serve .deleteAll).serve .requestSync).tell .cleared
  | tick =>
    unfold handle
    simp only
    split
    · exact s.log.leads_serve .requestSync
    · exact .refl

theorem leads_step (s : Session) (e : Event) : s.log.Leads (s.step e).2.log := by
  rw [step_eq]
  split
  · exact .refl
  · exact (s.leads_handle e).trans (settles_settle _).leads

/-- A message that is pushed is appended before the session settles. -/
theorem leads_push (s : Session) (m : Bytes) :
    (s.handle (.push m)).log.Leads (s.step (.push m)).2.log :=
  (s.handle (.push m)).settles_settle.leads

/-- A session ends with a sync or with everything removed, and closes its files. -/
theorem finish_cases (s : Session) (mode : ExitMode) : ∃ told,
    mode = .close ∧ (s.finish mode).1 = s.log.sync.1 ∧
      (s.finish mode).2.log = s.log.sync.2.closeFiles.tell told ∨
    mode = .delete ∧ (s.finish mode).1 = s.log.deleteAll.1 ∧
      (s.finish mode).2.log = s.log.deleteAll.2.closeFiles.tell told := by
  unfold finish
  cases mode with
  | close =>
    cases s.log.sync with
    | mk result log' => cases result <;> exact ⟨_, Or.inl ⟨rfl, rfl, rfl⟩⟩
  | delete =>
    cases s.log.deleteAll with
    | mk result log' => cases result <;> exact ⟨_, Or.inr ⟨rfl, rfl, rfl⟩⟩

/-- A session ends with requests of its log. -/
theorem leads_finish (s : Session) (mode : ExitMode) : s.log.Leads (s.finish mode).2.log := by
  obtain ⟨told, ⟨-, -, eq⟩ | ⟨-, -, eq⟩⟩ := s.finish_cases mode
  · rw [eq]
    exact ((s.log.leads_serve .sync).serve .closeFiles).tell told
  · rw [eq]
    exact ((s.log.leads_serve .deleteAll).serve .closeFiles).tell told

/-- Closing moves no cursor. -/
theorem write_close (s : Session) : (s.finish .close).2.log.write = s.log.write := by
  obtain ⟨d, sync, told, w, rest⟩ := s.log.sync_rest
  obtain ⟨told', ⟨-, -, eq⟩ | ⟨no, -⟩⟩ := s.finish_cases .close
  · rw [eq, rest]
    rfl
  · cases no

/-- Events after others. -/
theorem run_append (s : Session) (before since : List Event) :
    (s.run (before ++ since)).2 = ((s.run before).2.run since).2 := by
  induction before generalizing s with
  | nil => rfl
  | cons e before ih => exact ih _

theorem run_snoc (s : Session) (events : List Event) (e : Event) :
    (s.run (events ++ [e])).2 = ((s.run events).2.step e).2 := run_append s events [e]

/-- **Whatever happens to a session comes down to requests of its log.** -/
theorem leads_run (s : Session) (events : List Event) : s.log.Leads (s.run events).2.log := by
  induction events generalizing s with
  | nil => exact .refl
  | cons e events ih => exact (s.leads_step e).trans (ih _)

end Session

end DurableQueue
