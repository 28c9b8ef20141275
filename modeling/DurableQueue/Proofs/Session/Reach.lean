import DurableQueue.Proofs.Session.Rounds

/-!
# Where files are written

No file can be written to beyond the largest offset that a file can be moved to. A session stays in
reach if it never holds a segment open for writing there (`Session.StaysInReach`). Whatever fails, a
segment that is open for writing is not full (`Leads.keepsShort`), so all runs of a queue whose segments
may not grow so large stay in reach (`staysInReach_takingUp`).
-/

namespace DurableQueue

open FileSystem

namespace Log

/-- A segment that is open for writing is not full. -/
def Short (log : Log) : Prop := log.writer.isSome → log.write.offset ≤ log.config.maxBytesPerFile

/-- `log'` has the settings of `log`, and no full segment open unless `log` has. -/
structure KeepsShort (log log' : Log) : Prop where
  config : log'.config = log.config
  short : log.Short → log'.Short

variable {log log' log'' : Log} {m : Bytes}

theorem KeepsShort.trans (first : log.KeepsShort log') (second : log'.KeepsShort log'') :
    log.KeepsShort log'' :=
  ⟨second.config.trans first.config, fun short => second.short (first.short short)⟩

/-- An operation that keeps the settings and the write cursor opens nothing for writing. -/
theorem keepsShort_of_eq (config : log'.config = log.config) (write : log'.write = log.write)
    (writer : log'.writer = log.writer ∨ log'.writer = none) : log.KeepsShort log' := by
  refine ⟨config, fun short open_ => ?_⟩
  rcases writer with same | closed
  · rw [write, config]
    exact short (same ▸ open_)
  · rw [closed] at open_
    cases open_

theorem KeepsShort.of_closed (config : log'.config = log.config) (closed : log'.writer = none) :
    log.KeepsShort log' := by
  refine ⟨config, fun _ open_ => ?_⟩
  rw [closed] at open_
  cases open_

theorem Tail.keepsShort (tail : log.Tail log') : log.KeepsShort log' := by
  cases tail with
  | unread behind => exact keepsShort_of_eq rfl rfl (Or.inl rfl)
  | met meet sync told resets => exact keepsShort_of_eq rfl rfl (Or.inl rfl)
  | crossed past told resets => exact .of_closed rfl rfl

theorem keepsShort_sync (log : Log) : log.KeepsShort log.sync.2 := by
  obtain ⟨d, sync, told, w, eq, kept, -⟩ := log.sync_outcome
  rw [eq]
  exact keepsShort_of_eq rfl rfl kept

theorem keepsShort_readFrame (log : Log) : log.KeepsShort log.readFrame.2 := by
  obtain ⟨m, d, reader, eq, -⟩ | ⟨e, d, reader, eq, -⟩ := log.readFrame_outcome
  · rw [eq]
    exact keepsShort_of_eq rfl rfl (Or.inl rfl)
  · rw [eq]
    exact keepsShort_of_eq rfl rfl (Or.inl rfl)

theorem keepsShort_append (log : Log) (m : Bytes) : log.KeepsShort (log.append m).2 := by
  have outcome := log.append_outcome m
  revert outcome
  generalize log.append m = out
  intro outcome
  cases outcome with
  | refused rejected => exact keepsShort_of_eq rfl rfl (Or.inl rfl)
  | closed path e d opens => exact keepsShort_of_eq rfl rfl (Or.inl rfl)
  | failed x e d tree by_ opens => exact .of_closed rfl rfl
  | made x d d' tree sync told within by_ opens rolls =>
    refine ⟨rfl, fun _ open_ => ?_⟩
    rcases Position.past_cases log.config.maxBytesPerFile log.write m.length with
      ⟨stay, room⟩ | ⟨leave, full⟩
    · simp only [appended, stay]
      exact room
    · simp only [if_pos full] at open_
      cases open_

theorem keepsShort_commit (log : Log) : log.KeepsShort log.commit.2 := by
  obtain ⟨sync, told, tail⟩ := log.commit_outcome
  refine KeepsShort.trans ?_ tail.keepsShort
  exact keepsShort_of_eq rfl rfl (Or.inl rfl)

theorem keepsShort_quarantine (log : Log) : log.KeepsShort log.quarantine := by
  obtain ⟨told, tail⟩ := log.quarantine_outcome
  refine KeepsShort.trans ?_ tail.keepsShort
  by_cases here : log.read.file = log.write.file
  · exact .of_closed rfl (if_pos here)
  · exact keepsShort_of_eq rfl (if_neg here) (Or.inl (if_neg here))

theorem keepsShort_deleteAll (log : Log) : log.KeepsShort log.deleteAll.2 := by
  obtain ⟨told, eq⟩ := log.deleteAll_outcome
  rw [eq]
  exact .of_closed rfl rfl

theorem keepsShort_serve (log : Log) (r : Request) : log.KeepsShort (log.serve r) := by
  cases r with
  | append m => exact log.keepsShort_append m
  | read => exact log.keepsShort_readFrame
  | commit => exact log.keepsShort_commit
  | quarantine => exact log.keepsShort_quarantine
  | skip =>
    obtain ⟨told, eq⟩ := log.skip_outcome
    rw [serve, eq]
    exact .of_closed rfl rfl
  | deleteAll => exact log.keepsShort_deleteAll
  | sync => exact log.keepsShort_sync
  | requestSync => exact keepsShort_of_eq rfl rfl (Or.inl rfl)
  | closeFiles => exact .of_closed rfl rfl

/-- **Whatever is asked for and whatever fails, no full segment is open for writing.** -/
theorem Leads.keepsShort (lead : log.Leads log') : log.KeepsShort log' := by
  induction lead with
  | refl => exact ⟨rfl, id⟩
  | serve lead r ih => exact ih.trans (keepsShort_serve _ r)
  | tell lead n ih => exact ih.trans (keepsShort_of_eq rfl rfl (Or.inl rfl))

/-- A log that has just taken up a record has nothing open. -/
theorem closed_ofRecord (c : Config) (d : Disk) (r : Record) :
    (ofRecord c d r).writer = none ∧ (ofRecord c d r).config = c := by
  obtain ⟨-, told, eq⟩ | ⟨-, depth, sync, told, resets, eq, -⟩ := ofRecord_outcome c d r
  · rw [eq]
    exact ⟨rfl, rfl⟩
  · rw [eq]
    exact ⟨rfl, rfl⟩

end Log

namespace Session

variable {s : Session} {c : Config} {events : List Event}

/-- No segment is open for writing at a place that no file can be moved to. -/
def InReach (s : Session) : Prop := s.log.writer.isSome → s.log.write.offset < Word.signedLimit

/-- The session is in reach whenever a message is pushed. -/
def StaysInReach (s : Session) : List Event → Prop
  | [] => True
  | e :: events => ((∃ m, e = .push m) → s.InReach) ∧ StaysInReach (s.step e).2 events

theorem staysInReach_of_short (short : s.log.Short)
    (limit : s.log.config.maxBytesPerFile < Word.signedLimit) : s.StaysInReach events := by
  induction events generalizing s with
  | nil => trivial
  | cons e events ih =>
    obtain ⟨config, kept⟩ := (s.leads_step e).keepsShort
    refine ⟨fun _ open_ => Nat.lt_of_le_of_lt (short open_) limit, ih (kept short) ?_⟩
    rw [config]
    exact limit

/-- The session of a log that takes up a record, waiting for its first event. -/
def takingUp (c : Config) (d : Disk) (r : Record) : Session :=
  start ((Log.ofRecord c d r).tell .opening)

/-- **A queue whose segments may not grow beyond reach stays in reach.** -/
theorem staysInReach_takingUp (d : Disk) (r : Record) (limit : c.maxBytesPerFile < Word.signedLimit) :
    (takingUp c d r).StaysInReach events := by
  obtain ⟨closed, config⟩ := Log.closed_ofRecord c d r
  rw [takingUp, start]
  revert closed config
  generalize Log.ofRecord c d r = log
  intro closed config
  obtain ⟨told, told_eq⟩ : ∃ told : Session, told = { log := (log.tell .opening).tell .loopStarted } :=
    ⟨_, rfl⟩
  have kept := told.settles_settle.leads.keepsShort
  rw [told_eq] at kept
  refine staysInReach_of_short (kept.short ?_) ?_
  · intro open_
    rw [show ((log.tell .opening).tell .loopStarted).writer = none from closed] at open_
    cases open_
  · rw [kept.config]
    exact config ▸ limit

end Session

end DurableQueue
