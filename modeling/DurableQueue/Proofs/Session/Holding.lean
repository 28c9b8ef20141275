import DurableQueue.Proofs.Log.Keeping

/-!
# Sessions that nothing fails

`Session.Holds` is a session that waits: its log keeps the messages accepted since its start, and
the first undelivered one is on offer. Each event takes such a session to another one, answers what
a list of the undelivered messages would, and shows at every moment files that the queue could be
reopened from. Only a push that is accepted needs room in the counters, and a clear one more
segment number.
-/

namespace DurableQueue

open FileSystem

/-- The log that takes up a record as it is. -/
def Log.resumed (c : Config) (d : Disk) (r : Record) : Log where
  config := c
  disk := d
  read := r.read
  next := r.read
  write := r.write
  depth := r.length

namespace Session

/-- A session that waits with the messages after the first `u` of the accepted ones. -/
structure Holds (s : Session) (dir : Location) (shelf : Shelf) (start : Position)
    (accepted : List Bytes) (u : Nat) : Prop where
  keeps : s.log.Keeps dir shelf s.staged start accepted u
  offer : s.staged = (accepted.drop u).head?

variable {s : Session} {dir : Location} {shelf : Shelf} {start : Position} {accepted : List Bytes}
  {m : Bytes} {u : Nat}

/-- Asking for a sync and telling something change nothing that is kept. -/
theorem keeps_told {log log' : Log} {staged : Option Bytes}
    (h : log.Keeps dir shelf staged start accepted u)
    (same : ∃ sync told, log' = { log with needSync := sync, journal := told }) :
    log'.Keeps dir shelf staged start accepted u := by
  obtain ⟨sync, told, rfl⟩ := same
  have reads := h.reads
  exact h.flushed (.refl _ _) ⟨reads.serves, reads.trail, reads.staged_first, reads.next_eq,
    reads.reader, reads.writer⟩ rfl rfl

/-- What a session reaches by an event that leaves `accepted` and `u`. -/
structure Serving (c : Config) (d : Disk) (s' : Session) (dir : Location) (start : Position)
    (accepted : List Bytes) (u : Nat) : Prop where
  config : s'.log.config = c
  waits : ∃ shelf', s'.Holds dir shelf' start accepted u ∧
    Disk.Reaches c dir (Recoverable c start accepted u) d s'.log.disk shelf'

/-- A log that keeps its messages settles into a session that waits with them. -/
theorem settle_serving (h : s.log.Keeps dir shelf s.staged start accepted u)
    (sound : s.log.config.Sound) :
    Serving s.log.config s.log.disk s.settle dir start accepted u := by
  obtain ⟨shelf', settled, reached⟩ :=
    settle_spec h.reads sound h.recoverable h.recoverable_stored
  obtain ⟨d, next, sync, r, told, eq⟩ := settled.rest
  have config : s.settle.log.config = s.log.config := by rw [eq]
  have record : s.settle.log.record = s.log.record := by
    rw [eq]
    rfl
  exact ⟨config, shelf', ⟨h.flushed settled.toFlushed settled.reads config record, settled.offer⟩,
    reached⟩

theorem Serving.after {c : Config} {d d' : Disk} {s' : Session} {shelf' : Shelf}
    (serving : Serving c d' s' dir start accepted u)
    (reached : Disk.Reaches c dir (Recoverable c start accepted u) d d' shelf') :
    Serving c d s' dir start accepted u := by
  obtain ⟨config, shelf'', holds, reached'⟩ := serving
  exact ⟨config, shelf'', holds, reached.trans reached'⟩

/-! ### Events -/

theorem push_serving (h : s.Holds dir shelf start accepted u) (sound : s.log.config.Sound)
    (room : s.log.HasRoom) (admitted : s.log.config.Admits m) :
    (s.push m).1 = .ok () ∧
      Serving s.log.config s.log.disk (s.push m).2 dir start (accepted ++ [m]) u := by
  obtain ⟨shelf', log', ok, config, keeps, reached⟩ := h.keeps.append sound room admitted
  have pushed : s.push m = (.ok (), settle { s with log := log', dirty := s.dirty + 1 }) := by
    rw [push, ok]
  rw [pushed]
  refine ⟨rfl, ?_⟩
  have serving := settle_serving (s := { s with log := log', dirty := s.dirty + 1 }) keeps
    (config ▸ sound)
  simp only [config] at serving
  exact serving.after reached

/-- A refused push counts toward the next sync, and does nothing else. -/
theorem push_refused (h : s.Holds dir shelf start accepted u) (sound : s.log.config.Sound)
    (refused : ¬s.log.config.Admits m) :
    (s.push m).1 =
        .error (.invalidMessageSize m.length s.log.config.minMsgSize s.log.config.maxMsgSize) ∧
      Serving s.log.config s.log.disk (s.push m).2 dir start accepted u := by
  have pushed : s.push m =
      (.error (.invalidMessageSize m.length s.log.config.minMsgSize s.log.config.maxMsgSize),
        settle { s with dirty := s.dirty + 1 }) := by
    rw [push, Log.append_refused refused]
  rw [pushed]
  exact ⟨rfl, settle_serving (s := { s with dirty := s.dirty + 1 }) h.keeps sound⟩

theorem deliver_none (h : s.Holds dir shelf start accepted u) (empty : accepted.drop u = []) :
    s.deliver = none := by
  have vacant : s.staged = none := by
    rw [h.offer, empty]
    rfl
  rw [deliver, vacant]
  rfl

theorem deliver_serving (h : s.Holds dir shelf start accepted u) (sound : s.log.config.Sound)
    {ms : List Bytes} (some : accepted.drop u = m :: ms) :
    ∃ s', s.deliver = .some (m, s') ∧ accepted.drop (u + 1) = ms ∧
      Serving s.log.config s.log.disk s' dir start accepted (u + 1) := by
  have staged : s.staged = .some m := by
    rw [h.offer, some]
    rfl
  have keeps := h.keeps
  rw [staged] at keeps
  obtain ⟨calm, config, kept, reached⟩ := keeps.commit sound
  have rest : accepted.drop (u + 1) = ms := by
    rw [← List.drop_drop, some]
    rfl
  refine ⟨settle { s with log := s.log.commit.2, staged := none, dirty := s.dirty + 1 }, ?_, rest, ?_⟩
  · rw [deliver, staged]
    simp only [Option.map_some, calm, Bool.false_eq_true, if_false]
  · have serving := settle_serving
      (s := { s with log := s.log.commit.2, staged := none, dirty := s.dirty + 1 }) kept
      (config ▸ sound)
    simp only [config] at serving
    exact serving.after reached

/-- A clear starts over: from the moment that everything is deleted nothing was accepted. -/
theorem clear_serving (h : s.Holds dir shelf start accepted u) (sound : s.log.config.Sound)
    (room : s.log.write.file + 1 < Word.limit) :
    (s.clear).1 = .ok () ∧ ∃ shelf' log', s.log.deleteAll = (.ok (), log') ∧
      log'.disk.Serves s.log.config dir shelf' ∧
      Recoverable s.log.config s.log.write.nextFile [] 0 (.of shelf') ∧
      Serving s.log.config log'.disk (s.clear).2 dir s.log.write.nextFile [] 0 := by
  obtain ⟨shelf', log', ok, config, keeps, reached⟩ := h.keeps.deleteAll sound room
  have cleared : s.clear =
      (.ok (), settle { s with log := (log'.requestSync).tell .cleared, staged := none, dirty := 0 }) := by
    rw [clear, ok]
  rw [cleared]
  refine ⟨rfl, shelf', log', ok, reached.toServes, config ▸ keeps.recoverable, ?_⟩
  have told :
      ((log'.requestSync).tell .cleared).Keeps dir shelf' none s.log.write.nextFile [] 0 :=
    keeps_told keeps ⟨true, _, rfl⟩
  have serving := settle_serving
    (s := { s with log := (log'.requestSync).tell .cleared, staged := none, dirty := 0 }) told
    (by rw [← config] at sound; exact sound)
  have same : ((log'.requestSync).tell .cleared).config = s.log.config := config
  simp only [same] at serving
  exact serving

theorem tick_serving (h : s.Holds dir shelf start accepted u) (sound : s.log.config.Sound) :
    Serving s.log.config s.log.disk s.tick dir start accepted u := by
  unfold tick
  split
  · exact settle_serving (s := { s with log := s.log.requestSync })
      (keeps_told h.keeps ⟨true, _, rfl⟩) sound
  · exact settle_serving h.keeps sound

/-- Closing stores the record of what is undelivered. -/
theorem close_spec (h : s.Holds dir shelf start accepted u) (sound : s.log.config.Sound) :
    ∃ shelf', (s.finish .close).1 = .ok () ∧ (s.finish .close).2.log.config = s.log.config ∧
      Flushed s.log shelf shelf' ∧
      (View.of shelf').record = some (Text.encode s.log.record.text) ∧
      Disk.Reaches s.log.config dir (Recoverable s.log.config start accepted u) s.log.disk
        (s.finish .close).2.log.disk shelf' := by
  have reads := h.keeps.reads
  obtain ⟨shelf', done, reached⟩ := Log.sync_spec s.log reads.serves sound reads.writes
    h.keeps.recoverable h.keeps.recoverable_stored
  obtain ⟨stored, record⟩ : s.log.sync.1 = .ok () ∧
      (View.of shelf').record = some (Text.encode s.log.record.text) := by
    rcases done.outcome with stored | ⟨-, -, messy⟩
    · exact stored
    · exact absurd h.keeps.tidy messy
  have finished : s.finish .close =
      (.ok (), { s with log := (s.log.sync.2.closeFiles).tell .loopStopped }) := by
    simp only [finish]
    revert stored
    cases s.log.sync with
    | mk result log =>
      rintro rfl
      rfl
  obtain ⟨d, sync, told, eq⟩ := done.rest
  rw [finished]
  refine ⟨shelf', rfl, ?_, ⟨done.alike, done.tidy, Or.inr record⟩, record, reached⟩
  show s.log.sync.2.config = s.log.config
  rw [eq]

/-- A log that starts from the record of another keeps what that one kept. -/
theorem keeps_reopened {log : Log} {staged : Option Bytes} {shelf' : Shelf} {d : Disk}
    (h : log.Keeps dir shelf staged start accepted u) (done : Flushed log shelf shelf')
    (serves : d.Serves log.config dir shelf') :
    (Log.resumed log.config d log.record).Keeps dir shelf' none start accepted u :=
  h.flushed done
    { serves := serves
      trail := done.alike.segments ▸ h.reads.trail
      staged_first := List.nil_prefix
      next_eq := rfl
      reader := nofun
      writer := nofun } rfl rfl

end Session

end DurableQueue
