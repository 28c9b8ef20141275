import DurableQueue.Proofs.Log.Syncing
import DurableQueue.Session

/-!
# Settling

A session settles before it waits: it syncs if a sync is due and stages the first unread message.
`settle_spec` says that afterwards the first unread message is on offer and that nothing else of
the log has changed; a session in that state is `Ready`, and delivering takes it to the rest of
its messages (`Ready.deliver`).
-/

namespace DurableQueue

open FileSystem

namespace Session

variable {s : Session} {dir : Location} {P : View → Prop} {shelf shelf' : Shelf} {m : Bytes}
  {ms : List Bytes}

/-- The log of a session has no unread messages but `ms`, and the first of them is on offer. -/
structure Ready (s : Session) (dir : Location) (shelf : Shelf) (ms : List Bytes) : Prop where
  reads : s.log.Reads dir shelf s.staged ms
  offer : s.staged = ms.head?

/-- What syncs do to the files: the segments stay, and the record is the last one or the log's. -/
structure Flushed (log : Log) (shelf shelf' : Shelf) : Prop where
  alike : Alike shelf shelf'
  tidy : Tidy shelf → Tidy shelf'
  record : (View.of shelf').record = (View.of shelf).record ∨
    (View.of shelf').record = some (Text.encode log.record.text)

theorem Flushed.refl (log : Log) (shelf : Shelf) : Flushed log shelf shelf :=
  ⟨.refl shelf, id, Or.inl rfl⟩

/-- A sync is due. -/
def Due (s : Session) : Prop := s.log.needSync = true ∨ s.log.config.syncEvery ≤ s.dirty

/-- A flush that is due syncs the log. -/
theorem flush_of_due (due : s.Due) : s.flush =
    match s.log.requestSync.sync with
    | (.ok (), log) => { s with log, dirty := 0 }
    | (.error _, log) => { s with log := log.tell .syncFailed, dirty := 0 } := by
  have asked : (if s.log.config.syncEvery ≤ s.dirty then s.log.requestSync else s.log) =
      s.log.requestSync := by
    split
    · rfl
    · next few =>
      have already : s.log.needSync = true := due.resolve_right few
      rw [Log.requestSync, ← already]
  unfold flush
  simp only [asked]
  exact if_pos rfl

theorem flush_of_not_due (calm : ¬s.Due) : s.flush = s := by
  obtain ⟨none, few⟩ := not_or.1 calm
  unfold flush
  simp only [if_neg few]
  exact if_neg none

/-- A sync that is due may fail, and then nothing was done. -/
theorem flush_spec (serves : s.log.disk.Serves s.log.config dir shelf)
    (writes : s.log.Writes shelf) (sound : s.log.config.Sound) (before : P (.of shelf))
    (after : P { View.of shelf with record := some (Text.encode s.log.record.text) }) :
    ∃ shelf' d sync told dirty,
      s.flush = { s with
        log := { s.log with disk := d, needSync := sync, journal := told }, dirty } ∧
      Flushed s.log shelf shelf' ∧ Disk.Reaches s.log.config dir P s.log.disk d shelf' := by
  by_cases due : s.Due
  case neg =>
    rw [flush_of_not_due due]
    exact ⟨shelf, s.log.disk, s.log.needSync, s.log.journal, s.dirty, rfl, .refl _ _, serves.refl⟩
  obtain ⟨shelf', done, reached⟩ := Log.sync_spec (P := P) s.log.requestSync serves sound writes
    before after
  rw [flush_of_due due]
  revert done reached
  cases s.log.requestSync.sync with
  | mk result log' =>
    intro done reached
    obtain ⟨d, sync, told, rfl⟩ := done.rest
    have record : Flushed s.log shelf shelf' := by
      refine ⟨done.alike, done.tidy, ?_⟩
      rcases done.outcome with ⟨-, stored⟩ | ⟨-, kept, -⟩
      · exact Or.inr stored
      · exact Or.inl kept
    cases result with
    | ok u => exact ⟨shelf', d, sync, told, 0, rfl, record, reached⟩
    | error e => exact ⟨shelf', d, sync, .syncFailed :: told, 0, rfl, record, reached⟩

/-- What settling came to: the first unread message is on offer. -/
structure Settled (s s' : Session) (dir : Location) (shelf shelf' : Shelf) (ms : List Bytes) :
    Prop extends s'.Ready dir shelf' ms, Flushed s.log shelf shelf' where
  rest : ∃ d next sync r told,
    s'.log = { s.log with disk := d, next, needSync := sync, reader := r, journal := told }
  corruptions : s'.corruptions = s.corruptions

/-- What settling does after it has synced what was due. -/
theorem settleWithin_of_flush {t : Session} (flushed : s.flush = t) (rounds : Nat) :
    s.settleWithin (rounds + 1) =
      if t.staged.isNone ∧ t.log.hasUnread then
        match t.log.readFrame with
        | (.ok message, log) => { t with log, staged := some message }
        | (.error _, log) =>
          settleWithin rounds { t with
            log := (log.tell .frameUnreadable).quarantine, corruptions := t.corruptions + 1 }
      else t := by
  subst flushed
  rfl

/-- **Settling puts the first unread message on offer.** -/
theorem settleWithin_spec (h : s.log.Reads dir shelf s.staged ms) (sound : s.log.config.Sound)
    (before : P (.of shelf))
    (after : P { View.of shelf with record := some (Text.encode s.log.record.text) })
    (rounds : Nat) :
    ∃ shelf', Settled s (s.settleWithin (rounds + 1)) dir shelf shelf' ms ∧
      Disk.Reaches s.log.config dir P s.log.disk (s.settleWithin (rounds + 1)).log.disk shelf' := by
  obtain ⟨shelf', d, sync, told, dirty, flushed, done, reached⟩ :=
    flush_spec h.serves h.writes sound before after
  obtain ⟨log, log_eq⟩ : ∃ log : Log,
    log = { s.log with disk := d, needSync := sync, journal := told } := ⟨_, rfl⟩
  have reads : log.Reads dir shelf' s.staged ms := by
    have moved := h.alike done.alike reached.toServes
    rw [log_eq]
    exact ⟨moved.serves, moved.trail, moved.staged_first, moved.next_eq, moved.reader, moved.writer⟩
  have config : log.config = s.log.config := by rw [log_eq]
  rw [← log_eq] at flushed
  have shown : P (.of shelf') := by
    rcases done.record with kept | stored
    · have same : View.of shelf' = View.of shelf := View.ext done.alike.segments kept
      rw [same]
      exact before
    · have same : View.of shelf' =
          { View.of shelf with record := some (Text.encode s.log.record.text) } :=
        View.ext done.alike.segments stored
      rw [same]
      exact after
  have unfolded := settleWithin_of_flush flushed rounds
  simp only at unfolded
  by_cases idle : s.staged.isNone ∧ log.hasUnread
  · obtain ⟨vacant, unread⟩ := idle
    have empty : s.staged = none := Option.isNone_iff_eq_none.1 vacant
    rw [empty] at reads
    cases ms with
    | nil => exact absurd rfl (reads.hasUnread_iff.1 unread)
    | cons m ms =>
      obtain ⟨log', read, ⟨r, d', eq⟩, reads', reached'⟩ :=
        Log.readFrame_spec reads (config ▸ sound) shown
      rw [if_pos ⟨vacant, unread⟩, read] at unfolded
      refine ⟨shelf', ⟨⟨?_, ?_⟩, done, ?_, ?_⟩, ?_⟩
      · rw [unfolded]
        exact reads'
      · rw [unfolded]
        rfl
      · rw [unfolded, eq, log_eq]
        exact ⟨_, _, _, _, _, rfl⟩
      · rw [unfolded]
      · rw [unfolded]
        rw [config, log_eq] at reached'
        exact reached.trans reached'
  · rw [if_neg idle] at unfolded
    refine ⟨shelf', ⟨⟨?_, ?_⟩, done, ?_, ?_⟩, ?_⟩
    · rw [unfolded]
      exact reads
    · rw [unfolded]
      rcases Option.eq_none_or_eq_some s.staged with vacant | ⟨m, staged⟩
      · have read : ¬log.hasUnread = true := fun unread => idle ⟨by rw [vacant]; rfl, unread⟩
        have empty : ms = [] := by
          apply Decidable.byContradiction
          intro some
          exact read (reads.hasUnread_iff.2 some)
        rw [empty]
        exact vacant
      · have first := reads.staged_first
        rw [staged] at first
        obtain ⟨rest, rfl⟩ := first
        exact staged
    · rw [unfolded, log_eq]
      exact ⟨_, s.log.next, _, s.log.reader, _, rfl⟩
    · rw [unfolded]
    · rw [unfolded, log_eq]
      exact reached

theorem settle_spec (h : s.log.Reads dir shelf s.staged ms) (sound : s.log.config.Sound)
    (before : P (.of shelf))
    (after : P { View.of shelf with record := some (Text.encode s.log.record.text) }) :
    ∃ shelf', Settled s s.settle dir shelf shelf' ms ∧
      Disk.Reaches s.log.config dir P s.log.disk s.settle.log.disk shelf' :=
  settleWithin_spec h sound before after (s.distance + 1)

end Session

end DurableQueue
