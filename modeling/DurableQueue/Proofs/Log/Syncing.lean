import DurableQueue.Proofs.Log.Reading

/-!
# Syncing

A sync brings the open segment to the medium and stores the record (`sync_spec`). It changes no
segment's bytes, so what was unread before stays so (`Reads.alike`).
-/

namespace DurableQueue

open FileSystem

theorem SameSegments.alike {s s' : Shelf} (h : SameSegments s s') : Alike s s' := fun k => by rw [h k]

namespace Log

variable {log : Log} {dir : Location} {P : View → Prop} {s s' : Shelf} {staged : Option Bytes}
  {m : Bytes} {ms : List Bytes} {d : Disk}

/-- Nothing that is unread depends on what else the directory holds. -/
theorem Reads.alike (h : log.Reads dir s staged ms) (same : Alike s s')
    (serves : d.Serves log.config dir s') : { log with disk := d }.Reads dir s' staged ms where
  serves := serves
  trail := same.segments ▸ h.trail
  staged_first := h.staged_first
  next_eq := h.next_eq
  reader := by
    intro r kept
    obtain ⟨here, number, inode, found, offers⟩ := h.reader r kept
    obtain ⟨inode', found', contents⟩ := same.found found
    exact ⟨here, number, inode', found', contents ▸ offers⟩
  writer := by
    intro w open_
    obtain ⟨number, inode, found, eq⟩ := h.writer w open_
    obtain ⟨inode', found', -⟩ := same.found found
    exact ⟨number, inode', found', eq⟩

/-- The writer, if there is one, is open on a segment. -/
def Writes (log : Log) (s : Shelf) : Prop :=
  ∀ h ∈ log.writer, ∃ k number inode, s (.segment k) = some (number, inode) ∧ h.node = .file number

theorem Reads.writes (h : log.Reads dir s staged ms) : log.Writes s := by
  intro w open_
  obtain ⟨number, inode, found, eq⟩ := h.writer w open_
  exact ⟨_, number, inode, found, by rw [eq]⟩

/-! ### Syncing -/

/-- What a sync came to: the segments stay, and the record is the log's, or, if it could not be
stored under any other name first, the last one. -/
structure Synced (log : Log) (s s' : Shelf) (result : Except Error Unit) (log' : Log) : Prop where
  alike : Alike s s'
  tidy : Tidy s → Tidy s'
  rest : ∃ d sync told, log' = { log with disk := d, needSync := sync, journal := told }
  outcome : (result = .ok () ∧ (View.of s').record = some (Text.encode log.record.text)) ∨
    ((∃ e, result = .error e) ∧ (View.of s').record = (View.of s).record ∧ ¬Tidy s)

theorem storeRecord_spec (log : Log) (serves : log.disk.Serves log.config dir s) (sound : log.config.Sound)
    (before : P (.of s)) (after : P { View.of s with record := some (Text.encode log.record.text) }) :
    ∃ s', Synced log s s' log.storeRecord.1 log.storeRecord.2 ∧
      Disk.Reaches log.config dir P log.disk log.storeRecord.2.disk s' := by
  obtain ⟨s', reached, settled⟩ := Record.store_spec serves sound log.record before after
  have path : log.recordPath = log.config.path .record := rfl
  unfold storeRecord
  rw [path]
  revert reached settled
  cases log.record.store log.disk (log.config.path .record) with
  | mk result disk leftover =>
    intro reached settled
    refine ⟨s', ?_⟩
    cases result with
    | ok u => exact ⟨⟨settled.segments.alike, settled.tidy, ⟨_, _, _, rfl⟩, settled.outcome⟩, reached⟩
    | error e =>
      refine ⟨⟨settled.segments.alike, settled.tidy, ⟨disk, log.needSync, ?_⟩, settled.outcome⟩,
        reached⟩
      cases leftover with
      | false => exact ⟨log.journal, rfl⟩
      | true => exact ⟨.temporaryLeft :: log.journal, rfl⟩

/-- A sync brings the open segment to the medium and stores the record. -/
theorem sync_spec (log : Log) (serves : log.disk.Serves log.config dir s) (sound : log.config.Sound)
    (writes : log.Writes s)
    (before : P (.of s)) (after : P { View.of s with record := some (Text.encode log.record.text) }) :
    ∃ s', Synced log s s' log.sync.1 log.sync.2 ∧
      Disk.Reaches log.config dir P log.disk log.sync.2.disk s' := by
  rcases Option.eq_none_or_eq_some log.writer with closed | ⟨h, writing⟩
  · have eq : log.sync = log.storeRecord := by simp only [sync, closed]
    rw [eq]
    exact storeRecord_spec log serves sound before after
  · obtain ⟨k, number, inode, found, node⟩ := writes h writing
    obtain ⟨s₁, s₁_eq⟩ : ∃ s₁, s₁ = Function.update s (.segment k)
      (some (number, Disk.synced inode)) := ⟨_, rfl⟩
    have alike : Alike s s₁ := by
      intro j
      subst s₁_eq
      by_cases e : j = k
      · subst e
        rw [Function.update_self, found]
        rfl
      · rw [Function.update_of_ne (by simpa using e)]
    have tidy : Tidy s → Tidy s₁ := by
      intro tidy tag
      subst s₁_eq
      rw [Function.update_of_ne (by simp)]
      exact tidy tag
    have record : (View.of s₁).record = (View.of s).record := by
      subst s₁_eq
      simp [View.of]
    have same : View.of s₁ = View.of s := by
      cases hv : View.of s₁ with
      | mk segments kept =>
        have segments_eq := alike.segments
        rw [hv] at segments_eq record
        simp only at segments_eq record
        rw [segments_eq, record]
    obtain ⟨d, synced, first⟩ := serves.sync (P := P) h node found (by rw [← s₁_eq, same]; exact before)
    rw [← s₁_eq] at first
    have eq : log.sync = ({ log with disk := d } : Log).storeRecord := by
      simp only [sync, writing, synced]
    obtain ⟨s', done, second⟩ := storeRecord_spec (P := P) { log with disk := d }
      first.toServes sound (by rw [same]; exact before) (by rw [same]; exact after)
    rw [eq]
    refine ⟨s', ⟨alike.trans done.alike, fun t => done.tidy (tidy t), ?_, ?_⟩, first.trans second⟩
    · obtain ⟨d', sync, told, eq⟩ := done.rest
      exact ⟨d', sync, told, eq⟩
    · rcases done.outcome with stored | ⟨failed, kept, messy⟩
      · exact Or.inl stored
      · exact Or.inr ⟨failed, kept.trans record, fun t => messy (tidy t)⟩

/-! ### Whatever fails -/

/-- Whatever fails, storing the record touches neither a cursor nor an open segment. -/
theorem storeRecord_rest (log : Log) : ∃ d sync told,
    log.storeRecord.2 = { log with disk := d, needSync := sync, journal := told } := by
  unfold storeRecord
  split
  · exact ⟨_, _, _, rfl⟩
  · split
    · exact ⟨_, _, _, rfl⟩
    · exact ⟨_, _, _, rfl⟩

/-- Whatever fails, a sync touches no cursor, and of the open segments only the writer. -/
theorem sync_rest (log : Log) : ∃ d sync told w,
    log.sync.2 = { log with disk := d, needSync := sync, journal := told, writer := w } := by
  unfold sync
  split
  · obtain ⟨d, sync, told, eq⟩ := storeRecord_rest log
    exact ⟨d, sync, told, log.writer, eq⟩
  · next h _ =>
    cases log.disk.sync h with
    | mk result d =>
      cases result with
      | error e => exact ⟨_, _, _, _, rfl⟩
      | ok u =>
        obtain ⟨d', sync, told, eq⟩ := storeRecord_rest { log with disk := d }
        exact ⟨d', sync, told, log.writer, eq⟩

end Log

end DurableQueue
