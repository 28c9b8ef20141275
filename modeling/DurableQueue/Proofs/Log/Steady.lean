import DurableQueue.Proofs.Record.Failing
import DurableQueue.Proofs.Session.Outline

/-!
# Steady logs

A log is steady if only syncs fail on its disk and its open segments are those at its cursors
(`Log.Steady`). Reading gives the message that it gives in the outline of the log, or fails as it does
there (`Steady.readFrame`). A sync may do to the disk what it likes: it leaves the outline, and at most
closes the writer (`Steady.sync`).
-/

namespace DurableQueue

open FileSystem

variable {c : Config} {dir : Location} {d : Disk} {s s' : Shelf}

/-- What a reader has kept, and where its file goes on. -/
def Reader.lookahead (r : Reader) : Lookahead := { ahead := r.ahead, offset := r.handle.offset }

/-- A reader of file `number` on a calm disk, and the same without the disk. -/
def Reader.OnCalm (c : Config) (dir : Location) (s : Shelf) (number : Nat) (source : Reader × Disk)
    (l : Lookahead) : Prop :=
  source.2.Calm c dir s ∧ source.1.handle.node = .file number ∧ source.1.lookahead = l

section Reader

variable {f : QueueFile} {number : Nat} {inode : Inode}

theorem Reader.take_calm (found : s f = some (number, inode)) (n : Nat) (source : Reader × Disk)
    (l : Lookahead) (kept : Reader.OnCalm c dir s number source l) :
    (take n source).1 = (l.take inode.contents n).1 ∧
      Reader.OnCalm c dir s number (take n source).2 (l.take inode.contents n).2 := by
  obtain ⟨r, d⟩ := source
  obtain ⟨calm, node, rfl⟩ := kept
  have ahead : r.lookahead.ahead = r.ahead := rfl
  have offset : r.lookahead.offset = r.handle.offset := rfl
  rw [take, Lookahead.take, ahead, offset]
  by_cases within : n ≤ r.ahead.length
  · rw [if_pos within, if_pos within]
    exact ⟨rfl, calm, node, rfl⟩
  · obtain ⟨d', read, calm'⟩ := calm.read r.handle node found (max (n - r.ahead.length) capacity)
    rw [if_neg within, if_neg within]
    simp only [read]
    split
    · exact ⟨rfl, calm', node, rfl⟩
    · exact ⟨rfl, calm', node, rfl⟩

/-- A reader reads the frame that it would read without a disk. -/
theorem Reader.readFrame_calm {r : Reader} (calm : d.Calm c dir s)
    (node : r.handle.node = .file number) (found : s f = some (number, inode)) :
    ∃ result r' d', r.readFrame c.minMsgSize c.maxMsgSize d = (result, (r', d')) ∧
      d'.Calm c dir s ∧ r'.handle.node = .file number ∧
      r.lookahead.readFrame c inode.contents = (result, r'.lookahead) := by
  have kept : Reader.OnCalm c dir s number (r, d) r.lookahead := ⟨calm, node, rfl⟩
  obtain ⟨same, calm', node', eq⟩ := Frame.decodeFrom_alike (take_calm found) kept
  exact ⟨_, _, _, rfl, calm', node', Prod.ext same.symm eq.symm⟩

end Reader

namespace Log

/-- The log without its disk, which holds `s`. -/
def outline (log : Log) (s : Shelf) : Outline where
  segments := (View.of s).segments
  aside number := (s (.quarantined number)).map (·.2.contents)
  read := log.read
  next := log.next
  write := log.write
  depth := log.depth
  reader := log.reader.map Reader.lookahead

/-- Only syncs fail on the disk of the log, which holds `s`, and what is open is the segments at the
cursors. How often the log syncs is left out of its settings `c`. -/
structure Steady (log : Log) (c : Config) (dir : Location) (s : Shelf) : Prop where
  config : ∃ every timeout, log.config = { c with syncEvery := every, syncTimeout := timeout }
  calm : log.disk.Calm c dir s
  ordered : log.read ≤ log.next
  reader : ∀ r ∈ log.reader, log.next.file = log.read.file ∧
    ∃ number inode, s (.segment log.read.file) = some (number, inode) ∧ r.handle.node = .file number
  writer : ∀ h ∈ log.writer, c.isLong (.segment log.write.file) = false ∧
    ∃ number inode, s (.segment log.write.file) = some (number, inode) ∧
      h = ⟨c.path (.segment log.write.file), .file number, log.write.offset⟩

variable {log : Log}

theorem outline_eq_of_undisturbed (log : Log) (same : Undisturbed s s') :
    log.outline s' = log.outline s := by
  have aside : (fun k => (s' (.quarantined k)).map (·.2.contents)) =
      fun k => (s (.quarantined k)).map (·.2.contents) := funext fun k => by rw [same.aside k]
  rw [outline, outline, same.alike.segments, aside]

section Settings

variable (log : Log)
  (config : ∃ every timeout, log.config = { c with syncEvery := every, syncTimeout := timeout })
include config

theorem segmentPath_of_config (number : Nat) : log.segmentPath number = c.path (.segment number) := by
  obtain ⟨every, timeout, eq⟩ := config
  rw [segmentPath, eq]
  rfl

theorem recordPath_of_config : log.recordPath = c.path .record := by
  obtain ⟨every, timeout, eq⟩ := config
  rw [recordPath, eq]
  rfl

theorem limits_of_config : log.config.minMsgSize = c.minMsgSize ∧
    log.config.maxMsgSize = c.maxMsgSize ∧ log.config.maxBytesPerFile = c.maxBytesPerFile := by
  obtain ⟨every, timeout, eq⟩ := config
  rw [eq]
  exact ⟨rfl, rfl, rfl⟩

end Settings

namespace Steady

theorem segmentPath (h : log.Steady c dir s) (number : Nat) :
    log.segmentPath number = c.path (.segment number) := log.segmentPath_of_config h.config number

/-! ### Syncing -/

/-- What a sync does leaves a log steady, also if the writer is closed. -/
theorem undisturbed (h : log.Steady c dir s) (calm : d.Calm c dir s') (same : Undisturbed s s')
    {w : Option Handle} (kept : w = log.writer ∨ w = none) (sync : Bool) (told : List Notice) :
    { log with disk := d, needSync := sync, journal := told, writer := w }.Steady c dir s' where
  config := h.config
  calm := calm
  ordered := h.ordered
  reader r reading := by
    obtain ⟨inside, number, inode, found, node⟩ := h.reader r reading
    obtain ⟨inode', found', -⟩ := same.alike.found found
    exact ⟨inside, number, inode', found', node⟩
  writer x writing := by
    rcases kept with rfl | rfl
    · obtain ⟨short, number, inode, found, eq⟩ := h.writer x writing
      obtain ⟨inode', found', -⟩ := same.alike.found found
      exact ⟨short, number, inode', found', eq⟩
    · cases writing

/-- A log that only tells something, asks for a sync or counts a reset stays steady. -/
theorem telling (h : log.Steady c dir s) (sync : Bool) (told : List Notice) (resets : Nat) :
    { log with needSync := sync, journal := told, tailResets := resets }.Steady c dir s :=
  ⟨h.config, h.calm, h.ordered, h.reader, h.writer⟩

end Steady

section Syncing

variable (log : Log)
  (config : ∃ every timeout, log.config = { c with syncEvery := every, syncTimeout := timeout })
  (calm : log.disk.Calm c dir s) (named : c.Named)
include config calm named

theorem storeRecord_calm : ∃ d s' sync told,
    log.storeRecord.2 = { log with disk := d, needSync := sync, journal := told } ∧
      d.Calm c dir s' ∧ Undisturbed s s' := by
  obtain ⟨s', calm', same⟩ := Record.store_any calm named log.record
  rw [Log.storeRecord, log.recordPath_of_config config]
  revert calm'
  cases log.record.store log.disk (c.path .record) with
  | mk result disk leftover =>
    intro calm'
    cases result with
    | ok u => exact ⟨disk, s', false, _, rfl, calm', same⟩
    | error e =>
      cases leftover with
      | false => exact ⟨disk, s', log.needSync, log.journal, rfl, calm', same⟩
      | true => exact ⟨disk, s', log.needSync, _, rfl, calm', same⟩

/-- **Whatever fails of it, a sync disturbs nothing**, also one of a segment that was just left. -/
theorem sync_calm (writer : ∀ h ∈ log.writer, ∃ k number inode,
      s (.segment k) = some (number, inode) ∧ h.node = .file number) : ∃ d s' sync told w,
    log.sync.2 = { log with disk := d, needSync := sync, journal := told, writer := w } ∧
      (w = log.writer ∨ w = none) ∧ d.Calm c dir s' ∧ Undisturbed s s' := by
  unfold Log.sync
  split
  · obtain ⟨d, s', sync, told, eq, calm', same⟩ := storeRecord_calm log config calm named
    exact ⟨d, s', sync, told, log.writer, eq, Or.inl rfl, calm', same⟩
  · next x writing =>
    obtain ⟨k, number, inode, found, node⟩ := writer x writing
    obtain ⟨s₁, calm₁, same₁⟩ := calm.sync_any x node found (.update_segment found rfl)
    revert calm₁
    cases log.disk.sync x with
    | mk result d₁ =>
      intro calm₁
      cases result with
      | error e => exact ⟨d₁, s₁, log.needSync, log.journal, none, rfl, Or.inr rfl, calm₁, same₁⟩
      | ok u =>
        obtain ⟨d₂, s₂, sync, told, eq, calm₂, same₂⟩ :=
          storeRecord_calm { log with disk := d₁ } config calm₁ named
        exact ⟨d₂, s₂, sync, told, log.writer, eq, Or.inl rfl, calm₂, same₁.trans same₂⟩

end Syncing

namespace Steady

theorem sync (h : log.Steady c dir s) (named : c.Named) :
    ∃ s', log.sync.2.Steady c dir s' ∧ log.sync.2.outline s' = log.outline s := by
  obtain ⟨d, s', sync, told, w, eq, kept, calm, same⟩ := sync_calm log h.config h.calm named
    fun x writing => by
      obtain ⟨-, number, inode, found, x_eq⟩ := h.writer x writing
      exact ⟨_, number, inode, found, by rw [x_eq]⟩
  rw [eq]
  exact ⟨s', h.undisturbed calm same kept sync told, log.outline_eq_of_undisturbed same⟩

/-! ### Reading -/

/-- The segment at the read cursor is opened for reading if it is in the outline. -/
theorem openReader (h : log.Steady c dir s) (named : c.Named) :
    (log.outline s).opened c = none ∧
      (∃ e d, log.openReader = (.error e, { log with disk := d, reader := none }) ∧ d.Calm c dir s) ∨
    ∃ r d number inode, (log.outline s).opened c = some (inode.contents, r.lookahead) ∧
      log.openReader = (.ok r, { log with disk := d }) ∧ d.Calm c dir s ∧
      s (.segment log.read.file) = some (number, inode) ∧ r.handle.node = .file number := by
  have read : (log.outline s).read = log.read := rfl
  have reader : (log.outline s).reader = log.reader.map Reader.lookahead := rfl
  have segment : (log.outline s).segments log.read.file =
      (s (.segment log.read.file)).map (·.2.contents) := rfl
  rw [Outline.opened, read, reader, segment]
  rcases Option.eq_none_or_eq_some log.reader with closed | ⟨r, reading⟩
  · unfold Log.openReader
    simp only [closed, h.segmentPath]
    rcases Option.eq_none_or_eq_some (s (.segment log.read.file)) with missing | ⟨⟨number, inode⟩, found⟩
    · obtain ⟨e, d, failed, calm⟩ := h.calm.openRead_fails named (Or.inr missing)
      simp only [failed, missing]
      exact Or.inl ⟨rfl, _, d, rfl, calm⟩
    simp only [found, Option.map_some, Option.map_none]
    cases long : c.isLong (.segment log.read.file) with
    | true =>
      obtain ⟨e, d, failed, calm⟩ := h.calm.openRead_fails named (Or.inl long)
      simp only [failed]
      exact Or.inl ⟨rfl, _, d, rfl, calm⟩
    | false =>
      obtain ⟨d₁, opened, calm₁⟩ := h.calm.openRead named long found
      obtain ⟨d₂, sought, calm₂⟩ := calm₁.seek
        ⟨c.path (.segment log.read.file), .file number, 0⟩ log.read.offset rfl
      simp only [opened, sought]
      by_cases low : log.read.offset < Word.signedLimit
      · refine Or.inr ⟨⟨⟨c.path (.segment log.read.file), .file number, log.read.offset⟩, []⟩, d₂,
          number, inode, ?_, ?_, calm₂, rfl, rfl⟩
        · rw [if_neg (by simp [low])]
          rfl
        · simp only [if_pos low]
      · simp only [if_neg low]
        exact Or.inl ⟨if_pos (Or.inr (Nat.le_of_not_lt low)), _, d₂, rfl, calm₂⟩
  · obtain ⟨inside, number, inode, found, node⟩ := h.reader r reading
    have ready : log.openReader = (.ok r, log) := by simp only [Log.openReader, reading]
    refine Or.inr ⟨r, log.disk, number, inode, ?_, ready, h.calm, found, node⟩
    rw [reading, found]
    rfl

/-- **Reading gives the message that the outline gives, or fails as it does there.** -/
theorem readFrame (h : log.Steady c dir s) (named : c.Named) :
    (log.outline s).readFrame c = none ∧
      (∃ e d, log.readFrame = (.error e, { log with disk := d, reader := none }) ∧ d.Calm c dir s) ∨
    ∃ m log', (log.outline s).readFrame c = some (m, log'.outline s) ∧
      log.readFrame = (.ok m, log') ∧ log'.Steady c dir s ∧
      log'.read = log.read ∧ log'.write = log.write := by
  obtain ⟨least, most, limit⟩ := log.limits_of_config h.config
  obtain ⟨closed, e, d, failed, calm⟩ | ⟨r, d₁, number, inode, opened, reading, calm₁, found, node⟩ :=
    h.openReader named
  · refine Or.inl ⟨by rw [Outline.readFrame, closed], e, d, ?_, calm⟩
    rw [Log.readFrame, failed]
  obtain ⟨result, r', d₂, read, calm₂, node', same⟩ := Reader.readFrame_calm calm₁ node found
  have cursor : (log.outline s).read = log.read := rfl
  rw [Log.readFrame, reading]
  rw [Outline.readFrame, opened]
  simp only [least, most, read, same]
  cases result with
  | error e => exact Or.inl ⟨rfl, _, d₂, rfl, calm₂⟩
  | ok m =>
    obtain ⟨next, next_eq⟩ : ∃ next, next = log.read.past c.maxBytesPerFile m.length := ⟨_, rfl⟩
    simp only [after_eq, limit, cursor, ← next_eq]
    refine Or.inr ⟨m, { log with
      disk := d₂, next, reader := if next.file = log.read.file then some r' else none }, ?_, rfl, ?_,
      rfl, rfl⟩
    · simp only [Option.some.injEq, Prod.mk.injEq, true_and]
      unfold outline
      simp only
      split
      · rfl
      · rfl
    · refine ⟨h.config, calm₂, next_eq ▸ Position.le_of_lt Position.lt_past, ?_, h.writer⟩
      intro k kept
      simp only [Option.mem_def, Option.ite_none_right_eq_some, Option.some.injEq] at kept
      obtain ⟨inside, rfl⟩ := kept
      exact ⟨inside, number, inode, found, node'⟩

end Steady

end Log

end DurableQueue
