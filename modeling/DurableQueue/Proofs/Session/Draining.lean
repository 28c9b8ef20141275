import DurableQueue.Proofs.Log.Layout
import DurableQueue.Proofs.Session.Settling

/-!
# Skipping what is gone, and draining

After a crash the record may point into segments that were consumed and removed since it was
stored. Reading such a segment fails, the session quarantines it, which moves the cursor to the
next one, and so on until a segment is there (`settle_lacks`); each one skipped counts as a
corruption. From then on the messages are delivered one by one, and a depth that counted them still
does (`Ready.deliver`).
-/

namespace DurableQueue

open FileSystem

namespace Log

variable {log : Log} {dir : Location} {s s' : Shelf} {f : Nat} {ms : List Bytes} {d : Disk}

/-- The segments from the read cursor's to `f` are gone, and the messages `ms` lie from there. -/
structure Lacks (log : Log) (dir : Location) (s : Shelf) (f : Nat) (ms : List Bytes) : Prop where
  serves : log.disk.Serves log.config dir s
  closed : log.reader = none
  unwritten : log.writer = none
  before : log.read.file < f
  small : f < Word.limit
  gone : ∀ n, log.read.file ≤ n → n < f → s (.segment n) = none
  trail : Trail log.config (View.of s).segments ⟨f, 0⟩ ms log.write

theorem Lacks.file_le (h : log.Lacks dir s f ms) : f ≤ log.write.file := Position.file_le h.trail.le

theorem Lacks.hasUnread (h : log.Lacks dir s f ms) : log.hasUnread = true := by
  have before := h.before
  have behind := h.file_le
  rw [Log.hasUnread, decide_eq_true_iff]
  exact Or.inl (by omega)

theorem Lacks.alike (h : log.Lacks dir s f ms) (same : Alike s s')
    (serves : d.Serves log.config dir s') : { log with disk := d }.Lacks dir s' f ms where
  serves := serves
  closed := h.closed
  unwritten := h.unwritten
  before := h.before
  small := h.small
  gone n low high := by
    have eq := same n
    rw [h.gone n low high] at eq
    simpa using eq
  trail := same.segments ▸ h.trail

/-- A segment that is gone cannot be read. -/
theorem Lacks.readFrame (h : log.Lacks dir s f ms) (sound : log.config.Sound) :
    ∃ e d, log.readFrame = (.error e, { log with disk := d }) ∧
      d.Serves log.config dir s := by
  have num : (QueueFile.segment log.read.file).Numbered := Nat.lt_trans h.before h.small
  obtain ⟨d, refused, reached⟩ := h.serves.openRead_none (P := fun _ => True) sound num
    (h.gone _ (Nat.le_refl _) h.before) trivial
  have path : log.segmentPath log.read.file = log.config.path (.segment log.read.file) := rfl
  have opening : log.openReader =
      (.error (.openSegment (log.config.path (.segment log.read.file)) .notFound),
        { log with disk := d }) := by
    simp only [openReader, h.closed, path, refused]
  refine ⟨.openSegment (log.config.path (.segment log.read.file)) .notFound, d, ?_, reached.toServes⟩
  simp only [Log.readFrame, opening]

/-- Quarantining it goes on to the next segment. -/
theorem Lacks.quarantine (h : log.Lacks dir s f ms) (sound : log.config.Sound) :
    ∃ d depth sync told resets, log.quarantine = { log with
        read := log.read.nextFile, next := log.read.nextFile, disk := d, depth,
        needSync := sync, journal := told, tailResets := resets } ∧
      d.Serves log.config dir s := by
  have before := h.before
  have behind := h.file_le
  have num : (QueueFile.segment log.read.file).Numbered := Nat.lt_trans h.before h.small
  have num' : (QueueFile.quarantined log.read.file).Numbered := Nat.lt_trans h.before h.small
  obtain ⟨d, refused, reached⟩ := h.serves.rename_none (P := fun _ => True) sound num num'
    (h.gone _ (Nat.le_refl _) h.before) trivial
  have apart : log.read.file ≠ log.write.file := by omega
  have target : Naming.quarantinePath (log.config.path (.segment log.read.file)) =
      log.config.path (.quarantined log.read.file) := sound.named.path_quarantined log.read.file
  have source : log.segmentPath log.read.file = log.config.path (.segment log.read.file) := rfl
  obtain ⟨moved, moved_eq⟩ : ∃ moved : Log, moved = { log.tell .quarantineFailed with
      reader := none, disk := d, read := log.read.nextFile, next := log.read.nextFile,
      needSync := true } := ⟨_, rfl⟩
  have quarantined : log.quarantine = (moved.checkTail log.depth).2 := by
    rw [moved_eq]
    simp only [Log.quarantine, if_neg apart]
    simp only [segmentPath] at source ⊢
    simp only [source, target, refused, tell]
  have le : moved.read ≤ moved.write := by
    rw [moved_eq]
    simp only [Position.le_iff, Position.nextFile, tell]
    omega
  obtain ⟨depth, sync, told, resets, eq⟩ := checkTail_rest moved le log.depth
  refine ⟨d, depth, sync, told, resets, ?_, reached.toServes⟩
  rw [quarantined, eq, moved_eq, ← h.closed]
  rfl

end Log

namespace Session

variable {s : Session} {dir : Location} {shelf : Shelf} {m : Bytes} {ms : List Bytes} {f : Nat}

/-- What a session says of itself is right: the depth counts its messages, which can be counted, and
nothing was recovered or reset. -/
structure Counted (s : Session) (ms : List Bytes) : Prop where
  depth : s.log.depth = ms.length
  few : (ms.length : Int) < Word.signedLimit
  resets : s.log.tailResets = 0
  corruptions : s.corruptions = 0

/-- A session that has to skip to segment `f` before it can read. -/
theorem settleWithin_lacks (h : s.log.Lacks dir shelf f ms) (vacant : s.staged = none)
    (sound : s.log.config.Sound) (rounds : Nat) :
    ∃ shelf' s', s.settleWithin (rounds + 1) = settleWithin rounds s' ∧ s'.staged = none ∧
      s'.log.config = s.log.config ∧ s'.log.read.file = s.log.read.file + 1 ∧
      s'.log.write = s.log.write ∧ s'.corruptions = s.corruptions + 1 ∧
      (s'.log.Lacks dir shelf' f ms ∨
        (s'.log.read.file = f ∧ s'.log.Reads dir shelf' none ms)) := by
  obtain ⟨shelf', d₁, sync, told, dirty, flushed, done, first⟩ :=
    flush_spec (P := fun _ => True) h.serves (by rw [Log.Writes, h.unwritten]; nofun) sound trivial
      trivial
  obtain ⟨log, log_eq⟩ : ∃ log : Log,
    log = { s.log with disk := d₁, needSync := sync, journal := told } := ⟨_, rfl⟩
  rw [← log_eq] at flushed
  have lacks : log.Lacks dir shelf' f ms := by
    have moved := h.alike done.alike first.toServes
    rw [log_eq]
    exact ⟨moved.serves, moved.closed, moved.unwritten, moved.before, moved.small, moved.gone,
      moved.trail⟩
  have config : log.config = s.log.config := by rw [log_eq]
  obtain ⟨e, d₂, unread, second⟩ := lacks.readFrame (config ▸ sound)
  have lacks' : { log with disk := d₂ }.Lacks dir shelf' f ms := lacks.alike (.refl _) second
  obtain ⟨told', told_eq⟩ : ∃ told' : Log,
    told' = ({ log with disk := d₂ } : Log).tell .frameUnreadable := ⟨_, rfl⟩
  have lacks'' : told'.Lacks dir shelf' f ms := by
    rw [told_eq]
    exact ⟨lacks'.serves, lacks'.closed, lacks'.unwritten, lacks'.before, lacks'.small, lacks'.gone,
      lacks'.trail⟩
  have config' : told'.config = s.log.config := by rw [told_eq, ← config]; rfl
  obtain ⟨d₃, depth, sync', journal, resets, gone, third⟩ := lacks''.quarantine (config' ▸ sound)
  refine ⟨shelf', { s with
    log := told'.quarantine, dirty, corruptions := s.corruptions + 1 }, ?_, vacant, ?_, ?_, ?_, rfl, ?_⟩
  · rw [settleWithin, flushed]
    simp only [vacant, Option.isNone_none, lacks.hasUnread, and_self, if_true, unread, told_eq]
  · rw [gone]
    exact config'
  · rw [gone, told_eq, log_eq]
    rfl
  · rw [gone, told_eq, log_eq]
    rfl
  · have near := lacks''.before
    simp only
    rw [gone]
    rcases Nat.lt_or_ge (told'.read.file + 1) f with less | met
    · refine Or.inl ⟨third, lacks''.closed, lacks''.unwritten, less, lacks''.small,
        fun n low high => lacks''.gone n ?_ high, lacks''.trail⟩
      exact Nat.le_of_succ_le low
    · have here : told'.read.file + 1 = f := by omega
      refine Or.inr ⟨here, third, ?_, List.nil_prefix, rfl, ?_, ?_⟩
      · have trail := lacks''.trail
        rw [← here] at trail
        exact trail
      · rw [lacks''.closed]
        nofun
      · rw [lacks''.unwritten]
        nofun

/-- **However many segments are gone, the session comes to the first that is there.** -/
theorem settle_lacks (h : s.log.Lacks dir shelf f ms) (vacant : s.staged = none)
    (sound : s.log.config.Sound) :
    ∃ shelf', s.settle.Ready dir shelf' ms ∧ s.settle.log.config = s.log.config ∧
      s.corruptions < s.settle.corruptions := by
  have enough : f - s.log.read.file + 1 ≤ s.distance + 2 := by
    have := h.file_le
    simp only [distance]
    omega
  rw [settle]
  generalize s.distance + 2 = rounds at enough
  -- by the number of rounds; each skips one segment
  induction rounds generalizing s shelf with
  | zero => omega
  | succ rounds ih =>
    obtain ⟨shelf₁, s', round, vacant', config, onward, -, counted, outcome⟩ :=
      settleWithin_lacks h vacant sound rounds
    have before := h.before
    rw [round]
    rcases outcome with lacks | ⟨here, reads⟩
    · obtain ⟨shelf₂, ready, config', more⟩ := ih lacks vacant' (config ▸ sound) (by omega)
      exact ⟨shelf₂, ready, config'.trans config, by omega⟩
    · obtain ⟨left, rfl⟩ : ∃ left, rounds = left + 1 := ⟨rounds - 1, by omega⟩
      rw [← vacant'] at reads
      obtain ⟨shelf₂, settled, -⟩ := settleWithin_spec (P := fun _ => True) reads (config ▸ sound)
        trivial trivial left
      have same := settled.corruptions
      obtain ⟨d, next, sync, r, told, eq⟩ := settled.rest
      refine ⟨shelf₂, settled.toReady, ?_, by omega⟩
      rw [eq]
      exact config

theorem settle_ready (h : s.log.Reads dir shelf s.staged ms) (sound : s.log.config.Sound) :
    ∃ shelf', s.settle.Ready dir shelf' ms ∧ s.settle.log.config = s.log.config ∧
      (s.Counted ms → s.settle.Counted ms) := by
  obtain ⟨shelf', settled, -⟩ := settle_spec (P := fun _ => True) h sound trivial trivial
  have same := settled.corruptions
  obtain ⟨d, next, sync, r, told, eq⟩ := settled.rest
  refine ⟨shelf', settled.toReady, by rw [eq], fun counted => ⟨?_, counted.few, ?_, ?_⟩⟩
  · rw [eq]
    exact counted.depth
  · rw [eq]
    exact counted.resets
  · rw [same]
    exact counted.corruptions

/-- **A delivery takes the first message and leaves the rest.** -/
theorem Ready.deliver (h : s.Ready dir shelf (m :: ms)) (sound : s.log.config.Sound) :
    ∃ s' shelf', s.deliver = some (m, s') ∧ s'.Ready dir shelf' ms ∧
      s'.log.config = s.log.config ∧ (s.Counted (m :: ms) → s'.Counted ms) := by
  have staged : s.staged = some m := h.offer
  have reads := h.reads
  rw [staged] at reads
  obtain ⟨d, sync, told, depth, resets, eq, reads', -, counts⟩ :=
    Log.commit_reads (P := fun _ => True) reads sound trivial
  obtain ⟨log, log_eq⟩ : ∃ log,
    log = if s.log.commit.1 then s.log.commit.2.tell .tailReset else s.log.commit.2 := ⟨_, rfl⟩
  have delivered : s.deliver =
      some (m, settle { s with log, staged := none, dirty := s.dirty + 1 }) := by
    rw [Session.deliver, staged, log_eq]
    rfl
  have config : log.config = s.log.config := by
    rw [log_eq, eq]
    split
    · rfl
    · rfl
  have kept : log.Reads dir (s.log.leaving shelf) none ms := by
    rw [log_eq]
    split
    · exact ⟨reads'.serves, reads'.trail, reads'.staged_first, reads'.next_eq, reads'.reader,
        reads'.writer⟩
    · exact reads'
  obtain ⟨shelf', ready, config', counted'⟩ := settle_ready
    (s := { s with log, staged := none, dirty := s.dirty + 1 }) kept (config ▸ sound)
  refine ⟨_, shelf', delivered, ready, config'.trans config, fun counted => counted' ?_⟩
  have few := counted.few
  rw [List.length_cons] at few
  obtain ⟨depth_eq, resets_eq, calm⟩ :=
    counts (by rw [counted.depth, List.length_cons]; omega) (by omega)
  rw [calm, eq] at log_eq
  refine ⟨?_, by omega, ?_, counted.corruptions⟩
  · rw [log_eq]
    exact depth_eq
  · rw [log_eq]
    exact resets_eq.trans counted.resets

theorem Ready.deliver_none (h : s.Ready dir shelf []) : s.deliver = none := by
  have vacant : s.staged = none := h.offer
  rw [Session.deliver, vacant]
  rfl

end Session

end DurableQueue
