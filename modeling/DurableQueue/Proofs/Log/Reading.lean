import DurableQueue.Proofs.Log.Ahead
import DurableQueue.Proofs.Log.Trail
import DurableQueue.Proofs.Record.Storing

/-!
# Reading and committing

`Log.Reads` is the state of a log whose unread messages are `ms`, the first of them read already
if one is staged: their frames lie from the read cursor to the write cursor, the reader that is
kept offers what the file holds, and the writer stands at the write cursor. Reading stages the
first message (`readFrame_spec`), and committing moves on to the rest of them (`commit_spec`).
-/

namespace DurableQueue

open FileSystem

namespace Log

/-- The unread messages of a log are `ms`, and the first of them is `staged`, if any is. -/
structure Reads (log : Log) (dir : Location) (s : Shelf) (staged : Option Bytes)
    (ms : List Bytes) : Prop where
  serves : log.disk.Serves log.config dir s
  trail : Trail log.config (View.of s).segments log.read ms log.write
  staged_first : staged.toList <+: ms
  next_eq : log.next = log.read.ends log.config.maxBytesPerFile staged.toList
  reader : ∀ r ∈ log.reader, log.next.file = log.read.file ∧
    ∃ number inode, s (.segment log.next.file) = some (number, inode) ∧
      r.Offers number inode.contents log.next.offset (inode.contents.drop log.next.offset)
  writer : ∀ h ∈ log.writer, ∃ number inode, s (.segment log.write.file) = some (number, inode) ∧
    h = ⟨log.config.path (.segment log.write.file), .file number, log.write.offset⟩

variable {log : Log} {dir : Location} {P : View → Prop} {s s' : Shelf} {staged : Option Bytes}
  {m : Bytes} {ms : List Bytes}

/-- The messages that are neither delivered nor staged lie from `next` on. -/
theorem Reads.rest (h : log.Reads dir s staged ms) :
    Trail log.config (View.of s).segments log.next (ms.drop staged.toList.length) log.write := by
  obtain ⟨rest, split⟩ := h.staged_first
  have trail := h.trail
  rw [← split] at trail
  rw [h.next_eq, ← split, List.drop_left]
  exact trail.split.2

theorem Reads.hasUnread_iff (h : log.Reads dir s staged ms) : log.hasUnread = true ↔ ms ≠ [] := by
  rw [hasUnread, decide_eq_true_iff]
  exact h.trail.lt_iff

theorem Reads.read_le (h : log.Reads dir s staged ms) : log.read ≤ log.write := h.trail.le

theorem Reads.next_le (h : log.Reads dir s staged ms) : log.next ≤ log.write := h.rest.le

theorem Reads.read_le_next (h : log.Reads dir s staged ms) : log.read ≤ log.next := by
  rw [h.next_eq]
  exact Position.le_ends

/-! ### Reading -/

/-- The reader that is kept, or one that is opened now, offers the segment at the read cursor. -/
theorem openReader_spec (h : log.Reads dir s none (m :: ms)) (sound : log.config.Sound)
    (shown : P (.of s)) :
    ∃ r d number inode, log.openReader = (.ok r, { log with disk := d }) ∧
      s (.segment log.read.file) = some (number, inode) ∧
      r.Offers number inode.contents log.read.offset (inode.contents.drop log.read.offset) ∧
      Disk.Reaches log.config dir P log.disk d s := by
  have next : log.next = log.read := h.next_eq
  rcases Option.eq_none_or_eq_some log.reader with kept | ⟨r, kept⟩
  · cases h.trail with
    | cons fits admitted there frame rest =>
      obtain ⟨number, inode, found, -⟩ := View.some_of_segments there
      obtain ⟨d₁, opened, first⟩ := h.serves.openRead (P := P) sound
        (show (QueueFile.segment log.read.file).Numbered from fits.1) found shown
      obtain ⟨d₂, sought, second⟩ := first.seek (P := P)
        ⟨log.config.path (.segment log.read.file), .file number, 0⟩ rfl fits.2 shown
      refine ⟨_, d₂, number, inode, ?_, found,
        Reader.offers_open (log.config.path (.segment log.read.file)), first.trans second⟩
      have path : log.segmentPath log.read.file = log.config.path (.segment log.read.file) := rfl
      simp only [openReader, kept, path, opened, sought]
  · obtain ⟨-, number, inode, found, offers⟩ := h.reader r kept
    rw [next] at found offers
    have opened : log.openReader = (.ok r, log) := by simp only [openReader, kept]
    exact ⟨r, log.disk, number, inode, opened, found, offers, h.serves.refl⟩

/-- Reading stages the first unread message. -/
theorem readFrame_spec (h : log.Reads dir s none (m :: ms)) (sound : log.config.Sound)
    (shown : P (.of s)) :
    ∃ log', log.readFrame = (.ok m, log') ∧
      (∃ r d, log' = { log with
        disk := d, reader := r, next := log.read.past log.config.maxBytesPerFile m.length }) ∧
      log'.Reads dir s (some m) (m :: ms) ∧
      Disk.Reaches log.config dir P log.disk log'.disk s := by
  obtain ⟨r, d₁, number, inode, opened, found, offers, first⟩ := openReader_spec h sound shown
  obtain ⟨admitted, frame⟩ : log.config.Admits m ∧
      Frame.encode m <+: inode.contents.drop log.read.offset := by
    cases h.trail with
    | cons fits admitted there frame rest =>
      rw [View.segments_of_some found, Option.some.injEq] at there
      exact ⟨admitted, there ▸ frame⟩
  obtain ⟨r', d₂, read, offers', second⟩ :=
    Reader.read_of_offers first.toServes sound found shown offers admitted frame
  rw [List.drop_drop] at offers'
  obtain ⟨next, next_eq⟩ : ∃ next, next = log.read.past log.config.maxBytesPerFile m.length := ⟨_, rfl⟩
  rw [← next_eq]
  refine ⟨{ log with
    disk := d₂, next, reader := if next.file = log.read.file then some r' else none }, ?_,
    ⟨_, _, rfl⟩, ?_, first.trans second⟩
  · simp only [readFrame, opened, read, after_eq, ← next_eq]
  · refine ⟨second.toServes, h.trail, ⟨ms, rfl⟩, next_eq, ?_, h.writer⟩
    intro k kept
    simp only [Option.mem_def, Option.ite_none_right_eq_some, Option.some.injEq] at kept
    obtain ⟨same, rfl⟩ := kept
    refine ⟨same, number, inode, ?_, ?_⟩
    · rw [same]
      exact found
    · rcases Position.past_cases log.config.maxBytesPerFile log.read m.length with
        ⟨e, -⟩ | ⟨e, -⟩
      · rw [next_eq, e]
        exact offers'
      · rw [next_eq, e] at same
        simp only [Position.nextFile] at same
        omega

/-! ### Committing -/

/-- Once all is read the depth is put right; nothing else is ever wrong. -/
theorem checkTail_eq (h : log.Reads dir s none ms) (length : Int) :
    log.checkTail length =
      if ms = [] ∧ length ≠ 0 then
        (true, { log.tell .depthReset with
          depth := 0, needSync := true, tailResets := log.tailResets + 1 })
      else (false, log) := by
  cases ms with
  | nil =>
    have none : log.hasUnread = false := by
      rw [Bool.eq_false_iff]
      exact fun unread => h.hasUnread_iff.1 unread rfl
    have meet : log.read = log.write := h.trail.ends_eq
    by_cases zero : length = 0
    · simp [checkTail, none, meet, zero]
    · simp [checkTail, none, meet, zero, tell]
  | cons m ms =>
    have unread : log.hasUnread = true := h.hasUnread_iff.2 (by simp)
    simp [checkTail, unread]

/-- A look at the tail that finds nothing wrong changes nothing. -/
theorem checkTail_of_false (log : Log) {length : Int} (calm : (log.checkTail length).1 = false) :
    (log.checkTail length).2 = log := by
  by_cases unread : log.hasUnread = true
  · simp only [checkTail, if_pos unread]
  by_cases zero : length = 0
  · by_cases met : log.read = log.write
    · simp [checkTail, unread, zero, met]
    · simp [checkTail, unread, zero, met] at calm
  · simp [checkTail, unread, zero] at calm

/-- As long as the read cursor has not passed the write cursor, looking at the tail moves
neither. -/
theorem checkTail_rest (log : Log) (le : log.read ≤ log.write) (length : Int) :
    ∃ depth sync told resets, (log.checkTail length).2 = { log with
      depth, needSync := sync, journal := told, tailResets := resets } := by
  by_cases unread : log.hasUnread = true
  · exact ⟨log.depth, log.needSync, log.journal, log.tailResets, by simp [checkTail, unread]⟩
  · have meet : log.read = log.write := by
      apply Position.le_antisymm le
      rw [Log.hasUnread, decide_eq_true_iff] at unread
      exact Position.not_lt.1 unread
    by_cases zero : length = 0
    · have same : log.checkTail length = (false, log) := by
        simp only [checkTail, if_neg unread, zero, ne_eq, not_true_eq_false, if_false, meet, or_self]
      exact ⟨log.depth, log.needSync, log.journal, log.tailResets, by rw [same]⟩
    · have reset : log.checkTail length = (true, { log.tell .depthReset with
          depth := 0, needSync := true, tailResets := log.tailResets + 1 }) := by
        simp only [checkTail, if_neg unread, zero, ne_eq, not_false_eq_true, if_true, tell, meet,
          not_true_eq_false, if_false, true_or]
      exact ⟨0, true, .depthReset :: log.journal, log.tailResets + 1, by rw [reset]; rfl⟩

/-- The shelf once the segments before `next` are gone. -/
def leaving (log : Log) (s : Shelf) : Shelf :=
  if log.next.file = log.read.file then s else Function.update s (.segment log.read.file) none

/-- The log once the read cursor stands at `next`, before its tail is looked at. -/
theorem commit_spec (h : log.Reads dir s (some m) (m :: ms)) (sound : log.config.Sound)
    (shown : P (.of (log.leaving s))) :
    ∃ d sync told,
      let moved : Log := { log with
        read := log.next, depth := Word.wrap (log.depth - 1), disk := d, needSync := sync,
        journal := told }
      log.commit = moved.checkTail (Word.wrap (log.depth - 1)) ∧
      moved.Reads dir (log.leaving s) none ms ∧
      Disk.Reaches log.config dir P log.disk d (log.leaving s) := by
  have rest : Trail log.config (View.of s).segments log.next ms log.write := h.rest
  by_cases same : log.next.file = log.read.file
  · rw [leaving, if_pos same] at shown ⊢
    refine ⟨log.disk, log.needSync, log.journal, ?_, ?_, h.serves.refl⟩
    · simp only [commit, if_pos same.symm]
    · exact ⟨h.serves, rest, List.nil_prefix, rfl,
        fun r kept => ⟨rfl, (h.reader r kept).2⟩, h.writer⟩
  · rw [leaving, if_neg same] at shown ⊢
    have away : log.read.file < log.next.file := by
      have := Position.file_le h.read_le_next
      omega
    have behind := Position.file_le h.next_le
    cases h.trail with
    | cons fits admitted there frame _ =>
      obtain ⟨number, inode, found, -⟩ := View.some_of_segments there
      obtain ⟨d, removed, reached⟩ := h.serves.remove (P := P) sound
        (show (QueueFile.segment log.read.file).Numbered from fits.1) found shown
      have path : log.segmentPath log.read.file = log.config.path (.segment log.read.file) := rfl
      refine ⟨d, true, .consumedRemoved :: log.journal, ?_, ?_, reached⟩
      · simp only [commit, if_neg (Ne.symm same)]
        simp only [segmentPath] at path ⊢
        simp only [path, removed, tell]
      · refine ⟨reached.toServes, ?_, List.nil_prefix, rfl, ?_, ?_⟩
        · apply rest.congr_between
          intro k low _
          rw [View.of_update_segment]
          exact Function.update_of_ne (by omega) ..
        · intro r kept
          exact absurd (h.reader r kept).1 same
        · intro w open_
          obtain ⟨n, i, there, eq⟩ := h.writer w open_
          refine ⟨n, i, ?_, eq⟩
          rw [Function.update_of_ne]
          · exact there
          · simp only [ne_eq, QueueFile.segment.injEq]
            omega

/-- Committing leaves the rest of the messages unread. If the depth counted them, it still does,
and nothing has to be put right. -/
theorem commit_reads (h : log.Reads dir s (some m) (m :: ms)) (sound : log.config.Sound)
    (shown : P (.of (log.leaving s))) :
    ∃ d sync told depth resets,
      log.commit.2 = { log with
        read := log.next, depth, tailResets := resets, disk := d, needSync := sync,
        journal := told } ∧
      log.commit.2.Reads dir (log.leaving s) none ms ∧
      Disk.Reaches log.config dir P log.disk d (log.leaving s) ∧
      (log.depth = ms.length + 1 → (ms.length : Int) < Word.signedLimit →
        depth = ms.length ∧ resets = log.tailResets ∧ log.commit.1 = false) := by
  obtain ⟨d, sync, told, eq, reads, reached⟩ := commit_spec h sound shown
  have tail := checkTail_eq reads (Word.wrap (log.depth - 1))
  rw [← eq] at tail
  by_cases wrong : ms = [] ∧ Word.wrap (log.depth - 1) ≠ 0
  · rw [if_pos wrong] at tail
    refine ⟨d, true, .depthReset :: told, 0, log.tailResets + 1, ?_, ?_, reached, ?_⟩
    · rw [tail]
      rfl
    · rw [tail]
      exact ⟨reads.serves, reads.trail, reads.staged_first, reads.next_eq, reads.reader,
        reads.writer⟩
    · intro counted _
      obtain ⟨rfl, off⟩ := wrong
      rw [counted] at off
      exact absurd (Word.wrap_of_fits (by decide) (by decide)) off
  · rw [if_neg wrong] at tail
    refine ⟨d, sync, told, Word.wrap (log.depth - 1), log.tailResets, ?_, ?_, reached, ?_⟩
    · rw [tail]
    · rw [tail]
      exact reads
    · intro counted fits
      refine ⟨?_, rfl, by rw [tail]⟩
      rw [counted, Int.add_sub_cancel]
      simp only [Word.signedLimit] at fits
      exact Word.wrap_of_fits (by omega) fits

end Log

end DurableQueue
