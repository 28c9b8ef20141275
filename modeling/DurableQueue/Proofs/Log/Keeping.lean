import DurableQueue.Proofs.Log.Deleting
import DurableQueue.Proofs.Log.Layout
import DurableQueue.Proofs.Session.Settling

/-!
# What a log keeps

`Log.Keeps` is the invariant of a log that nobody else touches: of the messages accepted since
its start, `u` are delivered and the others are unread, everything from the segment being read on
is laid out on disk up to the last byte, the depth counts what is unread, and the record, if there
is one, stands on the same trail with its write cursor in the segment being written. Each operation
of a log that nothing fails keeps it, and at every moment of each the queue could be reopened
(`Recoverable`).
-/

namespace DurableQueue

open FileSystem

/-- Nothing lies past the write cursor. -/
structure Ends (segments : Nat → Option Bytes) (write : Position) : Prop where
  beyond : ∀ k, write.file < k → segments k = none
  last : ((segments write.file).getD []).length = write.offset

/-- A frame at the write cursor ends the last segment. -/
theorem Ends.snoc {v : View} {write : Position} {m : Bytes} (h : Ends v.segments write) (limit : Nat) :
    Ends (v.withFrame write m).segments (write.past limit m.length) := by
  have there : (v.withFrame write m).segments write.file =
      some (((v.segments write.file).getD []) ++ Frame.encode m) := by
    simp only [View.withFrame, Function.update_self]
    rw [← h.last, Bytes.overwrite_length]
  have elsewhere : ∀ k, k ≠ write.file → (v.withFrame write m).segments k = v.segments k :=
    fun k ne => by simp only [View.withFrame, Function.update_of_ne ne]
  rcases Position.past_cases limit write m.length with ⟨e, -⟩ | ⟨e, -⟩
  · rw [e]
    refine ⟨fun k above => ?_, ?_⟩
    · simp only at above
      rw [elsewhere k (by omega)]
      exact h.beyond k above
    · simp only [there, Option.getD_some, List.length_append, Frame.length_encode, h.last]
  · rw [e]
    refine ⟨fun k above => ?_, ?_⟩
    · simp only [Position.nextFile] at above
      rw [elsewhere k (by omega)]
      exact h.beyond k (by omega)
    · simp only [Position.nextFile]
      rw [elsewhere _ (by omega), h.beyond _ (by omega)]
      rfl

/-- A shelf with no segment, no record and nothing temporary. -/
structure Bare (s : Shelf) : Prop where
  segments : ∀ k, (View.of s).segments k = none
  record : (View.of s).record = none
  tidy : Tidy s

/-- The record, if there is one, stands on the trail of the accepted messages, and its write
cursor in the segment being written. -/
def Recorded (c : Config) (start : Position) (accepted : List Bytes) (u : Nat) (write : Position)
    (v : View) : Prop :=
  ∀ bs ∈ v.record, ∃ r i j, bs = Text.encode r.text ∧ r.InWords ∧
    Marks c start accepted r i j ∧ i ≤ u ∧ r.write.file = write.file

/-- Of the messages accepted since `start`, the first `u` are delivered. -/
structure Log.Keeps (log : Log) (dir : Location) (s : Shelf) (staged : Option Bytes)
    (start : Position) (accepted : List Bytes) (u : Nat) : Prop where
  reads : log.Reads dir s staged (accepted.drop u)
  delivered_le : u ≤ accepted.length
  read_eq : log.read = start.ends log.config.maxBytesPerFile (accepted.take u)
  layout : ∃ a ≤ u, Layout log.config (View.of s).segments start accepted a log.read.file
  ends : Ends (View.of s).segments log.write
  depth_eq : log.depth = (accepted.length - u : Nat)
  few : ((accepted.length - u : Nat) : Int) < Word.signedLimit
  words : log.write.InWords
  recorded : Recorded log.config start accepted u log.write (.of s)
  tidy : Tidy s

namespace Log

variable {log : Log} {dir : Location} {s s' : Shelf} {staged : Option Bytes} {start : Position}
  {accepted : List Bytes} {m : Bytes} {u : Nat}

theorem Keeps.write_eq (h : log.Keeps dir s staged start accepted u) :
    log.write = start.ends log.config.maxBytesPerFile accepted := by
  have ends := h.reads.trail.ends_eq
  rw [h.read_eq, ← Position.ends_append, List.take_append_drop] at ends
  exact ends.symm

theorem Keeps.read_words (h : log.Keeps dir s staged start accepted u) : log.read.InWords := by
  obtain ⟨file, offset⟩ := h.words
  have trail := h.reads.trail
  cases e : accepted.drop u with
  | nil =>
    rw [e] at trail
    have meet : log.read = log.write := trail.ends_eq
    rw [meet]
    exact h.words
  | cons m ms =>
    rw [e] at trail
    cases trail with
    | cons fits admitted there frame rest =>
      refine ⟨fits.1, Nat.lt_trans fits.2 ?_⟩
      decide

/-- The record that a sync would store can be read back. -/
theorem Keeps.record_words (h : log.Keeps dir s staged start accepted u) :
    log.record.InWords where
  low := by
    simp only [record, h.depth_eq, Word.signedLimit]
    omega
  high := by
    simp only [record, h.depth_eq]
    exact h.few
  read := h.read_words
  write := h.words

theorem Keeps.marks (h : log.Keeps dir s staged start accepted u) :
    Marks log.config start accepted log.record u accepted.length :=
  marks_current h.delivered_le h.read_eq h.write_eq h.depth_eq

theorem Keeps.file_le (h : log.Keeps dir s staged start accepted u) :
    log.read.file ≤ log.write.file := Position.file_le h.reads.read_le

/-- While nothing happens the queue could be reopened. -/
theorem Keeps.recoverable (h : log.Keeps dir s staged start accepted u) :
    Recoverable log.config start accepted u (.of s) := by
  obtain ⟨a, low, layout⟩ := h.layout
  apply layout.recoverable low
  intro bs there
  obtain ⟨r, i, j, eq, words, marks, behind, same⟩ := h.recorded bs there
  exact ⟨r, i, j, eq, words, marks, behind, by rw [same]; exact h.file_le⟩

/-- Once the log's own record is stored it still could. -/
theorem Keeps.recoverable_stored (h : log.Keeps dir s staged start accepted u) :
    Recoverable log.config start accepted u
      { View.of s with record := some (Text.encode log.record.text) } := by
  obtain ⟨a, low, layout⟩ := h.layout
  refine Layout.recoverable (v := { View.of s with record := _ }) layout low fun bs there => ?_
  cases there
  exact ⟨log.record, u, accepted.length, rfl, h.record_words, h.marks, Nat.le_refl u, h.file_le⟩

/-- What a log keeps depends on the files only through its messages, its segments and its
record. -/
theorem Keeps.flushed {log' : Log} {staged' : Option Bytes}
    (h : log.Keeps dir s staged start accepted u) (done : Session.Flushed log s s')
    (reads : log'.Reads dir s' staged' (accepted.drop u)) (config : log'.config = log.config)
    (record : log'.record = log.record) : log'.Keeps dir s' staged' start accepted u := by
  have depth : log'.depth = log.depth := congrArg Record.length record
  have read : log'.read = log.read := congrArg Record.read record
  have write : log'.write = log.write := congrArg Record.write record
  refine ⟨reads, h.delivered_le, ?_, ?_, ?_, depth.trans h.depth_eq, h.few, ?_, ?_, done.tidy h.tidy⟩
  · rw [read, config]
    exact h.read_eq
  · rw [read, config, done.alike.segments]
    exact h.layout
  · rw [write, done.alike.segments]
    exact h.ends
  · rw [write]
    exact h.words
  · rw [write, config]
    intro bs there
    rcases done.record with kept | stored
    · rw [kept] at there
      exact h.recorded bs there
    · rw [stored] at there
      cases there
      exact ⟨log.record, u, accepted.length, rfl, h.record_words, h.marks, Nat.le_refl u, rfl⟩

/-! ### Appending -/

theorem Keeps.agrees (h : log.Keeps dir s staged start accepted u) : log.Agrees (.of s) m := by
  intro r kept same
  obtain ⟨-, number, inode, found, offers⟩ := h.reads.reader r kept
  have last := h.ends.last
  rw [same] at found
  rw [View.segments_of_some found, Option.getD_some] at last ⊢
  rw [← last, Bytes.overwrite_length]
  refine offers.kept.trans ?_
  rw [List.drop_append]
  exact List.prefix_append ..

/-- The counters that an append moves have room: the write cursor stands where a segment can be
opened, and one more segment and one more message can be counted. -/
structure HasRoom (log : Log) : Prop where
  file : log.write.file + 1 < Word.limit
  offset : log.write.offset < Word.signedLimit
  depth : log.depth + 1 < Word.signedLimit

instance (log : Log) : Decidable log.HasRoom :=
  decidable_of_iff (log.write.file + 1 < Word.limit ∧ log.write.offset < Word.signedLimit ∧
    log.depth + 1 < Word.signedLimit)
    ⟨fun h => ⟨h.1, h.2.1, h.2.2⟩, fun h => ⟨h.file, h.offset, h.depth⟩⟩

theorem HasRoom.fits (room : log.HasRoom) : log.write.Fits :=
  ⟨Nat.lt_of_succ_lt room.file, room.offset⟩

/-- With room left, the write cursor is kept in words. -/
theorem HasRoom.past_words (room : log.HasRoom) (valid : log.config.Valid)
    (admitted : log.config.Admits m) :
    (log.write.past log.config.maxBytesPerFile m.length).InWords := by
  have size := valid.admits_lt admitted
  have file := room.file
  have offset := room.offset
  rcases Position.past_cases log.config.maxBytesPerFile log.write m.length with ⟨e, -⟩ | ⟨e, -⟩
  · rw [e]
    refine ⟨by simp only; omega, ?_⟩
    simp only [Frame.diskSize, Frame.headerSize, Word.limit, Word.signedLimit] at offset ⊢
    omega
  · rw [e]
    exact ⟨file, by simp only [Position.nextFile]; decide⟩

/-- The cursors and the depth of the log that an append leads to. -/
theorem Keeps.appended_record (h : log.Keeps dir s staged start accepted u) (sound : log.config.Sound)
    (room : log.HasRoom) (admitted : log.config.Admits m) :
    (log.appended m).record.InWords ∧
      Marks log.config start (accepted ++ [m]) (log.appended m).record u (accepted ++ [m]).length ∧
      (log.appended m).depth = ((accepted ++ [m]).length - u : Nat) := by
  have delivered := h.delivered_le
  have counted := h.depth_eq
  have few := room.depth
  have depth : (log.appended m).depth = ((accepted ++ [m]).length - u : Nat) := by
    simp only [appended, Word.signedLimit, List.length_append, List.length_singleton] at few ⊢
    rw [Word.wrap_of_fits (by omega) (by omega), counted]
    omega
  refine ⟨⟨?_, ?_, h.read_words, room.past_words sound.toValid admitted⟩, ?_, depth⟩
  · simp only [record, depth, Word.signedLimit]
    omega
  · simp only [record, depth, List.length_append, List.length_singleton]
    omega
  · refine marks_current ?_ ?_ ?_ depth
    · simp only [List.length_append]
      omega
    · rw [List.take_append_of_le_length delivered]
      exact h.read_eq
    · rw [Position.ends_append, ← h.write_eq]
      rfl

/-- Nothing that an append does to the files gets in the way of reopening the queue. -/
theorem Keeps.shownAppending (h : log.Keeps dir s staged start accepted u) (sound : log.config.Sound)
    (room : log.HasRoom) (admitted : log.config.Admits m) :
    log.ShownAppending (Recoverable log.config start (accepted ++ [m]) u) (.of s) m := by
  obtain ⟨a, low, layout⟩ := h.layout
  have behind := h.file_le
  have after := layout.snoc h.write_eq room.fits admitted
  refine ⟨h.recoverable.snoc, ?_, ?_, fun _ => ?_⟩
  · refine Recoverable.snoc ((layout.opened h.write_eq).recoverable low fun bs there => ?_)
    obtain ⟨r, i, j, eq, words, marks, le, same⟩ := h.recorded bs there
    exact ⟨r, i, j, eq, words, marks, le, by rw [same]; exact behind⟩
  · apply after.recoverable low
    intro bs there
    obtain ⟨r, i, j, eq, words, marks, le, same⟩ := h.recorded bs there
    exact ⟨r, i, j, eq, words, marks.snoc, le, by rw [same]; exact behind⟩
  · obtain ⟨words, marks, -⟩ := h.appended_record sound room admitted
    refine Layout.recoverable (v := { (View.of s).withFrame log.write m with record := _ }) after low
      fun bs there => ?_
    cases there
    refine ⟨_, u, _, rfl, words, marks, Nat.le_refl u, Nat.le_trans behind ?_⟩
    exact Position.file_le (Position.le_of_lt Position.lt_past)

/-- **An append keeps its message after the others.** -/
theorem Keeps.append (h : log.Keeps dir s staged start accepted u) (sound : log.config.Sound)
    (room : log.HasRoom) (admitted : log.config.Admits m) :
    ∃ s' log', log.append m = (.ok (), log') ∧ log'.config = log.config ∧
      log'.Keeps dir s' staged start (accepted ++ [m]) u ∧
      Disk.Reaches log.config dir (Recoverable log.config start (accepted ++ [m]) u) log.disk
        log'.disk s' := by
  obtain ⟨s', log', ok, done, reads, reached⟩ := append_spec h.reads sound room.fits admitted h.agrees
    (h.shownAppending sound room admitted)
  obtain ⟨words, marks, depth⟩ := h.appended_record sound room admitted
  obtain ⟨a, low, layout⟩ := h.layout
  obtain ⟨d, sync, told, w, rfl⟩ := done.rest
  refine ⟨s', _, ok, rfl, ?_, reached⟩
  refine ⟨?_, ?_, ?_, ⟨a, low, ?_⟩, ?_, depth, ?_, ?_, ?_, done.tidy h.tidy⟩
  · rw [List.drop_append_of_le_length h.delivered_le]
    exact reads
  · have := h.delivered_le
    simp only [List.length_append]
    omega
  · rw [List.take_append_of_le_length h.delivered_le]
    exact h.read_eq
  · rw [done.segments]
    exact layout.snoc h.write_eq room.fits admitted
  · rw [done.segments]
    exact h.ends.snoc _
  · rw [← depth]
    exact words.high
  · exact words.write
  · intro bs there
    rcases done.record with ⟨same, kept⟩ | stored | ⟨-, messy⟩
    · rw [kept] at there
      obtain ⟨r, i, j, eq, words, marks, le, file⟩ := h.recorded bs there
      exact ⟨r, i, j, eq, words, marks.snoc, le, file.trans same.symm⟩
    · rw [stored] at there
      cases there
      exact ⟨_, u, _, rfl, words, marks, Nat.le_refl u, rfl⟩
    · exact absurd h.tidy messy

/-! ### Committing -/

/-- The layout once the message at the read cursor is delivered. -/
theorem Keeps.leaving (h : log.Keeps dir s (some m) start accepted u) :
    log.next = start.ends log.config.maxBytesPerFile (accepted.take (u + 1)) ∧
      accepted.drop u = m :: accepted.drop (u + 1) ∧ u + 1 ≤ accepted.length ∧
      (∃ a ≤ u + 1, Layout log.config (View.of (log.leaving s)).segments start accepted a
        log.next.file) ∧
      Ends (View.of (log.leaving s)).segments log.write ∧
      (View.of (log.leaving s)).record = (View.of s).record ∧ Tidy (log.leaving s) := by
  obtain ⟨ms, split⟩ := h.reads.staged_first
  have split : accepted.drop u = m :: ms := split.symm
  have some : u + 1 ≤ accepted.length := by
    have := congrArg List.length split
    simp only [List.length_drop, List.length_cons] at this
    omega
  have rest : accepted.drop (u + 1) = ms := by
    rw [← List.drop_drop, split]
    rfl
  have front : accepted.take (u + 1) = accepted.take u ++ [m] := by
    rw [List.take_add, split]
    rfl
  have next : log.next = start.ends log.config.maxBytesPerFile (accepted.take (u + 1)) := by
    rw [front, Position.ends_append, ← h.read_eq, h.reads.next_eq]
    rfl
  obtain ⟨a, low, layout⟩ := h.layout
  refine ⟨next, by rw [rest, split], some, ?_⟩
  by_cases same : log.next.file = log.read.file
  · rw [Log.leaving, if_pos same, same]
    exact ⟨⟨a, by omega, layout⟩, h.ends, rfl, h.tidy⟩
  · have away : log.next = ⟨log.read.file + 1, 0⟩ := by
      have past : log.next = log.read.past log.config.maxBytesPerFile m.length := h.reads.next_eq
      rcases Position.past_cases log.config.maxBytesPerFile log.read m.length with ⟨e, -⟩ | ⟨e, -⟩
      · rw [past, e] at same
        exact absurd rfl same
      · rw [past, e]
        rfl
    have before : log.read.file < log.write.file := by
      have := Position.file_le h.reads.next_le
      rw [away] at this
      exact this
    rw [Log.leaving, if_neg same]
    refine ⟨⟨u + 1, Nat.le_refl _, ?_⟩, ⟨fun k above => ?_, ?_⟩, ?_, fun tag => ?_⟩
    · rw [View.of_update_segment, away]
      exact layout.leave (by omega) some (by rw [← next, away])
    · rw [View.of_update_segment]
      simp only
      rw [Function.update_of_ne (by omega)]
      exact h.ends.beyond k above
    · rw [View.of_update_segment]
      simp only
      rw [Function.update_of_ne (by omega)]
      exact h.ends.last
    · rw [View.of_update_segment]
    · rw [Function.update_of_ne (by simp)]
      exact h.tidy tag

/-- **A delivery takes the first unread message off.** -/
theorem Keeps.commit (h : log.Keeps dir s (some m) start accepted u) (sound : log.config.Sound) :
    log.commit.1 = false ∧ log.commit.2.config = log.config ∧
      log.commit.2.Keeps dir (log.leaving s) none start accepted (u + 1) ∧
      Disk.Reaches log.config dir (Recoverable log.config start accepted (u + 1)) log.disk
        log.commit.2.disk (log.leaving s) := by
  obtain ⟨next, split, some, ⟨a, low, layout⟩, ends, record, tidy⟩ := h.leaving
  have recorded : Recorded log.config start accepted (u + 1) log.write (.of (log.leaving s)) := by
    intro bs there
    rw [record] at there
    obtain ⟨r, i, j, eq, words, marks, le, file⟩ := h.recorded bs there
    exact ⟨r, i, j, eq, words, marks, Nat.le_succ_of_le le, file⟩
  have shown : Recoverable log.config start accepted (u + 1) (.of (log.leaving s)) := by
    apply layout.recoverable low
    intro bs there
    obtain ⟨r, i, j, eq, words, marks, le, file⟩ := recorded bs there
    exact ⟨r, i, j, eq, words, marks, le, by rw [file]; exact Position.file_le h.reads.next_le⟩
  have reads := h.reads
  rw [split] at reads
  obtain ⟨d, sync, told, depth, resets, eq, reads', reached, counts⟩ :=
    commit_reads reads sound shown
  have few := h.few
  have counted := h.depth_eq
  obtain ⟨depth_eq, -, calm⟩ := counts
    (by rw [counted, List.length_drop]; omega) (by rw [List.length_drop]; omega)
  refine ⟨calm, by rw [eq], ?_, by rw [eq]; exact reached⟩
  rw [eq] at reads' ⊢
  refine ⟨reads', some, next, ⟨a, low, layout⟩, ends, ?_, by omega, h.words, recorded, tidy⟩
  rw [depth_eq, List.length_drop]

/-! ### Deleting -/

/-- What deleting leaves: no segment, no record and nothing temporary. -/
theorem Keeps.bare_deleted (h : log.Keeps dir s staged start accepted u) :
    Bare (Function.update (without s log.span) .record none) where
  segments k := by
    obtain ⟨a, low, layout⟩ := h.layout
    have behind := h.file_le
    rw [View.of_update_record]
    simp only [View.of, without_eq, QueueFile.segment.injEq]
    split
    · rfl
    · next outside =>
      rcases Nat.lt_or_ge k log.read.file with below | above
      · exact layout.gone k below
      · refine h.ends.beyond k (Nat.lt_of_not_le fun within => ?_)
        refine outside ⟨k, mem_span.2 ?_, rfl⟩
        omega
  record := by rw [View.of_update_record, Option.map_none]
  tidy tag := by
    rw [Function.update_of_ne (by simp), without_other (by simp)]
    exact h.tidy tag

/-- **Once everything is deleted, nothing was accepted.** -/
theorem Keeps.deleteAll (h : log.Keeps dir s staged start accepted u) (sound : log.config.Sound)
    (room : log.write.file + 1 < Word.limit) :
    ∃ s' log', log.deleteAll = (.ok (), log') ∧ log'.config = log.config ∧
      log'.Keeps dir s' none log.write.nextFile [] 0 ∧
      Disk.Reaches log.config dir (fun _ => True) log.disk log'.disk s' := by
  have behind := h.file_le
  obtain ⟨d, ok, reached⟩ := deleteAll_spec h.reads.serves sound (by omega) (by omega)
  have last : max log.read.file log.write.file = log.write.file := Nat.max_eq_right behind
  have bare := h.bare_deleted
  have start : log.fresh.read = log.write.nextFile := by
    simp only [fresh, last]
    rfl
  refine ⟨_, _, ok, rfl, ⟨reads_fresh reached.toServes, Nat.le_refl _, start, ⟨0, Nat.le_refl _, ?_⟩,
    ⟨fun k _ => bare.segments k, ?_⟩, rfl, by decide, ?_, ?_, bare.tidy⟩, reached⟩
  · simp only [start]
    exact ⟨Nat.le_refl _, rfl, .nil _, fun k _ => bare.segments k⟩
  · rw [bare.segments]
    rfl
  · simp only [fresh, last]
    exact ⟨room, Nat.zero_lt_succ _⟩
  · intro bs there
    rw [bare.record] at there
    cases there

end Log

end DurableQueue
