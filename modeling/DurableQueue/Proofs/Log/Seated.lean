import DurableQueue.Proofs.FileSystem.Retaining
import DurableQueue.Proofs.Log.Leading

/-!
# A log that is seated in its directory

A log is `Seated` if the queue's files are its own and a segment that it has open for writing is the one
at the write cursor, open there. Whatever is asked of it and whatever fails, it stays so
(`Seated.leads`): a sync keeps the bytes of every segment (`Seated.sync_retains`), what comes between the
cursors takes away no segment but those that are read or quarantined, and whatever starts afresh has
nothing open.
-/

namespace DurableQueue

open FileSystem

namespace Record

variable {c : Config} {dir : Location} {d : Disk}

section Storing

variable (homes : d.tree.Homes c dir) (named : c.Named)
include homes named

theorem writeSynced_retains (f : QueueFile) (bs : Bytes) :
    d.tree.Retains c dir (· ≠ f) (writeSynced d (c.path f) bs).2.tree := by
  obtain ⟨first, created⟩ := Disk.createNew_retains homes named f
  unfold writeSynced
  revert first created
  cases d.createNew (c.path f) with
  | mk result d₁ =>
    intro first created
    cases result with
    | error e => exact first
    | ok h =>
      obtain ⟨number, rfl, there⟩ := created h rfl
      obtain ⟨second, wrote⟩ := Disk.write_retains first.homes
        ⟨c.path f, .file number, 0⟩ rfl there bs
      simp only
      revert second wrote
      cases d₁.write ⟨c.path f, .file number, 0⟩ bs with
      | mk result d₂ =>
        rintro second (⟨e, part, rfl, -, -⟩ | ⟨rfl, there'⟩)
        · exact first.trans second
        · exact first.trans (second.trans (Disk.sync_retains second.homes _ rfl there'))

theorem abandon_retains (f : QueueFile) (e : Error) :
    d.tree.Retains c dir (· ≠ f) (abandon d (c.path f) e).disk.tree := by
  have removed := Disk.remove_retains homes named f
  unfold abandon
  revert removed
  cases d.remove (c.path f) with
  | mk result d' =>
    intro removed
    cases result with
    | error e' => exact removed
    | ok u => exact removed

/-- Storing a record touches no segment and nothing that is quarantined. -/
theorem store_retains (r : Record) : d.tree.Retains c dir (fun f => ¬f.IsRecord)
    (r.store d (c.path .record)).disk.tree := by
  have temporary : Naming.temporaryPath (c.path .record) d.freshTag =
      c.path (.temporary (nextTag d)) := named.path_temporary (nextTag d)
  have other : ∀ f : QueueFile, ¬f.IsRecord → f ≠ .temporary (nextTag d) ∧ f ≠ .record := by
    rintro f none
    constructor
    · rintro rfl
      exact none trivial
    · rintro rfl
      exact none trivial
  have first := (writeSynced_retains homes named (.temporary (nextTag d)) (Text.encode r.text)).mono
    fun f none => (other f none).1
  rw [store, temporary]
  revert first
  cases writeSynced d (c.path (.temporary (nextTag d))) (Text.encode r.text) with
  | mk result d₁ =>
    intro first
    cases result with
    | error e =>
      exact first.trans ((abandon_retains first.homes named _ _).mono fun f none => (other f none).1)
    | ok u =>
      have second := (Disk.rename_retains (f := .temporary (nextTag d)) (g := .record) first.homes named
        (by simp)).mono other
      simp only
      revert second
      cases d₁.rename (c.path (.temporary (nextTag d))) (c.path .record) with
      | mk result d₂ =>
        intro second
        cases result with
        | error e =>
          exact (first.trans second).trans
            ((abandon_retains second.homes named _ _).mono fun f none => (other f none).1)
        | ok u => exact first.trans second

end Storing

end Record

namespace Log

variable {log log' : Log} {dir : Location} {w : Handle} {kept : QueueFile → Prop}

/-- The queue's files are the log's own, and a segment that is open for writing is the one at the write
cursor. -/
structure Seated (log : Log) (dir : Location) : Prop where
  homes : log.disk.tree.Homes log.config dir
  writer : ∀ w ∈ log.writer, log.Writing dir w

/-- The writer is told from what the directory holds. -/
theorem writing_iff : log.Writing dir w ↔ w.offset = log.write.offset ∧ ∃ number bs,
    log.disk.tree.held log.config dir (.segment log.write.file) = some (number, bs) ∧
      w.node = .file number := by
  constructor
  · rintro ⟨offset, number, inode, found, node⟩
    exact ⟨offset, number, _, Tree.held_of_shelf found, node⟩
  · rintro ⟨offset, number, bs, there, node⟩
    obtain ⟨inode, found, -⟩ := Tree.shelf_of_held there
    exact ⟨offset, number, inode, found, node⟩

/-- A log that retains the segment at its write cursor goes on writing to it. -/
theorem Writing.retained (h : log.Writing dir w) (config : log'.config = log.config)
    (write : log'.write = log.write)
    (retains : log.disk.tree.Retains log.config dir kept log'.disk.tree)
    (among : kept (.segment log.write.file)) : log'.Writing dir w := by
  rw [writing_iff] at h ⊢
  rw [config, write, retains.same _ among]
  exact h

/-! ### Syncing -/

section Syncing

variable (homes : log.disk.tree.Homes log.config dir) (named : log.config.Named)
include homes named

theorem storeRecord_retains :
    log.disk.tree.Retains log.config dir (fun f => ¬f.IsRecord) log.storeRecord.2.disk.tree := by
  have stored := Record.store_retains homes named log.record
  have path : log.recordPath = log.config.path .record := rfl
  unfold storeRecord
  rw [path]
  revert stored
  cases log.record.store log.disk (log.config.path .record) with
  | mk result disk leftover =>
    intro stored
    cases result with
    | ok u => exact stored
    | error e =>
      cases leftover with
      | false => exact stored
      | true => exact stored

/-- A sync touches no bytes but those of the record. -/
theorem sync_retains (writes : log.Writes (log.disk.tree.shelf log.config dir)) :
    log.disk.tree.Retains log.config dir (fun f => ¬f.IsRecord) log.sync.2.disk.tree := by
  rcases Option.eq_none_or_eq_some log.writer with closed | ⟨w, writing⟩
  · have eq : log.sync = log.storeRecord := by simp only [sync, closed]
    rw [eq]
    exact storeRecord_retains homes named
  · obtain ⟨k, number, inode, found, node⟩ := writes w writing
    have first : log.disk.tree.Retains log.config dir (fun f => ¬f.IsRecord) (log.disk.sync w).2.tree :=
      Disk.sync_retains homes w node (Tree.held_of_shelf found)
    rcases synced : log.disk.sync w with ⟨e | u, d⟩
    · have eq : log.sync = (.error (.syncSegment w.path e), { log with disk := d, writer := none }) := by
        simp only [sync, writing, synced]
      rw [synced] at first
      rw [eq]
      exact first
    · have eq : log.sync = ({ log with disk := d } : Log).storeRecord := by
        simp only [sync, writing, synced]
      rw [synced] at first
      rw [eq]
      exact first.trans (@storeRecord_retains { log with disk := d } dir first.homes named)

end Syncing

/-! ### Staying seated -/

/-- A look at the tail closes the writer or leaves it where it was. -/
theorem Tail.writing (tail : log.Tail log')
    (writer : log.read ≤ log.write → ∀ w ∈ log.writer, log.Writing dir w) :
    ∀ w ∈ log'.writer, log'.Writing dir w := by
  cases tail with
  | unread behind => exact writer (Position.le_of_lt behind)
  | met meet sync told resets => exact writer (meet ▸ Position.le_refl _)
  | crossed past told resets => exact fun w writing => by cases writing

namespace Seated

section Seated

variable (h : log.Seated dir)
include h

theorem housed : log.Housed dir where
  homes := h.homes
  writer w open_ := by
    obtain ⟨-, number, inode, found, node⟩ := h.writer w open_
    exact ⟨number, node, h.homes.aside found id⟩

theorem writes : log.Writes (log.disk.tree.shelf log.config dir) := by
  intro w open_
  obtain ⟨-, number, inode, found, node⟩ := h.writer w open_
  exact ⟨_, number, inode, found, node⟩

/-- Reading changes nothing. -/
theorem writing_readFrame : ∀ w ∈ log.readFrame.2.writer, log.readFrame.2.Writing dir w := by
  have same : ∀ d, log.disk.Looks d →
      log.disk.tree.Retains log.config dir (fun _ => True) d.tree := by
    intro d looks
    rw [looks.tree_eq]
    exact .refl h.homes
  obtain ⟨m, d, reader, eq, looks⟩ | ⟨e, d, reader, eq, looks⟩ := log.readFrame_outcome
  · rw [eq]
    exact fun w open_ => (h.writer w open_).retained rfl rfl (same d looks) trivial
  · rw [eq]
    exact fun w open_ => (h.writer w open_).retained rfl rfl (same d looks) trivial

variable (named : log.config.Named)
include named

theorem writing_sync : ∀ w ∈ log.sync.2.writer, log.sync.2.Writing dir w := by
  have retains := sync_retains h.homes named h.writes
  obtain ⟨d, sync, told, x, eq, came, -⟩ := log.sync_outcome
  rw [eq] at retains ⊢
  rintro w open_
  rcases came with rfl | rfl
  · exact (h.writer w open_).retained rfl rfl retains id
  · cases open_

/-- The read cursor takes away no segment but one that lies before the write cursor. -/
theorem writing_commit (ahead : log.read ≤ log.next) :
    ∀ w ∈ log.commit.2.writer, log.commit.2.Writing dir w := by
  obtain ⟨sync, told, tail⟩ := log.commit_outcome
  refine tail.writing fun behind w open_ => ?_
  have path : log.segmentPath log.read.file = log.config.path (.segment log.read.file) := rfl
  have writing := h.writer w open_
  by_cases same : log.next.file = log.read.file
  · rw [if_pos same]
    exact writing
  · rw [if_neg same, path]
    have removed := Disk.remove_retains h.homes named (.segment log.read.file)
    refine writing.retained rfl rfl removed ?_
    have onward := Position.file_le ahead
    have further := Position.file_le behind
    simp only at further
    simp only [ne_eq, QueueFile.segment.injEq]
    omega

/-- A writer in the segment that is quarantined is closed. -/
theorem writing_quarantine : ∀ w ∈ log.quarantine.writer, log.quarantine.Writing dir w := by
  obtain ⟨told, tail⟩ := log.quarantine_outcome
  have path : log.segmentPath log.read.file = log.config.path (.segment log.read.file) := rfl
  have path' : Naming.quarantinePath (log.segmentPath log.read.file) =
      log.config.path (.quarantined log.read.file) := named.path_quarantined log.read.file
  rw [path', path] at tail
  refine tail.writing fun _ w open_ => ?_
  by_cases here : log.read.file = log.write.file
  · simp only [if_pos here] at open_
    cases open_
  · simp only [if_neg here] at open_ ⊢
    have moved := Disk.rename_retains (f := .segment log.read.file) (g := .quarantined log.read.file)
      h.homes named (by simp)
    refine (h.writer w open_).retained rfl rfl moved ⟨?_, by simp⟩
    simp only [ne_eq, QueueFile.segment.injEq]
    omega

/-! ### Appending -/

/-- The segment at the write cursor is opened, or the log has it open: it holds what it held. If it
cannot be opened it may have been made. -/
theorem openWriter_takes : ∃ d, log.openWriter.2 = { log with disk := d } ∧
    log.disk.tree.Retains log.config dir (· ≠ .segment log.write.file) d.tree ∧
    ((∃ e, log.openWriter.1 = .error e) ∧ log.writer = none ∧
        (d.tree = log.disk.tree ∨ ∃ number, Tree.Takes log.config dir (.segment log.write.file)
          log.write.offset [] number log.disk.tree d.tree) ∨
      ∃ w number, log.openWriter.1 = .ok w ∧ w.node = .file number ∧ w.offset = log.write.offset ∧
        Tree.Takes log.config dir (.segment log.write.file) log.write.offset [] number log.disk.tree
          d.tree) := by
  rcases Option.eq_none_or_eq_some log.writer with closed | ⟨w, writing⟩
  case inr =>
    obtain ⟨offset, number, inode, found, node⟩ := h.writer w writing
    have eq : log.openWriter = (.ok w, log) := by simp only [Log.openWriter, writing]
    rw [eq]
    exact ⟨log.disk, rfl, .refl h.homes,
      Or.inr ⟨w, number, rfl, node, offset, .refl (Tree.held_of_shelf found)⟩⟩
  have path : log.segmentPath log.write.file = log.config.path (.segment log.write.file) := rfl
  obtain ⟨retains, outcome⟩ := Disk.openWrite_retains h.homes named (.segment log.write.file)
  unfold Log.openWriter
  rw [closed]
  simp only [path]
  revert retains outcome
  cases log.disk.openWrite (log.config.path (.segment log.write.file)) with
  | mk result d =>
    rintro retains (⟨⟨e, rfl⟩, same⟩ | ⟨number, rfl, takes⟩)
    · exact ⟨d, rfl, retains, Or.inl ⟨⟨_, rfl⟩, trivial, Or.inl same⟩⟩
    · have same := (Disk.looks_seek (d := d) ⟨log.config.path (.segment log.write.file), .file number, 0⟩
        log.write.offset).tree_eq
      have sought := fun w => @Disk.seek_ok d
        ⟨log.config.path (.segment log.write.file), .file number, 0⟩ w log.write.offset rfl
      simp only
      revert same sought
      cases d.seek ⟨log.config.path (.segment log.write.file), .file number, 0⟩ log.write.offset with
      | mk result d' =>
        intro same sought
        have takes' := same ▸ takes log.write.offset
        cases result with
        | error e =>
          exact ⟨d', rfl, same ▸ retains,
            Or.inl ⟨⟨_, rfl⟩, trivial, Or.inr ⟨number, takes'⟩⟩⟩
        | ok w =>
          obtain rfl := sought w rfl
          exact ⟨d', rfl, same ▸ retains, Or.inr ⟨_, number, rfl, rfl, rfl, takes'⟩⟩

end Seated

end Seated

/-- What an append comes to up to the moment at which the segment may be left, and what it leaves in the
directory. -/
inductive Attempt (log : Log) (dir : Location) (m : Bytes) : Except Error Unit × Log → Prop where
  /-- The message is refused. -/
  | refused (e : Error) : Attempt log dir m (.error e, log)
  /-- The segment cannot be opened, or no more than a part of the frame is written. -/
  | stopped (e : Error) (d : Disk)
    (retains : log.disk.tree.Retains log.config dir (· ≠ .segment log.write.file) d.tree)
    (left : d.tree = log.disk.tree ∨ ∃ number part, part <+: Frame.encode m ∧
      Tree.Takes log.config dir (.segment log.write.file) log.write.offset part number log.disk.tree
        d.tree) :
    Attempt log dir m (.error e, { log with disk := d, writer := none })
  /-- The whole frame is written. -/
  | placed (w : Handle) (d : Disk) (number : Nat)
    (retains : log.disk.tree.Retains log.config dir (· ≠ .segment log.write.file) d.tree)
    (takes : Tree.Takes log.config dir (.segment log.write.file) log.write.offset (Frame.encode m) number
      log.disk.tree d.tree)
    (node : w.node = .file number)
    (offset : w.offset = log.write.offset + Frame.diskSize m.length) :
    Attempt log dir m (.ok (), { log with
      disk := d, write := ⟨log.write.file, log.write.offset + Frame.diskSize m.length⟩
      writer := some w, depth := Word.wrap (log.depth + 1) })

namespace Seated

/-- Whatever fails, an attempt leaves the frame, a part of it or nothing at the write cursor. -/
theorem place (h : log.Seated dir) (named : log.config.Named) (m : Bytes) :
    log.Attempt dir m (log.place m) := by
  unfold Log.place
  simp only
  split
  · exact .refused _
  obtain ⟨d, rest, first, outcome⟩ := h.openWriter_takes named
  revert rest outcome
  cases log.openWriter with
  | mk result log' =>
    rintro rfl (⟨⟨e, rfl⟩, closed, left⟩ | ⟨w, number, rfl, node, offset, takes⟩)
    · have same : ({ log with disk := d } : Log) = { log with disk := d, writer := none } := by
        rw [← closed]
      simp only
      rw [same]
      refine .stopped e d first ?_
      rcases left with same | ⟨number, takes⟩
      · exact Or.inl same
      · exact Or.inr ⟨number, [], List.nil_prefix, takes⟩
    · obtain ⟨second, wrote⟩ := Disk.write_retains first.homes w node takes.held (Frame.encode m)
      rw [offset, Frame.length_encode] at wrote
      simp only
      revert second wrote
      cases d.write w (Frame.encode m) with
      | mk result d' =>
        rintro second (⟨e, part, rfl, short, there⟩ | ⟨rfl, there⟩)
        · exact .stopped _ d' (first.trans second)
            (Or.inr ⟨number, part, short, takes.wrote takes.held there⟩)
        · exact .placed _ d' number (first.trans second) (takes.wrote takes.held there) node rfl

/-- Leaving a segment touches no bytes but those of the record. -/
theorem roll_retains (h : log.Seated dir) (named : log.config.Named) :
    log.disk.tree.Retains log.config dir
      (fun f => f.IsRecord → log.write.offset ≤ log.config.maxBytesPerFile) log.roll.disk.tree := by
  by_cases full : log.config.maxBytesPerFile < log.write.offset
  · obtain ⟨told, rolled⟩ := log.roll_of_full full
    have synced := @sync_retains log.rolled dir h.homes named h.writes
    rw [rolled]
    refine synced.mono fun f room record => ?_
    have := room record
    omega
  · rw [log.roll_of_room full]
    exact .refl h.homes

theorem roll (h : log.Seated dir) (named : log.config.Named) : log.roll.Seated dir := by
  have retains := h.roll_retains named
  by_cases full : log.config.maxBytesPerFile < log.write.offset
  · obtain ⟨told, rolled⟩ := log.roll_of_full full
    obtain ⟨d, sync, told', w, eq⟩ := log.rolled.sync_rest
    rw [rolled, eq] at retains ⊢
    exact ⟨retains.homes, fun w writing => by cases writing⟩
  · rw [log.roll_of_room full]
    exact h

theorem append (h : log.Seated dir) (named : log.config.Named) (m : Bytes) :
    (log.append m).2.Seated dir := by
  have placed := h.place named m
  rw [append_eq]
  revert placed
  generalize log.place m = out
  intro placed
  cases placed with
  | refused e => exact h
  | stopped e d retains left => exact ⟨retains.homes, fun w writing => by cases writing⟩
  | placed w d number retains takes node offset =>
    refine roll ⟨retains.homes, ?_⟩ named
    rintro x ⟨⟩
    exact writing_iff.2 ⟨offset, number, _, takes.held, node⟩

/-- **Whatever is asked of a log and whatever fails, it stays seated.** -/
theorem serve (h : log.Seated dir) (named : log.config.Named) (ordered : log.InOrder) (r : Request) :
    (log.serve r).Seated dir := by
  have homes : (log.serve r).disk.tree.Homes log.config dir :=
    log.config_serve r ▸ (h.housed.serve named r).homes
  have config := log.config_serve r
  have seated : (∀ w ∈ (log.serve r).writer, (log.serve r).Writing dir w) → (log.serve r).Seated dir :=
    fun writer => ⟨config ▸ homes, writer⟩
  cases r with
  | append m => exact h.append named m
  | read => exact seated h.writing_readFrame
  | commit => exact seated (h.writing_commit named ordered.read_le_next)
  | quarantine => exact seated (h.writing_quarantine named)
  | skip =>
    obtain ⟨told, eq⟩ := log.skip_outcome
    refine seated fun w writing => ?_
    rw [Log.serve, eq] at writing
    cases writing
  | deleteAll =>
    obtain ⟨told, eq⟩ := log.deleteAll_outcome
    refine seated fun w writing => ?_
    rw [Log.serve, eq] at writing
    cases writing
  | sync => exact seated (h.writing_sync named)
  | requestSync => exact seated h.writer
  | closeFiles => exact seated fun w writing => by cases writing

theorem leads (h : log.Seated dir) (named : log.config.Named) (ordered : log.InOrder)
    (lead : log.Leads log') : log'.Seated dir := by
  induction lead with
  | refl => exact h
  | serve lead r ih => exact ih.serve (lead.config_eq ▸ named) (ordered.leads lead).1 r
  | tell lead n ih => exact ⟨ih.homes, ih.writer⟩

end Seated

/-- A log that takes up a record has nothing open. -/
theorem seated_ofRecord {c : Config} {d : Disk} (homes : d.tree.Homes c dir) (named : c.Named)
    (r : Record) : (ofRecord c d r).Seated dir := by
  have everything : Hereditary fun _ => True := fun _ _ _ => id
  obtain ⟨-, told, eq⟩ | ⟨-, depth, sync, told, resets, eq, -⟩ := ofRecord_outcome c d r
  · have housed : Housed { config := c, disk := d, read := r.read, next := r.read, write := r.write
                           depth := r.length } dir :=
      ⟨homes, fun w writing => by cases writing⟩
    rw [eq]
    exact ⟨(housed.swept named everything trivial).1.homes, fun w writing => by cases writing⟩
  · rw [eq]
    exact ⟨homes, fun w writing => by cases writing⟩

end Log

end DurableQueue
