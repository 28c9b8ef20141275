import DurableQueue.Proofs.FileSystem.Footprint
import DurableQueue.Proofs.Log.Appending
import DurableQueue.Proofs.Log.Moving

/-!
# What the operations of a log come to

Whatever the disk holds and whatever fails on it, each operation makes calls of a few kinds only, and
changes the log in a way that the log itself decides on. A sync stores the record and at most closes
the writer (`sync_outcome`), reading moves `next` alone (`readFrame_outcome`), and an append is made
or is not made (`append_outcome`).
-/

namespace DurableQueue

open FileSystem

namespace Record

variable {path : String} {d : Disk}

section Calls

variable {C : Call → Prop}

theorem writeSynced_calls (create : C (.createNew path))
    (write : ∀ offset bs, C (.write path offset bs)) (sync : C (.sync path)) (bs : Bytes) :
    d.Makes (fun a => C a.call) (writeSynced d path bs).2 := by
  have created : d.Makes (fun a => C a.call) (d.createNew path).2 := Disk.makes_createNew create
  have named := fun h => @Disk.createNew_ok d h path
  unfold writeSynced
  revert created named
  cases d.createNew path with
  | mk result d₁ =>
    intro created named
    cases result with
    | error e => exact created
    | ok h =>
      obtain ⟨same, -⟩ := named h rfl
      subst same
      refine created.trans ?_
      obtain ⟨e, tree, failed⟩ | ⟨tree, wrote⟩ := d₁.write_outcome h bs
      · simp only [failed]
        exact Disk.makes_noted (write _ _)
      · simp only [wrote]
        exact (Disk.makes_noted (write _ _)).trans (Disk.makes_sync sync)

theorem abandon_calls (remove : C (.remove path)) (e : Error) :
    d.Makes (fun a => C a.call) (abandon d path e).disk := by
  have removed : d.Makes (fun a => C a.call) (d.remove path).2 := Disk.makes_remove remove
  unfold abandon
  revert removed
  cases d.remove path with
  | mk result d' =>
    intro removed
    cases result with
    | error e' => exact removed
    | ok u => exact removed

/-- Storing a record makes calls on the temporary path and gives what is there the record's. -/
theorem store_calls (r : Record) (d : Disk) (path : String) {temporary : String}
    (temporary_eq : temporary = Naming.temporaryPath path d.freshTag)
    (create : C (.createNew temporary)) (write : ∀ offset bs, C (.write temporary offset bs))
    (sync : C (.sync temporary)) (remove : C (.remove temporary))
    (rename : C (.rename temporary path)) :
    d.Makes (fun a => C a.call) (r.store d path).disk := by
  subst temporary_eq
  have written := writeSynced_calls (d := d) create write sync (Text.encode r.text)
  unfold store
  simp only
  revert written
  cases writeSynced d (Naming.temporaryPath path d.freshTag) (Text.encode r.text) with
  | mk result d₁ =>
    intro written
    cases result with
    | error e => exact written.trans (abandon_calls remove _)
    | ok u =>
      have renamed := Disk.makes_rename (d := d₁) rename
      refine written.trans ?_
      simp only
      revert renamed
      cases d₁.rename (Naming.temporaryPath path d.freshTag) path with
      | mk result d₂ =>
        intro renamed
        cases result with
        | error e => exact renamed.trans (abandon_calls remove _)
        | ok u => exact renamed

/-- Removing a record is one call. -/
theorem remove_calls (remove : C (.remove path)) :
    d.Makes (fun a => C a.call) (Record.remove d path).2 := by
  have removed : d.Makes (fun a => C a.call) (d.remove path).2 := Disk.makes_remove remove
  unfold Record.remove
  revert removed
  cases d.remove path with
  | mk result d' =>
    intro removed
    split
    · next eq =>
      cases eq
      exact removed
    · next eq =>
      cases eq
      exact removed

end Calls

/-- Storing a record makes no other calls than those of a sync. -/
theorem store_makes (r : Record) (d : Disk) (path : String) :
    d.Makes (fun a => a.call.Stores path) (r.store d path).disk :=
  store_calls (C := Call.Stores path) r d path rfl ⟨_, rfl⟩ (fun _ _ => ⟨_, rfl⟩) trivial
    ⟨_, rfl⟩ ⟨⟨_, rfl⟩, rfl⟩

theorem remove_makes : d.Makes (fun a => a.call.Removes) (remove d path).2 :=
  remove_calls (C := Call.Removes) trivial

end Record

theorem Reader.take_looks (n : Nat) (r : Reader) (d : Disk) :
    d.Looks (Reader.take n (r, d)).2.2 := by
  rw [take]
  split
  · exact .refl _
  · have fetched := Disk.looks_read (d := d) r.handle (max (n - r.ahead.length) capacity)
    simp only
    revert fetched
    cases d.read r.handle (max (n - r.ahead.length) capacity) with
    | mk result d' =>
      intro fetched
      cases result with
      | error e => exact fetched
      | ok bs =>
        simp only
        split
        · exact fetched
        · exact fetched

theorem Reader.readFrame_looks (least most : Nat) (r : Reader) (d : Disk) :
    d.Looks (r.readFrame least most d).2.2 := by
  rw [readFrame, Frame.decodeFrom]
  have first := take_looks Frame.headerSize r d
  revert first
  cases take Frame.headerSize (r, d) with
  | mk result source =>
    obtain ⟨r₁, d₁⟩ := source
    intro first
    cases result with
    | error e => exact first
    | ok header =>
      simp only
      split
      · exact first
      · have second := take_looks (Bytes.toWord header) r₁ d₁
        revert second
        cases take (Bytes.toWord header) (r₁, d₁) with
        | mk result source =>
          intro second
          cases result with
          | error e => exact first.trans second
          | ok message => exact first.trans second

namespace Log

variable {log : Log}

/-! ### Syncing -/

theorem storeRecord_outcome (log : Log) : ∃ d sync told,
    log.storeRecord.2 = { log with disk := d, needSync := sync, journal := told } ∧
      log.disk.Makes (fun a => a.call.Stores log.recordPath) d := by
  have stored := log.record.store_makes log.disk log.recordPath
  unfold storeRecord
  revert stored
  cases log.record.store log.disk log.recordPath with
  | mk result disk leftover =>
    intro stored
    cases result with
    | ok u => exact ⟨disk, false, _, rfl, stored⟩
    | error e =>
      cases leftover with
      | false => exact ⟨disk, log.needSync, log.journal, rfl, stored⟩
      | true => exact ⟨disk, log.needSync, _, rfl, stored⟩

/-- A sync keeps the writer as it is or closes it. -/
theorem sync_outcome (log : Log) : ∃ d sync told w,
    log.sync.2 = { log with disk := d, needSync := sync, journal := told, writer := w } ∧
      (w = log.writer ∨ w = none) ∧ log.disk.Makes (fun a => a.call.Stores log.recordPath) d := by
  unfold sync
  split
  · obtain ⟨d, sync, told, eq, makes⟩ := log.storeRecord_outcome
    exact ⟨d, sync, told, log.writer, eq, Or.inl rfl, makes⟩
  · next h _ =>
    have synced : log.disk.Makes (fun a => a.call.Stores log.recordPath) (log.disk.sync h).2 :=
      Disk.makes_sync trivial
    revert synced
    cases log.disk.sync h with
    | mk result d =>
      intro synced
      cases result with
      | error e => exact ⟨d, log.needSync, log.journal, none, rfl, Or.inr rfl, synced⟩
      | ok u =>
        obtain ⟨d', sync, told, eq, makes⟩ := storeRecord_outcome { log with disk := d }
        exact ⟨d', sync, told, log.writer, eq, Or.inl rfl, synced.trans makes⟩

/-! ### Reading -/

theorem openReader_outcome (log : Log) : ∃ d, log.openReader.2 = { log with disk := d } ∧
    log.disk.Looks d := by
  unfold openReader
  split
  · exact ⟨log.disk, rfl, .refl _⟩
  · have opened := Disk.looks_openRead (d := log.disk) (log.segmentPath log.read.file)
    simp only
    revert opened
    cases log.disk.openRead (log.segmentPath log.read.file) with
    | mk result d =>
      intro opened
      cases result with
      | error e => exact ⟨d, rfl, opened⟩
      | ok h =>
        have sought := Disk.looks_seek (d := d) h log.read.offset
        simp only
        revert sought
        cases d.seek h log.read.offset with
        | mk result d' =>
          intro sought
          cases result with
          | error e => exact ⟨d', rfl, opened.trans sought⟩
          | ok h' => exact ⟨d', rfl, opened.trans sought⟩

/-- Reading moves no cursor but `next`, which it takes past one frame at the read cursor. -/
theorem readFrame_outcome (log : Log) :
    (∃ m d reader, log.readFrame = (.ok m, { log with
      disk := d, reader, next := log.read.past log.config.maxBytesPerFile m.length }) ∧
      log.disk.Looks d) ∨
    ∃ e d reader, log.readFrame = (.error e, { log with disk := d, reader }) ∧
      log.disk.Looks d := by
  obtain ⟨d, same, opened⟩ := log.openReader_outcome
  unfold readFrame
  revert same
  cases log.openReader with
  | mk result log' =>
    rintro rfl
    cases result with
    | error e => exact Or.inr ⟨e, d, log.reader, rfl, opened⟩
    | ok r =>
      have read := r.readFrame_looks log.config.minMsgSize log.config.maxMsgSize d
      simp only
      revert read
      cases r.readFrame log.config.minMsgSize log.config.maxMsgSize d with
      | mk result source =>
        obtain ⟨r', d'⟩ := source
        intro read
        cases result with
        | error e => exact Or.inr ⟨e, d', none, rfl, opened.trans read⟩
        | ok m => exact Or.inl ⟨m, d', _, rfl, opened.trans read⟩

/-! ### Appending -/

/-- A roll takes the write cursor on and closes the writer if the cursor is above the limit, and
moves nothing else. -/
theorem roll_outcome (log : Log) : ∃ d sync told, log.roll = { log with
    disk := d, needSync := sync, journal := told
    writer := if log.config.maxBytesPerFile < log.write.offset then none else log.writer
    write := if log.config.maxBytesPerFile < log.write.offset then log.write.nextFile
      else log.write } ∧
      log.disk.Makes (fun a => a.call.Stores log.recordPath) d := by
  by_cases full : log.config.maxBytesPerFile < log.write.offset
  · obtain ⟨told, rolled⟩ := log.roll_of_full full
    obtain ⟨d, sync, told', w, eq, -, makes⟩ := log.rolled.sync_outcome
    rw [rolled, eq, if_pos full, if_pos full]
    exact ⟨d, sync, told, rfl, makes⟩
  · rw [log.roll_of_room full, if_neg full, if_neg full]
    exact ⟨log.disk, log.needSync, log.journal, rfl, .refl _⟩

/-- The file that is open for writing, or a segment that is opened now at the write cursor. -/
def WritesBy (log : Log) (h : Handle) : Prop :=
  log.writer = some h ∨
    log.writer = none ∧ h.path = log.segmentPath log.write.file ∧ h.offset = log.write.offset

theorem openWriter_outcome (log : Log) : ∃ d,
    log.disk.Makes (fun a => a.call.Opens (log.segmentPath log.write.file)) d ∧
    ((∃ h, log.openWriter = (.ok h, { log with disk := d }) ∧ log.WritesBy h) ∨
      ∃ path e, log.openWriter = (.error (.openSegment path e), { log with disk := d })) := by
  unfold openWriter
  split
  · next h writing => exact ⟨log.disk, .refl _, Or.inl ⟨h, rfl, Or.inl writing⟩⟩
  · next closed =>
    have opened : log.disk.Makes (fun a => a.call.Opens (log.segmentPath log.write.file))
        (log.disk.openWrite (log.segmentPath log.write.file)).2 := Disk.makes_openWrite rfl
    have named := fun h => @Disk.openWrite_ok log.disk h (log.segmentPath log.write.file)
    simp only
    revert opened named
    cases log.disk.openWrite (log.segmentPath log.write.file) with
    | mk result d =>
      intro opened named
      cases result with
      | error e => exact ⟨d, opened, Or.inr ⟨_, e, rfl⟩⟩
      | ok h =>
        obtain ⟨path, offset⟩ := named h rfl
        have sought : d.Makes (fun a => a.call.Opens (log.segmentPath log.write.file))
            (d.seek h log.write.offset).2 := Disk.makes_seek path
        have placed := fun h' => @Disk.seek_ok d h h' log.write.offset offset
        simp only
        revert sought placed
        cases d.seek h log.write.offset with
        | mk result d' =>
          intro sought placed
          cases result with
          | error e => exact ⟨d', opened.trans sought, Or.inr ⟨_, e, rfl⟩⟩
          | ok h' =>
            refine ⟨d', opened.trans sought, Or.inl ⟨h', rfl, ?_⟩⟩
            rw [placed h' rfl]
            exact Or.inr ⟨closed, path, rfl⟩

/-- What comes of an append: the message is refused, its segment cannot be opened, its frame cannot
be written, or the frame is written once and the cursor moves past it. -/
inductive Append (log : Log) (m : Bytes) : Except Error Unit × Log → Prop where
  | refused (rejected : ¬log.config.Admits m) :
    Append log m (.error (.invalidMessageSize m.length log.config.minMsgSize log.config.maxMsgSize),
      log)
  | closed (path : String) (e : FileError) (d : Disk)
    (opens : log.disk.Makes (fun a => a.call.Opens (log.segmentPath log.write.file)) d) :
    Append log m (.error (.openSegment path e), { log with disk := d })
  | failed (h : Handle) (e : FileError) (d : Disk) (tree : Tree) (by_ : log.WritesBy h)
    (opens : log.disk.Makes (fun a => a.call.Opens (log.segmentPath log.write.file)) d) :
    Append log m (.error (.writeSegment h.path e), { log with
      disk := d.noted (.write h.path h.offset (Frame.encode m)) (some e) tree, writer := none })
  | made (h : Handle) (d d' : Disk) (tree : Tree) (sync : Bool) (told : List Notice)
    (within : log.config.Admits m) (by_ : log.WritesBy h)
    (opens : log.disk.Makes (fun a => a.call.Opens (log.segmentPath log.write.file)) d)
    (rolls : (d.noted (.write h.path h.offset (Frame.encode m)) none tree).Makes
      (fun a => a.call.Stores log.recordPath) d') :
    Append log m (.ok (), { log.appended m with
      disk := d', needSync := sync, journal := told
      writer := if log.config.maxBytesPerFile < log.write.offset + Frame.diskSize m.length then none
        else some { h with offset := h.offset + Frame.diskSize m.length } })

theorem append_outcome (log : Log) (m : Bytes) : log.Append m (log.append m) := by
  by_cases within : log.config.Admits m
  case neg =>
    rw [append_refused within]
    exact .refused within
  have inside : ¬(m.length < log.config.minMsgSize ∨ log.config.maxMsgSize < m.length) := by
    have bounds := within
    unfold Config.Admits at bounds
    omega
  unfold append
  simp only [if_neg inside]
  obtain ⟨d, opens, ⟨h, opened, by_⟩ | ⟨path, e, failed⟩⟩ := log.openWriter_outcome
  case inr =>
    rw [failed]
    exact .closed path e d opens
  rw [opened]
  obtain ⟨e, tree, failed⟩ | ⟨tree, wrote⟩ := d.write_outcome h (Frame.encode m)
  · simp only [failed]
    exact .failed h e d tree by_ opens
  · simp only [wrote, Frame.length_encode]
    obtain ⟨d', sync, told, rolled, makes⟩ := roll_outcome { log with
      disk := d.noted (.write h.path h.offset (Frame.encode m)) none tree
      write := ⟨log.write.file, log.write.offset + Frame.diskSize m.length⟩
      writer := some { h with offset := h.offset + Frame.diskSize m.length }
      depth := Word.wrap (log.depth + 1) }
    rw [rolled]
    exact .made h d d' tree sync told within by_ opens makes

/-! ### Starting afresh -/

theorem swept_makes (log : Log) : log.disk.Makes (fun a => a.call.Removes) log.swept :=
  Disk.makes_removeEach fun _ _ => trivial

end Log

end DurableQueue
