import DurableQueue.Proofs.FileSystem.Touching
import DurableQueue.Proofs.Log.Leading
import DurableQueue.Proofs.Naming.Apart

/-!
# A log keeps to its own files

Whatever a record says, whatever the disk holds, whatever fails and whatever is asked of a log, its
calls name no paths but those of the queue's own files (`Log.Confined`). The files that are open carry
the paths that they were opened by, so the invariant says of them that these paths are the queue's;
each request keeps it (`Confined.serve`), and so do any number of them (`Confined.leads`).
-/

namespace DurableQueue

open FileSystem

/-- A path of a file of the queue. -/
def Config.Owns (c : Config) (path : String) : Prop := ∃ f : QueueFile, path = c.path f

theorem Config.owns_path (c : Config) (f : QueueFile) : c.Owns (c.path f) := ⟨f, rfl⟩

theorem FileSystem.Call.within_of_path {P : String → Prop} {call : Call} {path : String}
    (one : call.paths = [path]) (of : P path) : call.Within P := by
  simpa [Within, one] using of

variable {c : Config} {d d' : Disk}

/-- A record is stored by calls on the queue's own files. -/
theorem Record.store_within (noSlash : '/' ∉ c.name.toList) (r : Record) (d : Disk) :
    d.Makes (fun a => a.call.Within c.Owns) (r.store d (c.path .record)).disk := by
  have temporary : c.Owns (c.path (.temporary (nextTag d))) := c.owns_path _
  have record := c.owns_path .record
  refine store_calls (C := Call.Within c.Owns) r d (c.path .record)
    (Config.path_temporary noSlash (nextTag d)).symm ?_ (fun _ _ => ?_) ?_ ?_ ?_
  · exact Call.within_of_path rfl temporary
  · exact Call.within_of_path rfl temporary
  · exact Call.within_of_path rfl temporary
  · exact Call.within_of_path rfl temporary
  · intro path there
    simp only [Call.paths, List.mem_cons, List.not_mem_nil, or_false] at there
    rcases there with rfl | rfl
    · exact temporary
    · exact record

namespace Reader

variable {P : String → Prop} {r : Reader}

/-- A reader fetches from the file that it was opened on. -/
theorem take_within (own : P r.handle.path) (n : Nat) (d : Disk) :
    d.Makes (fun a => a.call.Within P) (Reader.take n (r, d)).2.2 ∧
      (Reader.take n (r, d)).2.1.handle.path = r.handle.path := by
  rw [take]
  split
  · exact ⟨.refl _, rfl⟩
  · have fetched : d.Makes (fun a => a.call.Within P)
        (d.read r.handle (max (n - r.ahead.length) capacity)).2 :=
      Disk.makes_read (Call.within_of_path rfl own)
    have same := fun bs h' => @Disk.read_path d r.handle h' (max (n - r.ahead.length) capacity) bs
    simp only
    revert fetched same
    cases d.read r.handle (max (n - r.ahead.length) capacity) with
    | mk result d' =>
      intro fetched same
      cases result with
      | error e => exact ⟨fetched, rfl⟩
      | ok out =>
        obtain ⟨bs, h'⟩ := out
        simp only
        split
        · exact ⟨fetched, same bs h' rfl⟩
        · exact ⟨fetched, same bs h' rfl⟩

theorem readFrame_within (own : P r.handle.path) (least most : Nat) (d : Disk) :
    d.Makes (fun a => a.call.Within P) (r.readFrame least most d).2.2 ∧
      (r.readFrame least most d).2.1.handle.path = r.handle.path := by
  rw [readFrame, Frame.decodeFrom]
  have first := take_within own Frame.headerSize d
  revert first
  cases take Frame.headerSize (r, d) with
  | mk result source =>
    obtain ⟨r₁, d₁⟩ := source
    rintro ⟨first, same⟩
    cases result with
    | error e => exact ⟨first, same⟩
    | ok header =>
      simp only
      split
      · exact ⟨first, same⟩
      · have own₁ : P r₁.handle.path := by
          simp only at same
          rw [same]
          exact own
        have second := take_within own₁ (Bytes.toWord header) d₁
        revert second
        cases take (Bytes.toWord header) (r₁, d₁) with
        | mk result source =>
          rintro ⟨second, same'⟩
          cases result with
          | error e => exact ⟨first.trans second, same'.trans same⟩
          | ok message => exact ⟨first.trans second, same'.trans same⟩

end Reader

namespace Log

variable {log log' : Log} {m : Bytes}

/-- A log of a queue whose calls since `d` named the queue's own files alone, as do the calls on the
files that it has open. -/
structure Confined (c : Config) (d : Disk) (log : Log) : Prop where
  config : log.config = c
  makes : d.Makes (fun a => a.call.Within c.Owns) log.disk
  reader : ∀ r, log.reader = some r → c.Owns r.handle.path
  writer : ∀ h, log.writer = some h → c.Owns h.path

namespace Confined

theorem segmentPath (h : log.Confined c d) (k : Nat) : log.segmentPath k = c.path (.segment k) := by
  rw [Log.segmentPath, h.config]
  rfl

theorem recordPath (h : log.Confined c d) : log.recordPath = c.path .record := by
  rw [Log.recordPath, h.config]
  rfl

/-- The log with another disk, after calls on the queue's files, and with the same files open. -/
theorem onDisk (h : log.Confined c d) (makes : log.disk.Makes (fun a => a.call.Within c.Owns) d')
    (config : log'.config = log.config) (disk : log'.disk = d')
    (reader : log'.reader = log.reader) (writer : log'.writer = log.writer) :
    log'.Confined c d where
  config := config.trans h.config
  makes := by
    rw [disk]
    exact h.makes.trans makes
  reader := by
    rw [reader]
    exact h.reader
  writer := by
    rw [writer]
    exact h.writer

theorem of_same (h : log.Confined c d) (config : log'.config = log.config)
    (disk : log'.disk = log.disk) (reader : log'.reader = log.reader)
    (writer : log'.writer = log.writer) : log'.Confined c d :=
  h.onDisk (.refl _) config disk reader writer

/-- A file may be closed. -/
theorem closed (h : log.Confined c d) {reader : Option Reader} {writer : Option Handle}
    (reader_eq : reader = none ∨ reader = log.reader) (writer_eq : writer = none ∨ writer = log.writer) :
    Confined c d { log with reader, writer } where
  config := h.config
  makes := h.makes
  reader r there := by
    rcases reader_eq with none | same
    · simp [none] at there
    · exact h.reader r (same ▸ there)
  writer w there := by
    rcases writer_eq with none | same
    · simp [none] at there
    · exact h.writer w (same ▸ there)

theorem tell (h : log.Confined c d) (n : Notice) : (log.tell n).Confined c d :=
  h.of_same rfl rfl rfl rfl

/-! ### Syncing -/

theorem storeRecord (h : log.Confined c d) (noSlash : '/' ∉ c.name.toList) :
    log.storeRecord.2.Confined c d := by
  have stored := Record.store_within noSlash log.record log.disk
  rw [← h.recordPath] at stored
  unfold Log.storeRecord
  revert stored
  cases log.record.store log.disk log.recordPath with
  | mk result disk leftover =>
    intro stored
    cases result with
    | ok u => exact h.onDisk stored rfl rfl rfl rfl
    | error e =>
      cases leftover with
      | false => exact h.onDisk stored rfl rfl rfl rfl
      | true => exact h.onDisk stored rfl rfl rfl rfl

theorem sync (h : log.Confined c d) (noSlash : '/' ∉ c.name.toList) : log.sync.2.Confined c d := by
  unfold Log.sync
  split
  · exact h.storeRecord noSlash
  · next w writing =>
    have synced : log.disk.Makes (fun a => a.call.Within c.Owns) (log.disk.sync w).2 :=
      Disk.makes_sync (Call.within_of_path rfl (h.writer w writing))
    revert synced
    cases log.disk.sync w with
    | mk result d₁ =>
      intro synced
      have next : Confined c d { log with disk := d₁ } := h.onDisk synced rfl rfl rfl rfl
      cases result with
      | error e => exact next.closed (Or.inr rfl) (Or.inl rfl)
      | ok u => exact next.storeRecord noSlash

/-! ### Reading -/

theorem openReader (h : log.Confined c d) :
    log.openReader.2.Confined c d ∧ ∀ r, log.openReader.1 = .ok r → c.Owns r.handle.path := by
  have own : c.Owns (log.segmentPath log.read.file) := h.segmentPath _ ▸ c.owns_path _
  unfold Log.openReader
  split
  · next r reading =>
    refine ⟨h, fun r' eq => ?_⟩
    cases eq
    exact h.reader r reading
  · have opened : log.disk.Makes (fun a => a.call.Within c.Owns)
        (log.disk.openRead (log.segmentPath log.read.file)).2 :=
      Disk.makes_openRead (Call.within_of_path rfl own)
    have named := fun w => @Disk.openRead_ok log.disk w (log.segmentPath log.read.file)
    simp only
    revert opened named
    cases log.disk.openRead (log.segmentPath log.read.file) with
    | mk result d₁ =>
      intro opened named
      cases result with
      | error e => exact ⟨h.onDisk opened rfl rfl rfl rfl, fun r eq => by cases eq⟩
      | ok w =>
        have own' : c.Owns w.path := (named w rfl) ▸ own
        have sought : d₁.Makes (fun a => a.call.Within c.Owns) (d₁.seek w log.read.offset).2 :=
          Disk.makes_seek (Call.within_of_path rfl own')
        have same := fun w' => @Disk.seek_path d₁ w w' log.read.offset
        simp only
        revert sought same
        cases d₁.seek w log.read.offset with
        | mk result d₂ =>
          intro sought same
          cases result with
          | error e =>
            exact ⟨h.onDisk (opened.trans sought) rfl rfl rfl rfl, fun r eq => by cases eq⟩
          | ok w' =>
            refine ⟨h.onDisk (opened.trans sought) rfl rfl rfl rfl, fun r eq => ?_⟩
            cases eq
            exact (same w' rfl) ▸ own'

theorem readFrame (h : log.Confined c d) : log.readFrame.2.Confined c d := by
  have opened := h.openReader
  unfold Log.readFrame
  revert opened
  cases log.openReader with
  | mk result log₁ =>
    rintro ⟨next, own⟩
    cases result with
    | error e => exact next
    | ok r =>
      have read := r.readFrame_within (own r rfl) log₁.config.minMsgSize log₁.config.maxMsgSize
        log₁.disk
      simp only
      revert read
      cases r.readFrame log₁.config.minMsgSize log₁.config.maxMsgSize log₁.disk with
      | mk result source =>
        obtain ⟨r', d'⟩ := source
        rintro ⟨read, same⟩
        have after : Confined c d { log₁ with disk := d' } := next.onDisk read rfl rfl rfl rfl
        cases result with
        | error e => exact after.closed (Or.inl rfl) (Or.inr rfl)
        | ok m =>
          refine ⟨after.config, after.makes, fun r'' there => ?_, after.writer⟩
          simp only at there
          split at there
          · cases there
            exact same ▸ own r rfl
          · cases there

/-! ### Writing -/

theorem openWriter (h : log.Confined c d) :
    log.openWriter.2.Confined c d ∧ ∀ w, log.openWriter.1 = .ok w → c.Owns w.path := by
  have own : c.Owns (log.segmentPath log.write.file) := h.segmentPath _ ▸ c.owns_path _
  unfold Log.openWriter
  split
  · next w writing =>
    refine ⟨h, fun w' eq => ?_⟩
    cases eq
    exact h.writer w writing
  · have opened : log.disk.Makes (fun a => a.call.Within c.Owns)
        (log.disk.openWrite (log.segmentPath log.write.file)).2 :=
      Disk.makes_openWrite (Call.within_of_path rfl own)
    have named := fun w => @Disk.openWrite_ok log.disk w (log.segmentPath log.write.file)
    simp only
    revert opened named
    cases log.disk.openWrite (log.segmentPath log.write.file) with
    | mk result d₁ =>
      intro opened named
      cases result with
      | error e => exact ⟨h.onDisk opened rfl rfl rfl rfl, fun w eq => by cases eq⟩
      | ok w =>
        have own' : c.Owns w.path := (named w rfl).1 ▸ own
        have sought : d₁.Makes (fun a => a.call.Within c.Owns) (d₁.seek w log.write.offset).2 :=
          Disk.makes_seek (Call.within_of_path rfl own')
        have same := fun w' => @Disk.seek_path d₁ w w' log.write.offset
        simp only
        revert sought same
        cases d₁.seek w log.write.offset with
        | mk result d₂ =>
          intro sought same
          cases result with
          | error e =>
            exact ⟨h.onDisk (opened.trans sought) rfl rfl rfl rfl, fun w eq => by cases eq⟩
          | ok w' =>
            refine ⟨h.onDisk (opened.trans sought) rfl rfl rfl rfl, fun w'' eq => ?_⟩
            cases eq
            exact (same w' rfl) ▸ own'

theorem place (h : log.Confined c d) : (log.place m).2.Confined c d := by
  unfold Log.place
  simp only
  split
  · exact h
  · have opened := h.openWriter
    revert opened
    cases log.openWriter with
    | mk result log₁ =>
      rintro ⟨next, own⟩
      cases result with
      | error e => exact next
      | ok w =>
        have own := own w rfl
        obtain ⟨e, tree, failed⟩ | ⟨tree, wrote⟩ := log₁.disk.write_outcome w (Frame.encode m)
        · have noted : log₁.disk.Makes (fun a => a.call.Within c.Owns)
              (log₁.disk.noted (.write w.path w.offset (Frame.encode m)) (some e) tree) :=
            Disk.makes_noted (Call.within_of_path rfl own)
          simp only [failed]
          exact ⟨next.config, next.makes.trans noted, next.reader, fun w' there => by cases there⟩
        · have noted : log₁.disk.Makes (fun a => a.call.Within c.Owns)
              (log₁.disk.noted (.write w.path w.offset (Frame.encode m)) none tree) :=
            Disk.makes_noted (Call.within_of_path rfl own)
          simp only [wrote]
          refine ⟨next.config, next.makes.trans noted, next.reader, fun w' there => ?_⟩
          cases there
          exact own

theorem roll (h : log.Confined c d) (noSlash : '/' ∉ c.name.toList) : log.roll.Confined c d := by
  by_cases full : log.config.maxBytesPerFile < log.write.offset
  · have left : log.rolled.Confined c d := h.of_same rfl rfl rfl rfl
    have synced := left.sync noSlash
    obtain ⟨told, eq⟩ := log.roll_of_full full
    rw [eq]
    exact (synced.closed (Or.inr rfl) (Or.inl rfl)).of_same rfl rfl rfl rfl
  · rw [log.roll_of_room full]
    exact h

theorem append (h : log.Confined c d) (noSlash : '/' ∉ c.name.toList) :
    (log.append m).2.Confined c d := by
  have placed := h.place (m := m)
  rw [append_eq]
  revert placed
  cases log.place m with
  | mk result log₁ =>
    intro placed
    cases result with
    | error e => exact placed
    | ok u => exact placed.roll noSlash

/-! ### Removing and setting aside -/

theorem remove (h : log.Confined c d) (k : Nat) :
    log.disk.Makes (fun a => a.call.Within c.Owns) (log.disk.remove (log.segmentPath k)).2 :=
  Disk.makes_remove (Call.within_of_path rfl (h.segmentPath k ▸ c.owns_path _))

theorem swept (h : log.Confined c d) :
    log.disk.Makes (fun a => a.call.Within c.Owns) log.swept := by
  refine Disk.makes_removeEach fun path there => ?_
  obtain ⟨k, -, rfl⟩ := List.mem_map.1 there
  exact Call.within_of_path rfl (h.segmentPath k ▸ c.owns_path _)

/-- A log that starts afresh has no file open. -/
theorem fresh (h : log.Confined c d) {d' : Disk} {sync : Bool} {told : List Notice} {resets : Nat}
    (makes : log.disk.Makes (fun a => a.call.Within c.Owns) d') :
    Confined c d { log.fresh with
      disk := d', needSync := sync, journal := told, tailResets := resets } where
  config := h.config
  makes := h.makes.trans makes
  reader _ there := by cases there
  writer _ there := by cases there

theorem of_tail (tail : log.Tail log') (h : log.Confined c d) : log'.Confined c d := by
  cases tail with
  | unread behind => exact h
  | met meet sync told resets => exact h.of_same rfl rfl rfl rfl
  | crossed past told resets => exact h.fresh h.swept

theorem commit (h : log.Confined c d) : log.commit.2.Confined c d := by
  obtain ⟨sync, told, tail⟩ := log.commit_outcome
  refine of_tail tail (h.onDisk ?_ rfl rfl rfl rfl)
  split
  · exact .refl _
  · exact h.remove _

theorem quarantine (h : log.Confined c d) (noSlash : '/' ∉ c.name.toList) :
    log.quarantine.Confined c d := by
  obtain ⟨told, tail⟩ := log.quarantine_outcome
  have renamed : log.disk.Makes (fun a => a.call.Within c.Owns)
      (log.disk.rename (log.segmentPath log.read.file)
        (Naming.quarantinePath (log.segmentPath log.read.file))).2 := by
    refine Disk.makes_rename fun path there => ?_
    rw [h.segmentPath, Config.path_quarantined noSlash] at there
    simp only [Call.paths, List.mem_cons, List.not_mem_nil, or_false] at there
    rcases there with rfl | rfl
    · exact c.owns_path _
    · exact c.owns_path _
  revert renamed tail
  generalize (log.disk.rename (log.segmentPath log.read.file)
    (Naming.quarantinePath (log.segmentPath log.read.file))).2 = d₁
  intro tail renamed
  have moved : Confined c d { log with disk := d₁ } := h.onDisk renamed rfl rfl rfl rfl
  have closed : Confined c d { log with
      disk := d₁, reader := none
      writer := if log.read.file = log.write.file then none else log.writer } := by
    refine moved.closed (Or.inl rfl) ?_
    split
    · exact Or.inl rfl
    · exact Or.inr rfl
  exact of_tail tail (closed.of_same rfl rfl rfl rfl)

theorem deleteAll (h : log.Confined c d) : log.deleteAll.2.Confined c d := by
  obtain ⟨told, eq⟩ := log.deleteAll_outcome
  have removed : log.swept.Makes (fun a => a.call.Within c.Owns)
      (Record.remove log.swept log.recordPath).2 :=
    Record.remove_calls (Call.within_of_path rfl (h.recordPath ▸ c.owns_path _))
  rw [eq]
  exact h.fresh (h.swept.trans removed)

/-! ### Any request -/

theorem serve (h : log.Confined c d) (noSlash : '/' ∉ c.name.toList) (r : Request) :
    (log.serve r).Confined c d := by
  cases r with
  | append m => exact h.append noSlash
  | read => exact h.readFrame
  | commit => exact h.commit
  | quarantine => exact h.quarantine noSlash
  | skip =>
    obtain ⟨told, eq⟩ := log.skip_outcome
    rw [Log.serve, eq]
    exact h.fresh h.swept
  | deleteAll => exact h.deleteAll
  | sync => exact h.sync noSlash
  | requestSync => exact h.of_same rfl rfl rfl rfl
  | closeFiles => exact h.closed (Or.inl rfl) (Or.inl rfl)

/-- **Whatever is asked of a log, it keeps to its own files.** -/
theorem leads (h : log.Confined c d) (noSlash : '/' ∉ c.name.toList) (lead : log.Leads log') :
    log'.Confined c d := by
  induction lead with
  | refl => exact h
  | serve lead r ih => exact ih.serve noSlash r
  | tell lead n ih => exact ih.tell n

end Confined

/-- A log begins to keep to its own files when it takes up a record. -/
theorem confined_ofRecord (c : Config) (d : Disk) (r : Record) : (ofRecord c d r).Confined c d := by
  obtain ⟨found, found_eq⟩ : ∃ found : Log, found =
    { config := c, disk := d, read := r.read, next := r.read, write := r.write, depth := r.length } :=
    ⟨_, rfl⟩
  have begins : found.Confined c d := by
    subst found_eq
    exact ⟨rfl, .refl _, nofun, nofun⟩
  obtain ⟨-, told, eq⟩ | ⟨-, depth, sync, told, resets, eq, -⟩ := ofRecord_outcome c d r
  · rw [eq, ← found_eq]
    exact begins.fresh begins.swept
  · rw [eq, ← found_eq]
    exact begins.of_same rfl rfl rfl rfl

end Log

end DurableQueue
