import DurableQueue.Proofs.Log.Moving

/-!
# Moving on while calls may fail

Reading changes nothing on disk (`readFrame_faulty`). Committing leaves alone all segments but the
one that the read cursor leaves (`commit_faulty`), and so does setting a segment aside
(`quarantine_faulty`). A log that skips, or whose cursors have crossed, starts afresh in a segment
that it has not used yet (`Log.Afresh`), whether or not the segments before can be removed.
-/

namespace DurableQueue

open FileSystem

theorem Reader.take_tree (n : Nat) (r : Reader) (d : Disk) :
    (Reader.take n (r, d)).2.2.tree = d.tree := by
  rw [take]
  split
  · rfl
  · have same := Disk.tree_read (d := d) r.handle (max (n - r.ahead.length) capacity)
    simp only
    revert same
    cases d.read r.handle (max (n - r.ahead.length) capacity) with
    | mk result d' =>
      intro same
      cases result with
      | error e => exact same
      | ok fetched =>
        simp only
        split
        · exact same
        · exact same

theorem Reader.readFrame_tree (least most : Nat) (r : Reader) (d : Disk) :
    (r.readFrame least most d).2.2.tree = d.tree := by
  rw [readFrame, Frame.decodeFrom]
  have first := take_tree Frame.headerSize r d
  revert first
  cases take Frame.headerSize (r, d) with
  | mk result source =>
    obtain ⟨r₁, d₁⟩ := source
    intro first
    cases result with
    | error e => exact first
    | ok header =>
      simp only
      split
      · exact first
      · have second := take_tree (Bytes.toWord header) r₁ d₁
        revert second
        cases take (Bytes.toWord header) (r₁, d₁) with
        | mk result source =>
          intro second
          cases result with
          | error e => exact second.trans first
          | ok message => exact second.trans first

namespace Log

variable {log : Log} {c : Config} {dir : Location} {d : Disk}

/-- Reading moves no cursor but `next`, and that only forward, and changes nothing on disk. -/
theorem readFrame_faulty (log : Log) (ahead : log.read ≤ log.next) :
    ∃ d next reader, log.readFrame.2 = { log with disk := d, next, reader } ∧
      d.tree = log.disk.tree ∧ log.read ≤ next := by
  obtain ⟨d, opened, same⟩ : ∃ d, log.openReader.2 = { log with disk := d } ∧
      d.tree = log.disk.tree := by
    unfold openReader
    split
    · exact ⟨_, rfl, rfl⟩
    · simp only
      have first := Disk.tree_openRead (d := log.disk) (log.segmentPath log.read.file)
      revert first
      cases log.disk.openRead (log.segmentPath log.read.file) with
      | mk result d =>
        intro first
        cases result with
        | error e => exact ⟨d, rfl, first⟩
        | ok h =>
          simp only
          have second := Disk.tree_seek (d := d) h log.read.offset
          revert second
          cases d.seek h log.read.offset with
          | mk result d' =>
            intro second
            cases result with
            | error e => exact ⟨d', rfl, second.trans first⟩
            | ok h' => exact ⟨d', rfl, second.trans first⟩
  unfold readFrame
  revert opened
  cases log.openReader with
  | mk result log' =>
    rintro rfl
    cases result with
    | error e => exact ⟨d, log.next, log.reader, rfl, same, ahead⟩
    | ok r =>
      simp only
      have read := Reader.readFrame_tree log.config.minMsgSize log.config.maxMsgSize r d
      revert read
      cases r.readFrame log.config.minMsgSize log.config.maxMsgSize d with
      | mk result source =>
        obtain ⟨r', d'⟩ := source
        intro read
        cases result with
        | error e => exact ⟨d', log.next, none, rfl, read.trans same, ahead⟩
        | ok message =>
          refine ⟨d', _, _, rfl, read.trans same, ?_⟩
          rw [after_eq]
          exact Position.le_of_lt Position.lt_past

/-! ### Starting afresh -/

theorem removeEach_faulty (hosts : d.tree.Hosts c.dataPath dir) (sound : c.Sound)
    (numbers : List Nat) :
    (d.removeEach (numbers.map fun k => c.path (.segment k))).2.tree.Hosts c.dataPath dir := by
  induction numbers generalizing d with
  | nil => exact hosts
  | cons k numbers ih =>
    have first := (Disk.remove_faulty hosts sound (.segment k)).hosts
    rw [List.map_cons, Disk.removeEach]
    revert first
    cases d.remove (c.path (.segment k)) with
    | mk result d' =>
      intro first
      cases result with
      | error e => exact ih first
      | ok u => exact ih first

/-- A log that starts afresh in a segment after its write cursor, with nothing unread. -/
structure Afresh (log : Log) (dir : Location) (log' : Log) : Prop where
  config : log'.config = log.config
  hosts : log'.disk.tree.Hosts log.config.dataPath dir
  read_eq : log'.read = log'.write
  next_eq : log'.next = log'.write
  later : log.write.file < log'.write.file
  closed : log'.writer = none

theorem afresh_fresh (log : Log) (hosts : d.tree.Hosts log.config.dataPath dir) {sync : Bool}
    {told : List Notice} {resets : Nat} :
    log.Afresh dir { log.fresh with
      disk := d, needSync := sync, journal := told, tailResets := resets } where
  config := rfl
  hosts := hosts
  read_eq := rfl
  next_eq := rfl
  later := by
    simp only [fresh]
    omega
  closed := rfl

theorem swept_faulty (log : Log) (hosts : log.disk.tree.Hosts log.config.dataPath dir)
    (sound : log.config.Sound) : log.swept.tree.Hosts log.config.dataPath dir :=
  removeEach_faulty hosts sound log.span

/-- Whether or not all removals succeed, a log that skips starts afresh. -/
theorem skip_faulty (log : Log) (hosts : log.disk.tree.Hosts log.config.dataPath dir)
    (sound : log.config.Sound) : log.Afresh dir log.skip.2 := by
  obtain ⟨told, eq⟩ := log.skip_outcome
  rw [eq]
  exact afresh_fresh log (log.swept_faulty hosts sound)

theorem deleteAll_faulty (log : Log) (hosts : log.disk.tree.Hosts log.config.dataPath dir)
    (sound : log.config.Sound) : log.Afresh dir log.deleteAll.2 := by
  obtain ⟨told, eq⟩ := log.deleteAll_outcome
  rw [eq]
  exact afresh_fresh log (Record.remove_faulty (log.swept_faulty hosts sound) sound).hosts

/-- As long as the read cursor has not passed the write cursor, looking at the tail moves
neither. -/
theorem Tail.rest {log' : Log} (tail : log.Tail log') (le : log.read ≤ log.write) :
    ∃ depth sync told resets, log' = { log with
      depth, needSync := sync, journal := told, tailResets := resets } := by
  cases tail with
  | unread behind => exact ⟨log.depth, log.needSync, log.journal, log.tailResets, rfl⟩
  | met meet sync told resets => exact ⟨0, sync, told, resets, rfl⟩
  | crossed past told resets => exact absurd (Position.lt_of_le_of_lt le past) Position.lt_irrefl

/-- Cursors that have crossed are healed when the tail is looked at. -/
theorem Tail.afresh {log' : Log} (tail : log.Tail log')
    (hosts : log.disk.tree.Hosts log.config.dataPath dir) (sound : log.config.Sound)
    (crossed : ¬log.read ≤ log.write) : log.Afresh dir log' := by
  cases tail with
  | unread behind => exact absurd (Position.le_of_lt behind) crossed
  | met meet sync told resets => exact absurd (meet ▸ Position.le_refl _) crossed
  | crossed past told resets => exact afresh_fresh log (log.swept_faulty hosts sound)

/-! ### Going on -/

/-- Committing removes at most the segment that is left behind. Only a read cursor that was moved
past the write cursor is healed. -/
theorem commit_faulty (log : Log) (hosts : log.disk.tree.Hosts log.config.dataPath dir)
    (sound : log.config.Sound) :
    (∃ d depth sync told resets, log.commit.2 = { log with
        read := log.next, depth, disk := d, needSync := sync, journal := told,
        tailResets := resets } ∧
      log.next ≤ log.write ∧
      log.disk.tree.Spares log.config dir
        (fun f => log.read.file ≠ log.next.file → f ≠ .segment log.read.file) d.tree) ∨
    log.Afresh dir log.commit.2 := by
  obtain ⟨sync, told, tail⟩ := log.commit_outcome
  obtain ⟨d, d_eq⟩ : ∃ d, d = if log.next.file = log.read.file then log.disk
    else (log.disk.remove (log.segmentPath log.read.file)).2 := ⟨_, rfl⟩
  have spares : log.disk.tree.Spares log.config dir
      (fun f => log.read.file ≠ log.next.file → f ≠ .segment log.read.file) d.tree := by
    rw [d_eq]
    split
    · exact .refl hosts
    · next left =>
      exact (Disk.remove_faulty hosts sound (.segment log.read.file)).mono fun _ away =>
        away (Ne.symm left)
  rw [← d_eq] at tail
  by_cases ordered : log.next ≤ log.write
  · obtain ⟨depth, sync, told, resets, eq⟩ := tail.rest ordered
    exact Or.inl ⟨d, depth, sync, told, resets, eq, ordered, spares⟩
  · have healed := tail.afresh spares.hosts sound ordered
    exact Or.inr ⟨healed.config, healed.hosts, healed.read_eq, healed.next_eq, healed.later,
      healed.closed⟩

/-- A segment that is set aside is left by both cursors, and no other is touched. -/
theorem quarantine_faulty (log : Log) (hosts : log.disk.tree.Hosts log.config.dataPath dir)
    (sound : log.config.Sound) (ordered : log.read ≤ log.write) :
    ∃ d depth sync told resets write w, log.quarantine = { log with
        read := log.read.nextFile, next := log.read.nextFile, write, depth, disk := d,
        needSync := sync, journal := told, tailResets := resets, reader := none, writer := w } ∧
      (log.read.file = log.write.file ∧ write = log.write.nextFile ∧ w = none ∨
        log.read.file ≠ log.write.file ∧ write = log.write ∧ w = log.writer) ∧
      log.disk.tree.Spares log.config dir (fun f => ∃ k, f = .segment k ∧ k ≠ log.read.file)
        d.tree := by
  have apart : QueueFile.quarantined log.read.file ≠ .segment log.read.file := nofun
  have renamed : log.disk.tree.Spares log.config dir
      (fun f => ∃ k, f = .segment k ∧ k ≠ log.read.file)
      (log.disk.rename (log.config.path (.segment log.read.file))
        (log.config.path (.quarantined log.read.file))).2.tree := by
    refine (Disk.rename_faulty hosts sound apart).1.mono ?_
    rintro _ ⟨k, rfl, other⟩
    exact ⟨by simpa using other, nofun⟩
  rw [← sound.named.path_quarantined log.read.file] at renamed
  obtain ⟨told, tail⟩ := log.quarantine_outcome
  have forward : log.read.nextFile ≤ if log.read.file = log.write.file then log.write.nextFile
      else log.write := by
    have behind := Position.file_le ordered
    split
    · simp only [Position.le_iff, Position.nextFile]
      omega
    · simp only [Position.le_iff, Position.nextFile]
      omega
  obtain ⟨depth, sync, told, resets, eq⟩ := tail.rest forward
  refine ⟨_, depth, sync, told, resets, _, _, eq, ?_, renamed⟩
  by_cases here : log.read.file = log.write.file
  · exact Or.inl ⟨here, if_pos here, if_pos here⟩
  · exact Or.inr ⟨here, if_neg here, if_neg here⟩

end Log

end DurableQueue
