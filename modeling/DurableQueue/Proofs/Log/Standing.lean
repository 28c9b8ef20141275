import DurableQueue.Proofs.FileSystem.Touching
import DurableQueue.Proofs.Log.Outcomes

/-!
# Where a reader stands

A reader that stays open holds some bytes of its file that nobody has taken yet, and its file stands
behind them. So the place from which it goes on is told by both (`Reader.StandsAt`). A frame that is
read takes it on by as much as the frame is long (`StandsAt.readFrame`).

A log that has a reader open at its read cursor reads the message there, and has a reader open at `next`
afterwards, if it has one at all (`ReadsAt.readFrame`). An append leaves it where it is
(`append_cursors`), a commit takes the read cursor to it (`ReadsAt.commit`), and a log that sets a
segment aside has none (`reader_quarantine`).
-/

namespace DurableQueue

open FileSystem

namespace FileSystem.Disk

variable {d : Disk}

/-- A file that is opened for reading stands at its start. -/
theorem openRead_start {h : Handle} {path : String} (ok : (d.openRead path).1 = .ok h) :
    h.offset = 0 := by
  have opened := perform_ok ok
  cases found : d.tree.openRead (Path.parts path) with
  | error e =>
    simp only [found] at opened
    cases opened
  | ok node =>
    simp only [found] at opened
    cases opened
    rfl

/-- A file that was read from stands behind what was read. -/
theorem read_ok {h h' : Handle} {size : Nat} {bs : Bytes} (ok : (d.read h size).1 = .ok (bs, h')) :
    h' = { h with offset := h.offset + bs.length } := by
  have fetched := perform_ok ok
  cases found : d.tree.read h.node h.offset size with
  | error e =>
    simp only [found] at fetched
    cases fetched
  | ok bs =>
    simp only [found] at fetched
    cases fetched
    rfl

end FileSystem.Disk

namespace Reader

variable {r r' : Reader} {d d' : Disk} {path : String} {n p : Nat} {bs message : Bytes}
  {least most : Nat}

/-- What the reader hands out next lies at offset `p` of the file at `path`. -/
structure StandsAt (r : Reader) (path : String) (p : Nat) : Prop where
  path : r.handle.path = path
  offset : r.handle.offset = p + r.ahead.length

/-- What is handed out takes a reader on by as many bytes. -/
theorem StandsAt.take (stands : r.StandsAt path p) (h : Reader.take n (r, d) = (.ok bs, (r', d'))) :
    bs.length = n ∧ r'.StandsAt path (p + n) := by
  rw [Reader.take] at h
  split at h
  case isTrue enough =>
    cases h
    refine ⟨List.length_take_of_le enough, stands.path, ?_⟩
    have offset := stands.offset
    simp only [List.length_drop]
    omega
  case isFalse few =>
    simp only at h
    have moved := fun bs h' => @Disk.read_ok d r.handle h' (max (n - r.ahead.length) capacity) bs
    revert h moved
    cases d.read r.handle (max (n - r.ahead.length) capacity) with
    | mk result d₁ =>
      intro h moved
      cases result with
      | error e => cases h
      | ok out =>
        obtain ⟨fetched, h'⟩ := out
        obtain rfl := moved fetched h' rfl
        simp only at h
        split at h
        · cases h
        · next plenty =>
          cases h
          have offset := stands.offset
          constructor
          · simp only [List.length_append, List.length_take]
            omega
          · refine ⟨stands.path, ?_⟩
            simp only [List.length_drop]
            omega

/-- A frame that is read takes a reader on by the size of the frame. -/
theorem StandsAt.readFrame (stands : r.StandsAt path p)
    (h : r.readFrame least most d = (.ok message, (r', d'))) :
    r'.StandsAt path (p + Frame.diskSize message.length) := by
  rw [Reader.readFrame, Frame.decodeFrom] at h
  revert h
  cases first : Reader.take Frame.headerSize (r, d) with
  | mk result source =>
    obtain ⟨r₁, d₁⟩ := source
    cases result with
    | error e => exact fun h => by cases h
    | ok header =>
      obtain ⟨-, behind⟩ := stands.take first
      simp only
      split
      · exact fun h => by cases h
      cases second : Reader.take (Bytes.toWord header) (r₁, d₁) with
      | mk result source =>
        obtain ⟨r₂, d₂⟩ := source
        cases result with
        | error e => exact fun h => by cases h
        | ok body =>
          intro h
          cases h
          obtain ⟨size, behind'⟩ := behind.take second
          rw [Frame.diskSize, size, ← Nat.add_assoc]
          exact behind'

end Reader

namespace Log

variable {log log' : Log} {m : Bytes} {p : Position}

/-- What the log reads next lies at `p`, unless it has to open a segment first. -/
def ReadsAt (log : Log) (p : Position) : Prop :=
  ∀ r ∈ log.reader, r.StandsAt (log.segmentPath p.file) p.offset

theorem ReadsAt.of_closed (closed : log.reader = none) : log.ReadsAt p := by
  intro r kept
  rw [closed] at kept
  cases kept

theorem ReadsAt.of_eq (reads : log.ReadsAt p) (config : log'.config = log.config)
    (reader : log'.reader = log.reader) : log'.ReadsAt p := by
  intro r kept
  rw [segmentPath, config]
  exact reads r (reader ▸ kept)

/-- A reader that is opened, or was kept, is one at the read cursor. -/
theorem ReadsAt.openReader (reads : log.ReadsAt log.read) {r : Reader}
    (opened : log.openReader = (.ok r, log')) :
    r.StandsAt (log.segmentPath log.read.file) log.read.offset ∧ log'.config = log.config ∧
      log'.read = log.read := by
  unfold Log.openReader at opened
  split at opened
  · next r kept =>
    cases opened
    exact ⟨reads r kept, rfl, rfl⟩
  · simp only at opened
    have named := fun h => @Disk.openRead_ok log.disk h (log.segmentPath log.read.file)
    have start := fun h => @Disk.openRead_start log.disk h (log.segmentPath log.read.file)
    revert opened named start
    cases log.disk.openRead (log.segmentPath log.read.file) with
    | mk result d =>
      intro opened named start
      cases result with
      | error e => cases opened
      | ok h =>
        have placed := fun h' => @Disk.seek_ok d h h' log.read.offset (start h rfl)
        simp only at opened
        revert opened placed
        cases d.seek h log.read.offset with
        | mk result d' =>
          intro opened placed
          cases result with
          | error e => cases opened
          | ok h' =>
            obtain rfl := placed h' rfl
            cases opened
            exact ⟨⟨named h rfl, rfl⟩, rfl, rfl⟩

/-- Reading leaves the cursors where they are. -/
theorem readFrame_cursors {result : Except Error Bytes} (read : log.readFrame = (result, log')) :
    log'.config = log.config ∧ log'.read = log.read ∧ log'.write = log.write := by
  obtain ⟨m, d, reader, eq, -⟩ | ⟨e, d, reader, eq, -⟩ := log.readFrame_outcome
  · rw [read] at eq
    cases eq
    exact ⟨rfl, rfl, rfl⟩
  · rw [read] at eq
    cases eq
    exact ⟨rfl, rfl, rfl⟩

/-- **A message that is read ends where the next one is looked for**, and there the reader stands if it
is kept. -/
theorem ReadsAt.readFrame (reads : log.ReadsAt log.read) (read : log.readFrame = (.ok m, log')) :
    log'.next = log.read.past log.config.maxBytesPerFile m.length ∧ log'.ReadsAt log'.next := by
  have opens := fun r log₁ => @ReadsAt.openReader log log₁ reads r
  unfold Log.readFrame at read
  revert read opens
  cases log.openReader with
  | mk result log₁ =>
    intro read opens
    cases result with
    | error e => cases read
    | ok r =>
      obtain ⟨stands, config, same⟩ := opens r log₁ rfl
      have goes := fun m r' d' => @Reader.StandsAt.readFrame r r' log₁.disk d' _ _ m
        log₁.config.minMsgSize log₁.config.maxMsgSize stands
      simp only at read
      revert read goes
      cases r.readFrame log₁.config.minMsgSize log₁.config.maxMsgSize log₁.disk with
      | mk result source =>
        obtain ⟨r', d'⟩ := source
        intro read goes
        cases result with
        | error e => cases read
        | ok m' =>
          cases read
          have behind := goes m r' d' rfl
          have next : log₁.after log₁.read m.length =
              log.read.past log.config.maxBytesPerFile m.length := by
            rw [after_eq, config, same]
          refine ⟨next, ?_⟩
          show ReadsAt _ (log₁.after log₁.read m.length)
          rw [next, same]
          rcases Position.past_cases log.config.maxBytesPerFile log.read m.length with
            ⟨stay, -⟩ | ⟨leave, -⟩
          · rw [stay, if_pos rfl]
            intro r'' kept
            cases kept
            rw [segmentPath, config]
            exact behind
          · have apart : log.read.nextFile.file ≠ log.read.file := Nat.succ_ne_self _
            rw [leave, if_neg apart]
            exact .of_closed rfl

/-- Setting a segment aside takes the read cursor to the next one, where the write cursor is at the
earliest. -/
theorem quarantine_read (unread : log.read < log.write) : log.quarantine.read = log.read.nextFile := by
  obtain ⟨told, tail⟩ := log.quarantine_outcome
  revert tail
  generalize log.quarantine = log'
  intro tail
  cases tail with
  | unread behind => rfl
  | met meet sync told resets => rfl
  | crossed past told resets =>
    exfalso
    by_cases same : log.read.file = log.write.file
    · simp only [if_pos same, Position.lt_iff, Position.nextFile] at past
      omega
    · simp only [if_neg same, Position.lt_iff, Position.nextFile] at past unread
      omega

/-- A log that has set a segment aside has none open for reading. -/
theorem reader_quarantine (log : Log) : log.quarantine.reader = none := by
  obtain ⟨told, tail⟩ := log.quarantine_outcome
  revert tail
  generalize log.quarantine = log'
  intro tail
  cases tail with
  | unread behind => rfl
  | met meet sync told resets => rfl
  | crossed past told resets => rfl

/-- Committing takes an open reader along to the read cursor, or closes it. -/
theorem ReadsAt.commit (reads : log.ReadsAt log.next) : log.commit.2.ReadsAt log.commit.2.read := by
  obtain ⟨sync, told, tail⟩ := log.commit_outcome
  revert tail
  generalize log.commit.2 = log'
  intro tail
  cases tail with
  | unread behind => exact reads.of_eq rfl rfl
  | met meet sync told resets => exact reads.of_eq rfl rfl
  | crossed past told resets => exact .of_closed rfl

/-- An append leaves the reader and the cursors of reading where they are. -/
theorem append_cursors (log : Log) (m : Bytes) :
    (log.append m).2.config = log.config ∧ (log.append m).2.read = log.read ∧
      (log.append m).2.next = log.next ∧ (log.append m).2.reader = log.reader ∧
      log.write ≤ (log.append m).2.write := by
  have outcome := log.append_outcome m
  revert outcome
  generalize log.append m = out
  intro outcome
  cases outcome with
  | refused rejected => exact ⟨rfl, rfl, rfl, rfl, Position.le_refl _⟩
  | closed path e d opens => exact ⟨rfl, rfl, rfl, rfl, Position.le_refl _⟩
  | failed x e d tree by_ opens => exact ⟨rfl, rfl, rfl, rfl, Position.le_refl _⟩
  | made x d d' tree sync told within by_ opens rolls =>
    exact ⟨rfl, rfl, rfl, rfl, Position.le_of_lt Position.lt_past⟩

end Log

end DurableQueue
