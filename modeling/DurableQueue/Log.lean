import DurableQueue.Config
import DurableQueue.Naming
import DurableQueue.Notice
import DurableQueue.Reader
import DurableQueue.Record.Store
import DurableQueue.Word

/-!
# The log

A queue's messages lie as frames in a sequence of segments. The `Log` holds the cursors into
that sequence and the disk with its files: `read`, before which everything was delivered,
`next`, where `read` will stand once the message last read is delivered, and `write`, where
the next frame goes.

A segment is left once a cursor's offset in it is above `maxBytesPerFile`. The writer and
the reader apply the same rule to the same offsets, so both leave a segment after the same
frame, and no index says where.

Cursors that cannot be right are healed: everything between them goes, and both start at a
fresh segment with nothing waiting. A segment that cannot be read is quarantined: it is set
aside under another name and reading goes on at the start of the next one.
-/

namespace DurableQueue

open FileSystem (Disk FileError Handle)

/-- The cursors of a queue and the disk with its files. -/
structure Log where
  config : Config
  disk : Disk
  /-- Everything before it was delivered. -/
  read : Position
  /-- Where `read` goes when the message last read is delivered. -/
  next : Position
  /-- Where the next frame goes. -/
  write : Position
  /-- The number of messages written and not delivered, in a word of 64 bits. -/
  depth : Int
  /-- How often the depth or the cursors had to be put right. -/
  tailResets : Nat := 0
  /-- Whether the record on disk is to be brought up to date. -/
  needSync : Bool := false
  /-- The segment at `read`, open for reading from there. -/
  reader : Option Reader := none
  /-- The segment at `write`, open for writing there. -/
  writer : Option Handle := none
  /-- What the log has told, the latest first. -/
  journal : List Notice := []

namespace Log

/-- The log after telling something. -/
def tell (log : Log) (n : Notice) : Log := { log with journal := n :: log.journal }

/-- The path of a segment. -/
def segmentPath (log : Log) (number : Nat) : String :=
  Naming.segmentPath log.config.dataPath log.config.name number

/-- The path of the record. -/
def recordPath (log : Log) : String :=
  Naming.recordPath log.config.dataPath log.config.name

/-- Whether a frame lies between the read and the write cursor. -/
def hasUnread (log : Log) : Bool := log.read < log.write

/-- What the record on disk should say. -/
def record (log : Log) : Record := ⟨log.depth, log.read, log.write⟩

/-- Asks for a sync. -/
def requestSync (log : Log) : Log := { log with needSync := true }

/-- Lets go of both open segments. -/
def closeFiles (log : Log) : Log := { log with reader := none, writer := none }

/-! ### Healing -/

/-- Removes every segment from the smaller to the larger of the two cursors' numbers and
starts both cursors afresh after them, with nothing waiting. Every removal is attempted; of
several that fail, the last is the answer. -/
def skip (log : Log) : Except Error Unit × Log :=
  let first := min log.read.file log.write.file
  let last := max log.read.file log.write.file
  let paths := (List.range' first (last + 1 - first)).map log.segmentPath
  let (failed, disk) := log.disk.removeEach paths
  let fresh : Position := ⟨last + 1, 0⟩
  let result :=
    match failed.getLast? with
    | none => .ok ()
    | some (path, e) => .error (.removeFile path e)
  (result,
    { log with
      disk, read := fresh, next := fresh, write := fresh, depth := 0, reader := none,
      writer := none, journal := failed.map (fun _ => .segmentRemovalFailed) ++ log.journal })

/-- Skips to a fresh segment whether or not all removals succeed. -/
def heal (log : Log) : Log :=
  match log.skip with
  | (.ok (), log) => log.requestSync
  | (.error _, log) => (log.tell .healingIncomplete).requestSync

/-- Once all is read, sees to it that nothing is waiting and that the cursors meet; tells
whether something had to be put right. `length` is the number of waiting messages. -/
def checkTail (log : Log) (length : Int) : Bool × Log :=
  if log.hasUnread then (false, log)
  else
    let wrong := length ≠ 0
    let log := if wrong then { log.tell .depthReset with depth := 0, needSync := true } else log
    let passed := log.read ≠ log.write
    let log := if passed then (log.tell .cursorPassed).heal else log
    if wrong ∨ passed then (true, { log with tailResets := log.tailResets + 1 }) else (false, log)

/-- The log of a queue whose record says `r`. A record that cannot be right is healed. -/
def ofRecord (config : Config) (disk : Disk) (r : Record) : Log :=
  let log : Log :=
    { config, disk, read := r.read, next := r.read, write := r.write, depth := r.length }
  if r.write < r.read then
    let log := (log.tell .cursorsCrossed).heal
    { log with tailResets := log.tailResets + 1 }
  else if r.length < 0 ∨ r.read = r.write ∧ r.length ≠ 0 then
    { log.tell .lengthDisagreed with depth := 0, tailResets := 1, needSync := true }
  else log

/-! ### Syncing -/

/-- Stores the record. -/
def storeRecord (log : Log) : Except Error Unit × Log :=
  match log.record.store log.disk log.recordPath with
  | { result := .ok (), disk, .. } =>
    (.ok (), { log.tell .recordStored with disk, needSync := false })
  | { result := .error e, disk, leftover } =>
    (.error e, { (if leftover then log.tell .temporaryLeft else log) with disk })

/-- Brings the segment that is open for writing to the medium and then stores the record. If
the first fails the segment is closed, and the next append opens it anew. -/
def sync (log : Log) : Except Error Unit × Log :=
  match log.writer with
  | none => log.storeRecord
  | some h =>
    match log.disk.sync h with
    | (.error e, disk) => (.error (.syncSegment h.path e), { log with disk, writer := none })
    | (.ok (), disk) => { log with disk }.storeRecord

/-! ### Reading -/

/-- The segment at the read cursor, open for reading from there. -/
def openReader (log : Log) : Except Error Reader × Log :=
  match log.reader with
  | some reader => (.ok reader, log)
  | none =>
    let path := log.segmentPath log.read.file
    match log.disk.openRead path with
    | (.error e, disk) => (.error (.openSegment path e), { log with disk })
    | (.ok h, disk) =>
      match disk.seek h log.read.offset with
      | (.error e, disk) => (.error (.openSegment path e), { log with disk })
      | (.ok handle, disk) => (.ok { handle }, { log with disk })

/-- The place after a frame for a message of `size` bytes that begins at `p`. -/
def after (log : Log) (p : Position) (size : Nat) : Position :=
  let past : Position := ⟨p.file, p.offset + Frame.diskSize size⟩
  if log.config.maxBytesPerFile < past.offset then p.nextFile else past

/-- Reads the message at the read cursor. The cursor itself moves only when the message is
delivered; any error closes the segment. -/
def readFrame (log : Log) : Except Error Bytes × Log :=
  match log.openReader with
  | (.error e, log) => (.error e, log)
  | (.ok reader, log) =>
    match reader.readFrame log.config.minMsgSize log.config.maxMsgSize log.disk with
    | (.error e, (_, disk)) => (.error e, { log with disk, reader := none })
    | (.ok message, (reader, disk)) =>
      let next := log.after log.read message.length
      (.ok message,
        { log with disk, next, reader := if next.file = log.read.file then some reader else none })

/-- Sets the segment at the read cursor aside and goes on at the next one. A writer that was
still in that segment goes on as well, so that nothing is written after the damage. -/
def quarantine (log : Log) : Log :=
  let log := { log with reader := none }
  let log :=
    if log.read.file = log.write.file then { log with writer := none, write := log.write.nextFile }
    else log
  let segment := log.segmentPath log.read.file
  let (moved, disk) := log.disk.rename segment (Naming.quarantinePath segment)
  let log :=
    match moved with
    | .ok () => log.tell .quarantined
    | .error _ => log.tell .quarantineFailed
  let log :=
    { log with disk, read := log.read.nextFile, next := log.read.nextFile, needSync := true }
  (log.checkTail log.depth).2

/-- Moves the read cursor past the message last read, once that is delivered. A segment that
is left behind is removed. Tells whether something had to be put right. -/
def commit (log : Log) : Bool × Log :=
  let left := log.read.file
  let depth := Word.wrap (log.depth - 1)
  let log := { log with read := log.next, depth }
  let log :=
    if left = log.read.file then log
    else
      match log.disk.remove (log.segmentPath left) with
      | (.ok (), disk) => { log.tell .consumedRemoved with disk, needSync := true }
      | (.error _, disk) => { log.tell .consumedRemovalFailed with disk, needSync := true }
  log.checkTail depth

/-- What came of going one message on. -/
inductive Advance where
  | nothingUnread
  | unreadable (e : Error)
  /-- A message was read and its delivery committed. -/
  | delivered (message : Bytes) (reset : Bool)

/-- Goes one message on: reads it and commits its delivery, or quarantines its segment. -/
def advance (log : Log) : Advance × Log :=
  if log.hasUnread then
    match log.readFrame with
    | (.ok message, log) =>
      let (reset, log) := log.commit
      (.delivered message reset, log)
    | (.error e, log) => (.unreadable e, log.quarantine)
  else (.nothingUnread, log)

/-! ### Writing -/

/-- The segment at the write cursor, open for writing there. -/
def openWriter (log : Log) : Except Error Handle × Log :=
  match log.writer with
  | some h => (.ok h, log)
  | none =>
    let path := log.segmentPath log.write.file
    match log.disk.openWrite path with
    | (.error e, disk) => (.error (.openSegment path e), { log with disk })
    | (.ok h, disk) =>
      match disk.seek h log.write.offset with
      | (.error e, disk) => (.error (.openSegment path e), { log with disk })
      | (.ok h, disk) => (.ok h, { log with disk })

/-- Leaves the write segment if its offset is above the limit. The frame that brought it there
is on disk; a sync that fails here is made up for by a later one. -/
def roll (log : Log) : Log :=
  if log.config.maxBytesPerFile < log.write.offset then
    let log := { log.tell .rolled with write := log.write.nextFile }
    match log.sync with
    | (.ok (), log) => { log with writer := none }
    | (.error _, log) => { log.tell .rollSyncFailed with writer := none }
  else log

/-- Appends a message. -/
def append (log : Log) (message : Bytes) : Except Error Unit × Log :=
  let least := log.config.minMsgSize
  let most := log.config.maxMsgSize
  if message.length < least ∨ most < message.length then
    (.error (.invalidMessageSize message.length least most), log)
  else
    match log.openWriter with
    | (.error e, log) => (.error e, log)
    | (.ok h, log) =>
      match log.disk.write h (Frame.encode message) with
      | (.error e, disk) => (.error (.writeSegment h.path e), { log with disk, writer := none })
      | (.ok h, disk) =>
        let write := ⟨log.write.file, log.write.offset + Frame.diskSize message.length⟩
        (.ok (),
          roll { log with disk, write, writer := some h, depth := Word.wrap (log.depth + 1) })

/-! ### Deleting -/

/-- Removes every segment between the cursors and then the record. -/
def deleteAll (log : Log) : Except Error Unit × Log :=
  let (skipped, log) := log.skip
  match Record.remove log.disk log.recordPath with
  | (.ok (), disk) => (skipped, { log with disk })
  | (.error e, disk) =>
    (.error (.removeFile log.recordPath e), { log.tell .recordRemovalFailed with disk })

end Log

end DurableQueue
