import DurableQueue.Session

/-!
# Queues

A `Queue` is what its users hold: the settings, and a session that runs until the queue is
closed or deleted. After that every request is answered with `Error.exited` and nothing is
touched; what the queue counted last can still be asked for.
-/

namespace DurableQueue

open FileSystem (Disk)

/-- A persistent first-in, first-out queue of byte messages. -/
structure Queue where
  session : Session
  running : Bool := true

namespace Queue

/-- The settings that the queue was opened with. -/
def config (q : Queue) : Config := q.session.log.config

/-- The disk that the queue's files are on. -/
def disk (q : Queue) : Disk := q.session.log.disk

/-- The queue with its files on a disk that others have worked on in the meantime. -/
def onDisk (q : Queue) (disk : Disk) : Queue :=
  { q with session := { q.session with log := { q.session.log with disk } } }

/-- Opens a queue: checks its settings, creates its directory, reads its record (a queue
without one is new) and starts its session. A failure leaves every file as it was. -/
def openOn (disk : Disk) (config : Config) : Except Error Queue × Disk :=
  match config.validate with
  | .error e => (.error e, disk)
  | .ok () =>
    match disk.makeDirectories config.dataPath with
    | (.error e, disk) => (.error (.createDirectory config.dataPath e), disk)
    | (.ok (), disk) =>
      match Record.load disk (Naming.recordPath config.dataPath config.name) with
      | (.error e, disk) => (.error e, disk)
      | (.ok record, disk) =>
        let log := Log.ofRecord config disk (record.getD {})
        let session := Session.start (log.tell .opening)
        (.ok { session }, session.log.disk)

/-- What every request of a queue that has ended is answered with. -/
def exited (q : Queue) : Error := .exited q.config.name

/-- Appends a message. -/
def push (q : Queue) (message : Bytes) : Except Error Unit × Queue :=
  if q.running then
    let (result, session) := q.session.push message
    (result, { q with session })
  else (.error q.exited, q)

/-- What a receiver that does not wait is told. -/
inductive Taken where
  | message (bytes : Bytes)
  | empty
  /-- The queue has ended. -/
  | disconnected
  deriving DecidableEq, Repr

/-- Takes the message on offer. -/
def pop (q : Queue) : Taken × Queue :=
  if q.running then
    match q.session.deliver with
    | some (message, session) => (.message message, { q with session })
    | none => (.empty, q)
  else (.disconnected, q)

/-- Takes messages until there are `count`, or until none is on offer. -/
def popMany : Nat → Queue → List Bytes × Queue
  | 0, q => ([], q)
  | count + 1, q =>
    match q.pop with
    | (.message message, q) =>
      let (messages, q) := popMany count q
      (message :: messages, q)
    | (_, q) => ([], q)

/-- More messages than can be taken without a push in between: each moves the read cursor on,
and a cursor leaves a segment once its offset is above the limit. -/
def capacity (q : Queue) : Nat :=
  (q.session.log.write.file - q.session.log.read.file + 1) * (q.config.maxBytesPerFile + 1)

/-- Discards every message. -/
def clear (q : Queue) : Except Error Unit × Queue :=
  if q.running then
    let (result, session) := q.session.clear
    (result, { q with session })
  else (.error q.exited, q)

/-- A tick of the clock. -/
def tick (q : Queue) : Queue := if q.running then { q with session := q.session.tick } else q

/-- Ends the session. -/
def exit (q : Queue) (mode : ExitMode) : Except Error Unit × Queue :=
  if q.running then
    let session := { q.session with log := q.session.log.tell .stopping }
    let (result, session) := session.finish mode
    (result, { session, running := false })
  else (.error q.exited, q)

/-- Syncs the log and ends the session. -/
def close (q : Queue) : Except Error Unit × Queue := q.exit .close

/-- Removes every file of the queue and ends the session. -/
def delete (q : Queue) : Except Error Unit × Queue := q.exit .delete

/-- Lets go of a queue; one that still runs is closed. -/
def drop (q : Queue) : Queue :=
  if q.running then
    match q.close with
    | (.ok (), q) =>
      { q with session := { q.session with log := q.session.log.tell .droppedOpen } }
    | (.error _, q) =>
      { q with session := { q.session with log := q.session.log.tell .dropFailed } }
  else q

/-- The number of messages written and not delivered. -/
def length (q : Queue) : Int := q.session.log.depth

/-- Whether nothing is waiting. -/
def isEmpty (q : Queue) : Bool := q.length ≤ 0

/-- What a consumer that waits gets, and the answer to the request that it waits through. -/
structure Awaited (α : Type) where
  received : Taken
  answer : α
  queue : Queue

/-- A consumer waits while `request` runs: it gets the message on offer before the request or,
if none was, the one on offer after it. -/
def awaiting {α : Type} (q : Queue) (request : Queue → α × Queue) : Awaited α :=
  match q.pop with
  | (.empty, q) =>
    let (answer, q) := request q
    let (received, queue) := q.pop
    { received, answer, queue }
  | (received, q) =>
    let (answer, queue) := request q
    { received, answer, queue }

end Queue

end DurableQueue
