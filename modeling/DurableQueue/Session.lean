import DurableQueue.Log

/-!
# Sessions

A `Session` is a log at work: from the opening of a queue to its end, one loop owns the log
and serves one event at a time. Before it waits for an event the loop settles: it syncs if a
sync is due, and if a message is unread it reads the next one and stages it, that is, keeps
it ready for whoever asks. A segment whose frame cannot be read is quarantined, and the loop
starts over. A staged message is delivered once somebody has received it, and only then does
the read cursor move.

`settle` may start over at most once for each segment between the cursors, because every
quarantine moves the read cursor to the next segment.
-/

namespace DurableQueue

open FileSystem (Disk)

/-- How a session ends. -/
inductive ExitMode where
  /-- The log is synced. -/
  | close
  /-- Every segment and the record are removed. -/
  | delete
  deriving DecidableEq, Repr

/-- A log at work. -/
structure Session where
  log : Log
  /-- The message on offer. -/
  staged : Option Bytes := none
  /-- Pushes and deliveries since the last sync. -/
  dirty : Nat := 0
  /-- Segments that were quarantined. -/
  corruptions : Nat := 0

namespace Session

/-- Syncs if enough was done or a sync was asked for. A sync that fails is tried again the
next time round. -/
def flush (s : Session) : Session :=
  let log := if s.log.config.syncEvery ≤ s.dirty then s.log.requestSync else s.log
  if log.needSync then
    match log.sync with
    | (.ok (), log) => { s with log, dirty := 0 }
    | (.error _, log) => { s with log := log.tell .syncFailed, dirty := 0 }
  else { s with log }

/-- The segments from the read cursor to the write cursor that reading may have to skip. -/
def distance (s : Session) : Nat := s.log.write.file - s.log.read.file

/-- Settles, starting over at most `rounds` times. -/
def settleWithin : Nat → Session → Session
  | 0, s => s
  | rounds + 1, s =>
    let s := s.flush
    if s.staged.isNone ∧ s.log.hasUnread then
      match s.log.readFrame with
      | (.ok message, log) => { s with log, staged := some message }
      | (.error _, log) =>
        settleWithin rounds
          { s with log := (log.tell .frameUnreadable).quarantine, corruptions := s.corruptions + 1 }
    else s

/-- Does everything that is due before the loop waits for an event. -/
def settle (s : Session) : Session := s.settleWithin (s.distance + 2)

/-- The session of a log, waiting for its first event. -/
def start (log : Log) : Session := settle { log := log.tell .loopStarted }

/-- Serves a push. A rejected one counts toward the next sync as well. -/
def push (s : Session) (message : Bytes) : Except Error Unit × Session :=
  let (result, log) := s.log.append message
  (result, settle { s with log, dirty := s.dirty + 1 })

/-- Hands the staged message to a receiver. -/
def deliver (s : Session) : Option (Bytes × Session) :=
  s.staged.map fun message =>
    let (reset, log) := s.log.commit
    let log := if reset then log.tell .tailReset else log
    (message, settle { s with log, staged := none, dirty := s.dirty + 1 })

/-- Discards every message. The staged one belongs to a segment that goes. -/
def clear (s : Session) : Except Error Unit × Session :=
  let (result, log) := s.log.deleteAll
  (result, settle { s with log := (log.requestSync).tell .cleared, staged := none, dirty := 0 })

/-- A tick of the clock: what was done is synced. -/
def tick (s : Session) : Session :=
  settle { s with log := if 0 < s.dirty then s.log.requestSync else s.log }

/-- Ends the session. -/
def finish (s : Session) (mode : ExitMode) : Except Error Unit × Session :=
  let (result, log) :=
    match mode with
    | .close => s.log.sync
    | .delete => s.log.deleteAll
  let log := log.closeFiles
  match result with
  | .ok () => (.ok (), { s with log := log.tell .loopStopped })
  | .error e => (.error e, { s with log := log.tell .loopFailed })

/-! ### Runs -/

/-- What can happen to a session that waits. -/
inductive Event where
  | push (message : Bytes)
  /-- A receiver takes the message on offer. -/
  | deliver
  | clear
  | tick
  deriving DecidableEq, Repr

/-- What an event is answered with. -/
inductive Answer where
  | pushed (result : Except Error Unit)
  | delivered (message : Option Bytes)
  | cleared (result : Except Error Unit)
  | ticked

/-- One event and its answer. A delivery with nothing on offer changes nothing. -/
def step (s : Session) : Event → Answer × Session
  | .push message =>
    let (result, s) := s.push message
    (.pushed result, s)
  | .deliver =>
    match s.deliver with
    | some (message, s) => (.delivered (some message), s)
    | none => (.delivered none, s)
  | .clear =>
    let (result, s) := s.clear
    (.cleared result, s)
  | .tick => (.ticked, s.tick)

/-- Events in turn, with the answers in their order. -/
def run (s : Session) : List Event → List Answer × Session
  | [] => ([], s)
  | e :: events =>
    let (answer, s) := s.step e
    let (answers, s) := run s events
    (answer :: answers, s)

end Session

end DurableQueue
