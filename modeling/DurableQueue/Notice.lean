/-!
# Notices

What a queue tells its operator as it runs. A notice is known by what happened; how grave it
is, which part of the queue speaks and which details go with it are functions of that, and a
filter (`DurableQueue.Logging.Filter`) decides by these three alone whether it is shown.
-/

namespace DurableQueue

/-- How grave a notice is. -/
inductive Severity where
  | error
  | warning
  | info
  | debug
  | trace
  deriving DecidableEq, Repr

/-- How much talk it takes for a severity to be heard: the graver, the less. -/
def Severity.rank : Severity → Nat
  | error => 1
  | warning => 2
  | info => 3
  | debug => 4
  | trace => 5

/-- What a severity is called in a log. -/
def Severity.label : Severity → String
  | error => "ERROR"
  | warning => "WARN"
  | info => "INFO"
  | debug => "DEBUG"
  | trace => "TRACE"

/-- Something that happened in a queue. -/
inductive Notice where
  /-- The read cursor was found ahead of the write cursor when the log was opened. -/
  | cursorsCrossed
  /-- The stored number of messages did not fit the cursors when the log was opened. -/
  | lengthDisagreed
  | quarantined
  | quarantineFailed
  | rolled
  | rollSyncFailed
  | consumedRemoved
  | consumedRemovalFailed
  /-- All was read and the number of waiting messages was not zero. -/
  | depthReset
  /-- The read cursor went past the write cursor. -/
  | cursorPassed
  | healingIncomplete
  | segmentRemovalFailed
  | recordRemovalFailed
  | temporaryLeft
  | recordStored
  | loopStarted
  | syncFailed
  | frameUnreadable
  | tailReset
  | cleared
  | loopStopped
  | loopFailed
  | opening
  | stopping
  | droppedOpen
  | dropFailed
  | pushed
  | popped
  deriving DecidableEq, Repr

namespace Notice

/-- How grave a notice is. -/
def severity : Notice → Severity
  | cursorsCrossed | lengthDisagreed | quarantineFailed | rollSyncFailed | consumedRemovalFailed
  | depthReset | cursorPassed | healingIncomplete | segmentRemovalFailed | recordRemovalFailed
  | syncFailed | frameUnreadable | loopFailed => .error
  | temporaryLeft | dropFailed => .warning
  | quarantined | loopStarted | cleared | loopStopped | opening | stopping | droppedOpen | pushed
  | popped => .info
  | rolled | consumedRemoved | recordStored | tailReset => .debug

/-- The part of the program that speaks, by the name that filters know. -/
def target : Notice → String
  | cursorsCrossed | lengthDisagreed | quarantined | quarantineFailed | rolled | rollSyncFailed
  | consumedRemoved | consumedRemovalFailed | depthReset | cursorPassed | healingIncomplete
  | segmentRemovalFailed | recordRemovalFailed => "diskq_queue::segment"
  | temporaryLeft | recordStored => "diskq_queue::meta"
  | loopStarted | syncFailed | frameUnreadable | tailReset | cleared | loopStopped
  | loopFailed => "diskq_queue::actor"
  | opening | stopping | droppedOpen | dropFailed => "diskq_queue::queue"
  | pushed | popped => "diskq"

/-- What a notice says. -/
def title : Notice → String
  | cursorsCrossed => "the read cursor is ahead of the write cursor"
  | lengthDisagreed => "the stored length does not fit the cursors"
  | quarantined => "a segment was set aside"
  | quarantineFailed => "a segment could not be set aside"
  | rolled => "went on to the next segment"
  | rollSyncFailed => "a sync failed when a segment was left"
  | consumedRemoved => "a consumed segment was removed"
  | consumedRemovalFailed => "a consumed segment could not be removed"
  | depthReset => "all was read and the length was not zero"
  | cursorPassed => "the read cursor went past the write cursor"
  | healingIncomplete => "not all segments could be skipped"
  | segmentRemovalFailed => "a segment could not be removed"
  | recordRemovalFailed => "the record could not be removed"
  | temporaryLeft => "a temporary record could not be removed"
  | recordStored => "the record was stored"
  | loopStarted => "the loop started"
  | syncFailed => "a sync failed and will be tried again"
  | frameUnreadable => "a frame could not be read"
  | tailReset => "the end of the queue was put right"
  | cleared => "the queue was cleared"
  | loopStopped => "the loop stopped"
  | loopFailed => "the loop stopped with an error"
  | opening => "opening the queue"
  | stopping => "stopping the queue"
  | droppedOpen => "the queue was let go of and closed"
  | dropFailed => "the queue was let go of and could not be closed"
  | pushed => "messages were pushed"
  | popped => "messages were popped"

/-- The names of the details that go with a notice. -/
def fields (n : Notice) : List String :=
  "message" ::
    match n with
    | cursorsCrossed | cursorPassed | loopStarted => ["name", "read", "write"]
    | lengthDisagreed | depthReset => ["name", "length"]
    | quarantined | consumedRemoved => ["name", "path"]
    | quarantineFailed | consumedRemovalFailed | segmentRemovalFailed
    | recordRemovalFailed => ["name", "path", "error"]
    | rolled => ["name", "finished", "next"]
    | rollSyncFailed | healingIncomplete | syncFailed | dropFailed => ["name", "error"]
    | temporaryLeft => ["path", "error"]
    | recordStored => ["path", "length", "read", "write"]
    | frameUnreadable => ["name", "read", "error"]
    | tailReset | droppedOpen => ["name"]
    | cleared => ["name", "write"]
    | loopStopped => ["name", "mode", "read", "write"]
    | loopFailed => ["name", "mode", "error"]
    | opening => ["name", "path", "depth", "read", "write"]
    | stopping => ["name", "mode"]
    | pushed => ["name", "pushed"]
    | popped => ["name", "popped"]

end Notice

end DurableQueue
