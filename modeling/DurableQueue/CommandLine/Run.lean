import DurableQueue.CommandLine.Arguments
import DurableQueue.Logging.Filter
import DurableQueue.Queue
import DurableQueue.Segments

/-!
# Runs of the command line

A run opens the queue, carries out one command and closes the queue again, also when the
command failed: what the command did before it failed is kept. Of a command that fails and a
close that fails the command is reported.

Nothing is printed by a push that fails; all else is printed as it becomes known.
-/

namespace DurableQueue.CommandLine

open FileSystem (Disk FileError)
open Text

/-- What made a run fail. -/
inductive Failure where
  | opening (e : Error)
  /-- The message with this index, counted from zero, was not accepted. -/
  | pushing (index : Nat) (e : Error)
  /-- A line of the input is not text. -/
  | input
  | listing (e : Error)
  | measuring (path : String) (e : FileError)
  | clearing (e : Error)
  | deleting (e : Error)
  | closing (e : Error)
  deriving DecidableEq, Repr

/-- What a failure is reported as. -/
def Failure.message : Failure → String
  | opening _ => "failed to open queue"
  | pushing index _ => s!"failed to push message #{index}"
  | input => "failed to read stdin"
  | listing _ => "failed to list segment files"
  | measuring path _ => s!"failed to stat {path}"
  | clearing _ => "failed to clear queue"
  | deleting _ => "failed to delete queue"
  | closing _ => "failed to close queue"

/-- How a run ends. -/
inductive Ending where
  | done
  | failed (f : Failure)
  /-- The command line asked for nothing that can be done. -/
  | refused (r : Refusal)
  /-- The log could not be set up. -/
  | unlogged
  deriving DecidableEq, Repr

/-- The exit code of a run. -/
def Ending.exitCode : Ending → Nat
  | done => 0
  | failed _ => 1
  | refused .usage => 2
  | refused .help | refused .version => 0
  | unlogged => 101

/-- What is seen of a run. -/
structure Report where
  ending : Ending
  /-- What was printed. -/
  output : Bytes := []
  /-- The notices that the log kept, in their order. -/
  notices : List Notice := []
  /-- The directory in which log files were made. -/
  logDir : Option String := none
  format : Logging.Format := .standard

/-- The kept notices that are errors; they have a log file of their own. -/
def Report.grave (r : Report) : List Notice := r.notices.filter fun n => n.severity = .error

/-! ### Commands -/

/-- Whether a command takes messages from the input. -/
def Command.readsInput : Command → Bool
  | push messages => messages.isEmpty
  | _ => false

/-- What came of a command. -/
structure Acted where
  result : Except Failure Unit
  output : Bytes := []
  queue : Queue

/-- The queue after telling something. -/
def told (q : Queue) (n : Notice) : Queue :=
  { q with session := { q.session with log := q.session.log.tell n } }

/-- The messages in an input: its lines, as far as they are text. -/
def inputMessages (input : Bytes) : List (Option Bytes) :=
  (lines 0x0A 0x0D input).map fun line => (decode line).map fun _ => line

/-- Appends messages in turn, the first of them with the given index, and stops at the first
that fails. Answers how many there are. -/
def pushAll (q : Queue) : Nat → List (Option Bytes) → Except Failure Nat × Queue
  | index, [] => (.ok index, q)
  | _, none :: _ => (.error .input, q)
  | index, some message :: rest =>
    match q.push message with
    | (.ok (), q) => pushAll q (index + 1) rest
    | (.error e, q) => (.error (.pushing index e), q)

/-- One line about a segment: its number, its size and its path. -/
def segmentLine (number size : Nat) (path : String) : String :=
  "  " ++ String.ofList (Decimal.writePadded 6 number) ++ "  " ++
    String.ofList ((Decimal.write size).leftpad 12 ' ') ++ s!" bytes  {path}\n"

/-- Lines about segments, up to one that cannot be measured. -/
def segmentLines (d : Disk) : List (Nat × String) → Except Failure Unit × String
  | [] => (.ok (), "")
  | (number, path) :: rest =>
    match d.size path with
    | .error e => (.error (.measuring path e), "")
    | .ok size =>
      let (result, text) := segmentLines d rest
      (result, segmentLine number size path ++ text)

/-- What is said about a queue and its segments. -/
def statText (q : Queue) (segments : List (Nat × String)) : Except Failure Unit × String :=
  let (result, text) := segmentLines q.disk segments
  (result,
    s!"name:       {q.config.name}\n" ++ s!"data path:  {q.config.dataPath}\n" ++
      s!"depth:      {q.length}\n" ++ s!"segments:   {segments.length}\n" ++ text)

/-- Carries out a command on an open queue. -/
def Command.act (q : Queue) (input : Bytes) : Command → Acted
  | push messages =>
    let given :=
      if messages = [] then inputMessages input
      else messages.map fun message => some (encode message)
    match pushAll q 0 given with
    | (.error f, queue) => { result := .error f, queue }
    | (.ok count, q) =>
      { result := .ok (), output := encode s!"pushed {count}\n", queue := told q .pushed }
  | pop count _ =>
    let (messages, q) := q.popMany (count.getD q.capacity)
    { result := .ok ()
      output := messages.flatMap (· ++ encode "\n")
      queue := told q .popped }
  | len => { result := .ok (), output := encode s!"{q.length}\n", queue := q }
  | stat =>
    match Segments.scan q.disk q.config.dataPath q.config.name with
    | (.error e, disk) => { result := .error (.listing e), queue := q.onDisk disk }
    | (.ok segments, disk) =>
      let queue := q.onDisk disk
      let (result, text) := statText queue segments
      { result, output := encode text, queue }
  | clear =>
    match q.clear with
    | (.error e, queue) => { result := .error (.clearing e), queue }
    | (.ok (), queue) =>
      { result := .ok (), output := encode s!"cleared {q.config.name}\n", queue }
  | purge =>
    match q.delete with
    | (.error e, queue) => { result := .error (.deleting e), queue }
    | (.ok (), queue) =>
      { result := .ok (), output := encode s!"deleted {q.config.name}\n", queue }

/-! ### Runs -/

/-- Closes the queue after a command. A queue that the command has ended needs no close. -/
def Acted.close (a : Acted) : Except Failure Unit × Queue :=
  if a.queue.running then
    match a.queue.close with
    | (.ok (), q) => (.ok (), q)
    | (.error e, q) => (.error (.closing e), q)
  else (.ok (), a.queue)

/-- Opens the queue, carries out the command and closes the queue. -/
def Invocation.execute (i : Invocation) (disk : Disk) (input : Bytes) : Acted ⊕ (Error × Disk) :=
  match Queue.openOn disk i.config with
  | (.error e, disk) => .inr (e, disk)
  | (.ok q, _) =>
    let acted := i.command.act q input
    let (closed, queue) := acted.close
    .inl { acted with
      result := acted.result >>= fun _ => closed
      queue }

/-- Sets up the log of a run: makes its directory and reads its filter. -/
def setUpLog (s : Logging.Settings) (disk : Disk) :
    (Option Logging.Filter × Option String) × Disk :=
  if s.dir = "" then ((Logging.Filter.ofSettings s, none), disk)
  else
    match disk.makeDirectories s.dir with
    | (.error _, disk) => ((none, none), disk)
    | (.ok (), disk) => ((Logging.Filter.ofSettings s, some s.dir), disk)

/-- A run of the program: its words, its environment and its input. -/
def run (disk : Disk) (home : String) (environment : Environment) (words : List String)
    (input : Bytes) : Report × Disk :=
  match Invocation.parse home environment words with
  | .error r => ({ ending := .refused r }, disk)
  | .ok i =>
    match setUpLog i.log disk with
    | ((none, logDir), disk) => ({ ending := .unlogged, logDir }, disk)
    | ((some filter, logDir), disk) =>
      let format := i.log.format
      match i.execute disk input with
      | .inr (e, disk) => ({ ending := .failed (.opening e), logDir, format }, disk)
      | .inl acted =>
        let ending := match acted.result with
          | .ok () => .done
          | .error f => .failed f
        let notices := acted.queue.session.log.journal.reverse.filter filter.keeps
        ({ ending, output := acted.output, notices, logDir, format }, acted.queue.disk)

end DurableQueue.CommandLine
