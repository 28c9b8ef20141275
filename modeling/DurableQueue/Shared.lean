import DurableQueue.Queue

/-!
# Queues shared by many clients

Any number of clients may use one queue at once. A client that pushes holds a guard together
with other clients that push; one that clears the queue or ends it holds a guard alone. Each
call goes through the same steps: it takes its guard, and is refused there if the queue has
been ended; it sends its request to the loop that owns the log; it waits for the answer; it
gives the guard back and returns. Consumers meet the loop one at a time for the message on
offer.

`Shared` is the state of all of them together, and `Shared.step` says which moves it allows:
every way in which the clients, the consumers and the loop may take turns is a list of moves.
`Shared.settle` is one such way, in which everybody moves as soon as possible.
-/

namespace DurableQueue

/-- What a client asks of a queue. -/
inductive Request where
  | push (message : Bytes)
  | clear
  | exit (mode : ExitMode)
  deriving DecidableEq, Repr

namespace Request

/-- Whether a call holds its guard alone. -/
def isExclusive : Request → Bool
  | push _ => false
  | clear | exit _ => true

end Request

/-- Where a client stands in its call. -/
inductive Phase where
  /-- Between two calls. -/
  | idle
  /-- Holds its guard and has not sent its request. -/
  | guarded (call : Request)
  /-- Has sent its request and waits for the answer. -/
  | waiting (call : Request)
  /-- Has its answer and still holds its guard. -/
  | answered (call : Request) (result : Except Error Unit)

/-- A client: the calls that it has yet to make, and those that returned, the latest first. -/
structure Client where
  calls : List Request
  phase : Phase := .idle
  returned : List (Request × Except Error Unit) := []

namespace Client

/-- The call during which a client holds a guard. -/
def guarding (c : Client) : Option Request :=
  match c.phase with
  | .idle => none
  | .guarded call | .waiting call | .answered call _ => some call

end Client

/-- A queue, its clients and consumers, and the requests on their way to its loop. -/
structure Shared where
  session : Session
  /-- Whether no call has ended the queue yet. -/
  running : Bool := true
  /-- How the loop ended, once it has. -/
  ended : Option (Except Error Unit) := none
  clients : Array Client
  /-- For each consumer the number of messages that it has yet to take. -/
  consumers : Array Nat
  /-- Pushes on their way, the first to be served first, each with the client that sent it. -/
  pushes : List (Nat × Bytes) := []
  clears : List Nat := []
  exits : List (Nat × ExitMode) := []
  /-- The messages that were appended, the latest first, each with the client that sent it. -/
  appended : List (Nat × Bytes) := []
  /-- The messages that were taken, the latest first, each with the consumer that took it. -/
  delivered : List (Nat × Bytes) := []

namespace Shared

/-- A move: of a client, of a consumer, or of the loop. -/
inductive Move where
  /-- A client begins its next call and takes its guard. -/
  | begin (client : Nat)
  /-- A client that holds its guard sends its request. -/
  | send (client : Nat)
  /-- A client that has its answer returns from its call. -/
  | finish (client : Nat)
  /-- The loop serves the first push on its way. -/
  | servePush
  | serveClear
  | serveExit
  /-- A consumer meets the loop for the message on offer. -/
  | deliver (consumer : Nat)
  | tick
  deriving DecidableEq, Repr

/-- The calls during which guards are held. -/
def guards (s : Shared) : List Request := s.clients.toList.filterMap Client.guarding

/-- Whether a call may take its guard. -/
def mayGuard (s : Shared) (call : Request) : Bool :=
  if call.isExclusive then s.guards.isEmpty else s.guards.all fun held => !held.isExclusive

/-- The state after a client changed. -/
def setClient (s : Shared) (i : Nat) (c : Client) : Shared :=
  { s with clients := s.clients.setIfInBounds i c }

/-- The state after a client got its answer. -/
def answer (s : Shared) (i : Nat) (result : Except Error Unit) : Shared :=
  { s with
    clients := s.clients.modify i fun c =>
      match c.phase with
      | .waiting call => { c with phase := .answered call result }
      | _ => c }

/-- The state after a move, if the move is allowed. -/
def step (s : Shared) : Move → Option Shared
  | .begin i => do
    let c ← s.clients[i]?
    match c.phase, c.calls with
    | .idle, call :: calls =>
      if s.mayGuard call then
        let exited : Except Error Unit := .error (.exited s.session.log.config.name)
        some <|
          if s.running then
            let s := s.setClient i { c with calls, phase := .guarded call }
            match call with
            | .exit _ => { s with running := false }
            | _ => s
          else s.setClient i { c with calls, returned := (call, exited) :: c.returned }
      else none
    | _, _ => none
  | .send i => do
    let c ← s.clients[i]?
    match c.phase with
    | .guarded call =>
      let s := s.setClient i { c with phase := .waiting call }
      some <|
        match call with
        | .push message => { s with pushes := s.pushes ++ [(i, message)] }
        | .clear => { s with clears := s.clears ++ [i] }
        | .exit mode => { s with exits := s.exits ++ [(i, mode)] }
    | _ => none
  | .finish i => do
    let c ← s.clients[i]?
    match c.phase with
    | .answered call result =>
      some (s.setClient i { c with phase := .idle, returned := (call, result) :: c.returned })
    | _ => none
  | .servePush =>
    match s.ended, s.pushes with
    | none, (i, message) :: pushes =>
      let (result, session) := s.session.push message
      let appended := match result with
        | .ok () => (i, message) :: s.appended
        | .error _ => s.appended
      some ({ s with session, pushes, appended }.answer i result)
    | _, _ => none
  | .serveClear =>
    match s.ended, s.clears with
    | none, i :: clears =>
      let (result, session) := s.session.clear
      some ({ s with session, clears }.answer i result)
    | _, _ => none
  | .serveExit =>
    match s.ended, s.exits with
    | none, (i, mode) :: exits =>
      let (result, session) := s.session.finish mode
      some ({ s with session, exits, ended := some result }.answer i result)
    | _, _ => none
  | .deliver j => do
    let wants ← s.consumers[j]?
    match s.ended, wants, s.session.deliver with
    | none, wants + 1, some (message, session) =>
      let consumers := s.consumers.setIfInBounds j wants
      some { s with session, consumers, delivered := (j, message) :: s.delivered }
    | _, _, _ => none
  | .tick => if s.ended.isNone then some { s with session := s.session.tick } else none

/-- Makes moves in turn, as long as they are allowed. -/
def run (s : Shared) : List Move → Option Shared
  | [] => some s
  | move :: moves => do run (← s.step move) moves

/-- All moves of clients, consumers and the loop, without ticks. -/
def moves (s : Shared) : List Move :=
  [.servePush, .serveClear, .serveExit] ++ (List.range s.consumers.size).map .deliver ++
    (List.range s.clients.size).flatMap fun i => [.finish i, .send i, .begin i]

/-- Makes every move once, those that are not allowed left out. -/
def round (s : Shared) : Shared := s.moves.foldl (fun s move => (s.step move).getD s) s

/-- The number of steps that are still to be made: four for each call and one for each message
to be taken. -/
def work (s : Shared) : Nat :=
  s.clients.foldl (fun n c => n + 4 * (c.calls.length + 1)) 0 +
    s.consumers.foldl (fun n wants => n + wants) 0

/-- The state without the calls made so far. -/
def forget (s : Shared) : Shared :=
  { s with session.log.disk := s.session.log.disk.forget }

/-- Makes moves as long as there is work, and does not keep the calls made on the way. -/
def settle (s : Shared) : Shared := s.work.repeat (fun s => s.round.forget) s

end Shared

end DurableQueue
