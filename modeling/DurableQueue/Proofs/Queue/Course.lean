import DurableQueue.Proofs.FileSystem.Footprint
import DurableQueue.Proofs.Queue.Opening

/-!
# The course of a queue

What can happen to a queue, one event after the other: pushes, deliveries, clears, ticks, and being
closed and opened again. `Course` is what an observer of those events writes down, namely where the
segments started, what was accepted since, and how much of it was delivered. A queue that waits in
one stage of its course waits in the next one after every event (`Steps`), and each moment of
the event leaves files from which the next process could take it up.
-/

namespace DurableQueue

open FileSystem

theorem FileSystem.Disk.Reaches.since {c : Config} {dir : Location} {P : View → Prop}
    {before d : Disk} {shelf : Shelf} (reached : Disk.Reaches c dir P before d shelf)
    (shown : Disk.Shows before.tree c dir P) : ∀ t ∈ d.since before, Disk.Shows t c dir P := by
  obtain ⟨recent, split, later⟩ := reached.history
  intro t ht
  rcases List.mem_cons.1 ht with rfl | ht
  · exact shown
  · rw [split, List.length_append, Nat.add_sub_cancel, List.take_left] at ht
    obtain ⟨a, ha, rfl⟩ := List.mem_map.1 ht
    exact later a ha

namespace Queue

/-- What can happen to a queue. -/
inductive Event where
  | push (message : Bytes)
  /-- A receiver takes the message on offer. -/
  | pop
  | clear
  | tick
  /-- The queue is closed and opened again with its settings. -/
  | reopen
  deriving DecidableEq, Repr

/-- What an event is answered with. -/
inductive Answer where
  | pushed (result : Except Error Unit)
  | popped (taken : Taken)
  | cleared (result : Except Error Unit)
  | ticked
  | reopened (result : Except Error Unit)

/-- Closes a queue and opens it again where it lies. -/
def reopen (q : Queue) : Except Error Unit × Queue :=
  match q.close with
  | (.error e, q) => (.error e, q)
  | (.ok (), q) =>
    match openOn q.disk q.config with
    | (.error e, disk) => (.error e, q.onDisk disk)
    | (.ok q, _) => (.ok (), q)

/-- One event and its answer. -/
def step (q : Queue) : Event → Answer × Queue
  | .push message =>
    let (result, q) := q.push message
    (.pushed result, q)
  | .pop =>
    let (taken, q) := q.pop
    (.popped taken, q)
  | .clear =>
    let (result, q) := q.clear
    (.cleared result, q)
  | .tick => (.ticked, q.tick)
  | .reopen =>
    let (result, q) := q.reopen
    (.reopened result, q)

/-- Events in turn, with the answers in their order. -/
def run (q : Queue) : List Event → List Answer × Queue
  | [] => ([], q)
  | e :: events =>
    let (answer, q) := q.step e
    let (answers, q) := run q events
    (answer :: answers, q)

/-- The counters have room for what an event makes of them. -/
def RoomFor (q : Queue) : Event → Prop
  | .push _ => q.session.log.HasRoom
  | .clear => q.session.log.write.file + 1 < Word.limit
  | .pop | .tick | .reopen => True

/-- No counter runs over in a run. -/
def RoomThroughout (q : Queue) : List Event → Prop
  | [] => True
  | e :: events => q.RoomFor e ∧ RoomThroughout (q.step e).2 events

/-- Where the moments of an event begin at which the process may die. A clear counts from the
moment at which everything is deleted. -/
def cutFrom (q : Queue) : Event → Disk
  | .clear => q.session.log.deleteAll.2.disk
  | .push _ | .pop | .tick | .reopen => q.disk

/-- What happened to a queue since its segments last started afresh. -/
structure Course where
  start : Position := {}
  accepted : List Bytes := []
  delivered : Nat := 0
  deriving DecidableEq, Repr

namespace Course

/-- What is accepted and not delivered. -/
def waiting (k : Course) : List Bytes := k.accepted.drop k.delivered

/-- Where the next message goes. -/
def write (k : Course) (c : Config) : Position := k.start.ends c.maxBytesPerFile k.accepted

/-- What an event adds. -/
def step (k : Course) (c : Config) : Event → Course
  | .push m => if c.Admits m then { k with accepted := k.accepted ++ [m] } else k
  | .pop =>
    match k.waiting with
    | [] => k
    | _ :: _ => { k with delivered := k.delivered + 1 }
  | .clear => { start := (k.write c).nextFile }
  | .tick | .reopen => k

end Course

variable {c : Config} {d : Disk} {dir : Location} {q : Queue} {k : Course} {e : Event}

/-- What a queue that has come to a stage of its course shows whenever it is looked at. -/
def Shown (c : Config) (dir : Location) (k : Course) (t : Tree) : Prop :=
  Disk.Shows t c dir (Recoverable c k.start k.accepted k.delivered)

/-- A queue that waits in a stage of its course. -/
def Waits (q : Queue) (c : Config) (dir : Location) (k : Course) : Prop :=
  q.Holds c dir k.start k.accepted k.delivered

/-- A session that serves is one that waits, and all that was on the disk meanwhile is good. -/
theorem waits_of_serving {s : Session}
    (serving : Session.Serving c d s dir k.start k.accepted k.delivered) (now : Shown c dir k d.tree) :
    Waits { session := s } c dir k ∧ ∀ t ∈ s.log.disk.since d, Shown c dir k t := by
  obtain ⟨config, shelf, holds, reached⟩ := serving
  exact ⟨⟨rfl, config, shelf, holds⟩, reached.since now⟩

/-- What a waiting queue shows while nothing happens. -/
theorem Waits.shown (h : q.Waits c dir k) : Shown c dir k q.disk.tree := by
  obtain ⟨-, rfl, shelf, holds⟩ := h
  have serves := holds.keeps.reads.serves
  refine ⟨serves.hosts, ?_⟩
  rw [disk, serves.shelf_eq]
  exact holds.keeps.recoverable

theorem Waits.write_eq (h : q.Waits c dir k) : q.session.log.write = k.write c := by
  obtain ⟨-, rfl, shelf, holds⟩ := h
  exact holds.keeps.write_eq

/-- An event has taken a queue to a later stage of its course. -/
structure Steps (q : Queue) (e : Event) (answer : Answer) (c : Config) (dir : Location)
    (k : Course) : Prop where
  answer_eq : (q.step e).1 = answer
  waits : (q.step e).2.Waits c dir k
  shown : ∀ t ∈ (q.step e).2.disk.since (q.cutFrom e), Shown c dir k t

theorem Waits.push (h : q.Waits c dir k) (sound : c.Sound) {m : Bytes} (admitted : c.Admits m)
    (room : q.session.log.HasRoom) :
    Steps q (.push m) (.pushed (.ok ())) c dir { k with accepted := k.accepted ++ [m] } := by
  have now : Shown c dir { k with accepted := k.accepted ++ [m] } q.disk.tree :=
    ⟨h.shown.1, h.shown.2.snoc⟩
  obtain ⟨running, rfl, shelf, holds⟩ := h
  obtain ⟨ok, serving⟩ := Session.push_serving holds sound room admitted
  obtain ⟨waits, shown⟩ := waits_of_serving
    (k := { k with accepted := k.accepted ++ [m] }) serving now
  have step : q.step (.push m) = (.pushed (.ok ()), { session := (q.session.push m).2 }) := by
    rw [← ok]
    simp only [Queue.step, Queue.push, running, if_true]
  exact ⟨by rw [step], by rw [step]; exact waits, by rw [step]; exact shown⟩

theorem Waits.push_refused (h : q.Waits c dir k) (sound : c.Sound) {m : Bytes}
    (refused : ¬c.Admits m) :
    Steps q (.push m)
      (.pushed (.error (.invalidMessageSize m.length c.minMsgSize c.maxMsgSize))) c dir k := by
  have now := h.shown
  obtain ⟨running, rfl, shelf, holds⟩ := h
  obtain ⟨error, serving⟩ := Session.push_refused holds sound refused
  obtain ⟨waits, shown⟩ := waits_of_serving serving now
  have step : q.step (.push m) = (.pushed (.error (.invalidMessageSize m.length
      q.session.log.config.minMsgSize q.session.log.config.maxMsgSize)),
      { session := (q.session.push m).2 }) := by
    rw [← error]
    simp only [Queue.step, Queue.push, running, if_true]
  exact ⟨by rw [step], by rw [step]; exact waits, by rw [step]; exact shown⟩

theorem Waits.pop (h : q.Waits c dir k) (sound : c.Sound) {m : Bytes} {ms : List Bytes}
    (some : k.waiting = m :: ms) :
    Steps q .pop (.popped (.message m)) c dir { k with delivered := k.delivered + 1 } := by
  have now : Shown c dir { k with delivered := k.delivered + 1 } q.disk.tree := by
    refine ⟨h.shown.1, ?_⟩
    intro bs there
    obtain ⟨r, i, j, n, eq, words, behind, leads⟩ := h.shown.2 bs there
    exact ⟨r, i, j, n, eq, words, Nat.le_succ_of_le behind, leads⟩
  obtain ⟨running, rfl, shelf, holds⟩ := h
  obtain ⟨s, delivered, -, serving⟩ := Session.deliver_serving holds sound some
  obtain ⟨waits, shown⟩ := waits_of_serving
    (k := { k with delivered := k.delivered + 1 }) serving now
  have step : q.step .pop = (.popped (.message m), { session := s }) := by
    simp only [Queue.step, Queue.pop, running, if_true, delivered]
  exact ⟨by rw [step], by rw [step]; exact waits, by rw [step]; exact shown⟩

theorem Waits.pop_empty (h : q.Waits c dir k) (empty : k.waiting = []) :
    Steps q .pop (.popped .empty) c dir k := by
  have now := h.shown
  obtain ⟨running, config, shelf, holds⟩ := h
  have nothing := Session.deliver_none holds empty
  have step : q.step .pop = (.popped .empty, q) := by
    simp only [Queue.step, Queue.pop, running, if_true, nothing]
  refine ⟨by rw [step], by rw [step]; exact ⟨running, config, shelf, holds⟩, ?_⟩
  intro t ht
  have only : q.disk.since q.disk = [q.disk.tree] := by
    rw [Disk.since, Nat.sub_self, List.take_zero, List.map_nil]
  rw [step, cutFrom, only] at ht
  rw [List.mem_singleton.1 ht]
  exact now

theorem Waits.clear (h : q.Waits c dir k) (sound : c.Sound)
    (room : q.session.log.write.file + 1 < Word.limit) :
    Steps q .clear (.cleared (.ok ())) c dir { start := (k.write c).nextFile } := by
  have write := h.write_eq
  obtain ⟨running, rfl, shelf, holds⟩ := h
  obtain ⟨ok, shelf', log', deleted, serves, recoverable, serving⟩ :=
    Session.clear_serving holds sound room
  rw [write] at recoverable serving
  have now : Shown q.session.log.config dir { start := (k.write q.session.log.config).nextFile }
      log'.disk.tree := by
    refine ⟨serves.hosts, ?_⟩
    rw [serves.shelf_eq]
    exact recoverable
  obtain ⟨waits, shown⟩ := waits_of_serving
    (k := { start := (k.write q.session.log.config).nextFile }) serving now
  have step : q.step .clear = (.cleared (.ok ()), { session := q.session.clear.2 }) := by
    rw [← ok]
    simp only [Queue.step, Queue.clear, running, if_true]
  refine ⟨by rw [step], by rw [step]; exact waits, ?_⟩
  rw [step, cutFrom, deleted]
  exact shown

theorem Waits.tick (h : q.Waits c dir k) (sound : c.Sound) : Steps q .tick .ticked c dir k := by
  have now := h.shown
  obtain ⟨running, rfl, shelf, holds⟩ := h
  obtain ⟨waits, shown⟩ := waits_of_serving (Session.tick_serving holds sound) now
  have step : q.step .tick = (.ticked, { session := q.session.tick }) := by
    simp only [Queue.step, Queue.tick, running, if_true]
  exact ⟨by rw [step], by rw [step]; exact waits, by rw [step]; exact shown⟩

/-- A queue that waits can be closed. Its record is stored then, and its segments stay. -/
theorem Waits.closing (h : q.Waits c dir k) (sound : c.Sound) :
    ∃ left staged shelf shelf', q.close = (.ok (), left) ∧ left.config = c ∧
      q.session.log.Keeps dir shelf staged k.start k.accepted k.delivered ∧
      Session.Flushed q.session.log shelf shelf' ∧
      (View.of shelf').record = some (Text.encode q.session.log.record.text) ∧
      Disk.Reaches c dir (Recoverable c k.start k.accepted k.delivered) q.disk left.disk shelf' := by
  obtain ⟨running, rfl, shelf, holds⟩ := h
  obtain ⟨s, s_eq⟩ : ∃ s : Session, s = { q.session with log := q.session.log.tell .stopping } :=
    ⟨_, rfl⟩
  have config : s.log.config = q.session.log.config := by rw [s_eq]; rfl
  have record : s.log.record = q.session.log.record := by rw [s_eq]; rfl
  have disk : s.log.disk = q.disk := by rw [s_eq]; rfl
  have told : s.Holds dir shelf k.start k.accepted k.delivered := by
    rw [s_eq]
    exact ⟨Session.keeps_told holds.keeps ⟨q.session.log.needSync, _, rfl⟩, holds.offer⟩
  obtain ⟨shelf', ok, config', done, stored, reached⟩ := Session.close_spec told (config ▸ sound)
  have closed : q.close = (.ok (), { session := (s.finish .close).2, running := false }) := by
    rw [← ok, s_eq]
    simp only [Queue.close, exit, running, if_true]
  rw [config, disk] at reached
  exact ⟨_, q.session.staged, shelf, shelf', closed, config'.trans config, holds.keeps,
    ⟨done.alike, done.tidy, record ▸ done.record⟩, record ▸ stored, reached⟩

theorem Waits.reopen (h : q.Waits c dir k) (sound : c.Sound) :
    Steps q .reopen (.reopened (.ok ())) c dir k := by
  obtain ⟨left, staged, shelf, shelf', closed, config, keeps, done, stored, closing⟩ := h.closing sound
  have same : q.session.log.config = c := h.config
  obtain ⟨q', opened⟩ := openOn_closed keeps (same ▸ sound) done stored (same ▸ closing.toServes)
  rw [same] at opened
  have step : q.step .reopen = (.reopened (.ok ()), q') := by
    have result := opened.result_eq
    rw [← config] at result
    simp only [Queue.step, Queue.reopen, closed, result]
  obtain ⟨shelf'', opening⟩ := opened.shown
  refine ⟨by rw [step], by rw [step]; exact opened.toHolds, ?_⟩
  rw [step]
  exact (closing.trans opening).since h.shown

end Queue

end DurableQueue
