import DurableQueue.Proofs.Log.Salvage
import DurableQueue.Proofs.Queue.Fifo
import DurableQueue.Proofs.Session.Passing
import DurableQueue.Proofs.Session.Steady

/-!
# Damage stays where it is

Some segments of a closed queue are replaced by anything or removed. The next session delivers the
messages of all other segments and those that are pushed, each once and in their order, and what a
damaged segment still yields comes between the messages of its neighbours. Each damaged segment is
counted and set aside at most once, and no other segment is (`damage_stays`).
-/

namespace DurableQueue

open FileSystem

namespace Queue

/-- What a queue that was closed leaves: its record, the frames of the messages `ms` from the record's
read cursor to its write cursor, and nothing after them. -/
structure Closed (c : Config) (v : View) (r : Record) (ms : List Bytes) : Prop where
  record : v.record = some (Text.encode r.text)
  words : r.InWords
  trail : Trail c v.segments r.read ms r.write
  ends : Ends v.segments r.write

/-- Some of the segments from the read cursor's to the one before the write cursor's hold anything or
are gone. -/
structure Damaged (damaged : List Nat) (r : Record) (v v' : View) : Prop where
  between : ∀ k ∈ damaged, r.read.file ≤ k ∧ k < r.write.file
  record : v'.record = v.record
  others : ∀ k, k ∉ damaged → v'.segments k = v.segments k

variable {c : Config} {d : Disk} {dir : Location} {q : Queue} {k : Course} {e : Event}
  {events : List Event} {shelf : Shelf} {v : View} {r : Record} {m : Bytes} {ms : List Bytes}
  {aside : Nat → Option Bytes} {broken damaged : List Nat}

/-! ### Closing -/

/-- A queue that waits is closed with the messages that it has. -/
theorem Waits.close (h : q.Waits c dir k) (sound : c.Sound) :
    ∃ left shelf, q.close = (.ok (), left) ∧ left.disk.Serves c dir shelf ∧
      Closed c (.of shelf) q.session.log.record k.waiting := by
  obtain ⟨left, staged, shelf, shelf', closed, -, keeps, done, stored, closing⟩ := h.closing sound
  have same : q.session.log.config = c := h.config
  have trail := keeps.reads.trail
  rw [same, ← done.alike.segments] at trail
  refine ⟨left, shelf', closed, closing.toServes, stored, keeps.record_words, trail, ?_⟩
  rw [done.alike.segments]
  exact keeps.ends

/-- A run leads a waiting queue to one that waits with the messages of the list. -/
theorem Waits.after (h : q.Waits c dir k) (sound : c.Sound) (room : q.RoomThroughout events) :
    ∃ k', (q.run events).2.Waits c dir k' ∧ k'.waiting = (listRun c k.waiting events).2 := by
  induction events generalizing q k with
  | nil => exact ⟨k, h, rfl⟩
  | cons e events ih =>
    obtain ⟨first, rest⟩ := room
    obtain ⟨k', waits, same⟩ := ih (h.step sound first).waits rest
    rw [Course.waiting_step h.within] at same
    exact ⟨k', waits, same⟩

/-- Every run from an empty directory can be closed, with the waiting messages of the list. -/
theorem closes (fresh : d.Fresh c dir) (sound : c.Sound) (opened : openOn d c = (.ok q, q.disk))
    (room : q.RoomThroughout events) :
    ∃ left shelf, (q.run events).2.close = (.ok (), left) ∧ left.disk.Serves c dir shelf ∧
      Closed c (.of shelf) (q.run events).2.session.log.record (listRun c [] events).2 := by
  obtain ⟨q', opened', waits⟩ := Waits.of_opened fresh sound
  have same : q' = q := by
    rw [opened'] at opened
    exact Except.ok.inj (Prod.mk.inj opened).1
  obtain ⟨k, waits', list⟩ := (same ▸ waits).after sound room
  have whole := waits'.close sound
  rw [list] at whole
  exact whole

/-! ### Opening -/

/-- A queue whose session is under way. -/
def Underway (q : Queue) (c : Config) (dir : Location) (aside : Nat → Option Bytes)
    (broken : List Nat) (ms : List Bytes) : Prop :=
  q.running = true ∧ ∃ k, q.session.Sketched c dir k ∧ k.Underway c aside broken ms

/-- The first unread message lies where a segment can be opened. -/
theorem Closed.low (h : Closed c v r ms) (unread : r.read < r.write) :
    r.read.offset < Word.signedLimit := by
  have trail := h.trail
  cases ms with
  | nil => exact absurd rfl (trail.lt_iff.1 unread)
  | cons m ms =>
    cases trail with
    | cons fits admitted there frame rest => exact fits.2

/-- A queue that is opened on damaged segments gets under way. -/
theorem Closed.opens (h : Closed c v r ms) (sound : c.Sound)
    (damage : Damaged damaged r v (.of shelf)) (serves : d.Serves c dir shelf) :
    ∃ q found broken, openOn d c = (.ok q, q.disk) ∧ broken.Nodup ∧ (∀ k ∈ broken, k ∈ damaged) ∧
      q.Underway c dir (fun k => (shelf (.quarantined k)).map (·.2.contents)) broken
        (salvage c.maxBytesPerFile r.read r.write ms damaged found) := by
  obtain ⟨found, broken, passage, only⟩ :=
    h.trail.salvage (fun k hk => (damage.between k hk).2) damage.others
  obtain ⟨d', reached, opened⟩ := openOn_spec (P := fun _ => True) serves sound trivial
    (Or.inr ⟨damage.record.trans h.record, h.words⟩)
  have sketched :=
    Session.sketched_takingUp reached.toServes.calm sound.named r c.syncEvery c.syncTimeout
  have ends : Ends (View.of shelf).segments r.write := by
    refine h.ends.congr fun j high => damage.others j fun hit => ?_
    exact Nat.not_lt.2 high (damage.between j hit).2
  exact ⟨_, found, broken, opened, passage.sorted.1.imp Nat.ne_of_lt, only, rfl, _, sketched,
    Sketch.underway_start sound passage ends h.words.write.1 h.low⟩

/-! ### Running -/

namespace Underway

variable (h : q.Underway c dir aside broken ms) (sound : c.Sound)
include h sound

theorem push (room : q.session.log.HasRoom) (m : Bytes) :
    (q.step (.push m)).1 = (listStep c ms (.push m)).1 ∧
      (q.step (.push m)).2.Underway c dir aside broken (listStep c ms (.push m)).2 := by
  obtain ⟨running, k, sketched, underway⟩ := h
  have write : k.log.write = q.session.log.write := by
    obtain ⟨shelf, -, rfl⟩ := sketched
    rfl
  obtain ⟨answer, stepped⟩ :=
    sketched.step (e := .push m) sound.named underway.blocked fun _ _ => room.offset
  have pushed : q.step (.push m) =
      (.pushed (q.session.push m).1, { session := (q.session.push m).2 }) := by
    simp only [Queue.step, Queue.push, running, if_true]
  rw [pushed]
  by_cases admitted : c.Admits m
  · obtain ⟨told, later⟩ :=
      underway.push sound admitted (write ▸ room.file) (write ▸ room.offset)
    have ok : (q.session.push m).1 = .ok () := Session.Answer.pushed.inj (answer.trans told)
    simp only [listStep, if_pos admitted, ok]
    exact ⟨trivial, rfl, _, stepped, later⟩
  · obtain ⟨told, later⟩ := underway.push_refused sound admitted
    have error := Session.Answer.pushed.inj (answer.trans told)
    have result : (q.session.push m).1 =
        .error (.invalidMessageSize m.length c.minMsgSize c.maxMsgSize) := error
    simp only [listStep, if_neg admitted, result]
    exact ⟨trivial, rfl, _, stepped, later⟩

theorem pop : (q.step .pop).1 = (listStep c ms .pop).1 ∧
    (q.step .pop).2.Underway c dir aside broken (listStep c ms .pop).2 := by
  obtain ⟨running, k, sketched, underway⟩ := h
  obtain ⟨answer, stepped⟩ := sketched.step (e := .deliver) sound.named underway.blocked (by simp)
  obtain ⟨told, later⟩ := underway.deliver sound
  have head : (q.session.step .deliver).1 = .delivered ms.head? := answer.trans told
  cases delivered : q.session.deliver with
  | none =>
    have served : q.session.step .deliver = (.delivered none, q.session) := by
      rw [Session.step, delivered]
    have popped : q.step .pop = (.popped .empty, q) := by
      simp only [Queue.step, Queue.pop, running, if_true, delivered]
    rw [served] at head stepped
    have none : ms = [] := List.head?_eq_none_iff.1 (Session.Answer.delivered.inj head).symm
    rw [popped, none]
    rw [none] at later
    exact ⟨rfl, running, _, stepped, later⟩
  | some out =>
    obtain ⟨m, s⟩ := out
    have served : q.session.step .deliver = (.delivered (some m), s) := by
      rw [Session.step, delivered]
    have popped : q.step .pop = (.popped (.message m), { session := s }) := by
      simp only [Queue.step, Queue.pop, running, if_true, delivered]
    rw [served] at head stepped
    obtain ⟨rest, rfl⟩ := List.head?_eq_some_iff.1 (Session.Answer.delivered.inj head).symm
    rw [popped]
    exact ⟨rfl, rfl, _, stepped, later⟩

theorem tick : (q.step .tick).1 = (listStep c ms .tick).1 ∧
    (q.step .tick).2.Underway c dir aside broken (listStep c ms .tick).2 := by
  obtain ⟨running, k, sketched, underway⟩ := h
  obtain ⟨-, stepped⟩ := sketched.step (e := .tick) sound.named underway.blocked (by simp)
  have ticked : q.step .tick = (.ticked, { session := q.session.tick }) := by
    simp only [Queue.step, Queue.tick, running, if_true]
  rw [ticked]
  exact ⟨rfl, rfl, _, stepped, underway⟩

end Underway

/-- What a session delivers, counts and sets aside: it is the list of `ms`, and of `broken` it counts
and sets aside each segment once, when the read cursor has left it, and no other. -/
structure Isolates (q : Queue) (events : List Event) (c : Config) (dir : Location) (shelf : Shelf)
    (ms : List Bytes) (broken : List Nat) : Prop where
  answers : (q.run events).1 = (listRun c ms events).1
  counted : (q.run events).2.session.corruptions =
    (broken.filter (· < (q.run events).2.session.log.read.file)).length
  kept : ∀ k, k ∉ broken →
    ((q.run events).2.disk.tree.shelf c dir (.quarantined k)).map (·.2.contents) =
      (shelf (.quarantined k)).map (·.2.contents)

theorem Underway.step (h : q.Underway c dir aside broken ms) (sound : c.Sound)
    (served : e ≠ .clear ∧ e ≠ .reopen) (room : q.RoomFor e) :
    (q.step e).1 = (listStep c ms e).1 ∧
      (q.step e).2.Underway c dir aside broken (listStep c ms e).2 := by
  cases e with
  | push m => exact h.push sound room m
  | pop => exact h.pop sound
  | tick => exact h.tick sound
  | clear => exact absurd rfl served.1
  | reopen => exact absurd rfl served.2

theorem Underway.run (h : q.Underway c dir aside broken ms) (sound : c.Sound)
    (served : ∀ e ∈ events, e ≠ .clear ∧ e ≠ .reopen) (room : q.RoomThroughout events) :
    (q.run events).1 = (listRun c ms events).1 ∧
      (q.run events).2.Underway c dir aside broken (listRun c ms events).2 := by
  induction events generalizing q ms with
  | nil => exact ⟨rfl, h⟩
  | cons e events ih =>
    obtain ⟨answer, stepped⟩ := h.step sound (served e List.mem_cons_self) room.1
    obtain ⟨answers, done⟩ := ih stepped (fun e he => served e (List.mem_cons_of_mem _ he)) room.2
    exact ⟨congr (congrArg List.cons answer) answers, done⟩

/-- **A session that is under way isolates what it cannot read.** -/
theorem Underway.isolates
    (h : q.Underway c dir (fun k => (shelf (.quarantined k)).map (·.2.contents)) broken ms)
    (sound : c.Sound) (served : ∀ e ∈ events, e ≠ .clear ∧ e ≠ .reopen)
    (room : q.RoomThroughout events) : q.Isolates events c dir shelf ms broken := by
  obtain ⟨answers, -, k, ⟨shelf', steady, rfl⟩, underway⟩ := h.run sound served room
  obtain ⟨counted, kept⟩ := underway.counted
  refine ⟨answers, counted, fun k whole => ?_⟩
  rw [Queue.disk, steady.calm.shelf_eq]
  exact kept k whole

/-- **Damage stays where it is.** Every run from an empty directory can be closed, and leaves a queue as
`Closed` says, whose waiting messages are those of the list. If any of the segments of a closed queue
from the read cursor's to the one before the write cursor's then hold other bytes or are gone, the
queue opens, and whatever is pushed and delivered, it is the list of what is salvaged: the messages of
all segments that are not damaged, in their places, and what is found in those that are. Each of
these is counted and set aside at most once, and no other segment is. -/
theorem damage_stays (sound : c.Sound) :
    (∀ (d : Disk) (q : Queue) (events : List Event), d.Fresh c dir → openOn d c = (.ok q, q.disk) →
      q.RoomThroughout events → ∃ left shelf, (q.run events).2.close = (.ok (), left) ∧
        left.disk.Serves c dir shelf ∧
        Closed c (.of shelf) (q.run events).2.session.log.record (listRun c [] events).2) ∧
    ∀ (v : View) (r : Record) (ms : List Bytes) (damaged : List Nat) (d : Disk) (shelf : Shelf),
      Closed c v r ms → Damaged damaged r v (.of shelf) → d.Serves c dir shelf →
        ∃ q found broken, openOn d c = (.ok q, q.disk) ∧ broken.Nodup ∧
          (∀ k ∈ broken, k ∈ damaged) ∧
          ∀ events, (∀ e ∈ events, e ≠ .clear ∧ e ≠ .reopen) → q.RoomThroughout events →
            q.Isolates events c dir shelf
              (salvage c.maxBytesPerFile r.read r.write ms damaged found) broken := by
  refine ⟨fun d q events fresh opened room => closes fresh sound opened room,
    fun v r ms damaged d shelf closed damage serves => ?_⟩
  obtain ⟨q, found, broken, opened, distinct, only, underway⟩ := closed.opens sound damage serves
  exact ⟨q, found, broken, opened, distinct, only, fun events served room =>
    underway.isolates sound served room⟩

/-- The disk with other bytes in the first segment, from the second frame on, and without the second
segment. -/
def damage (d : Disk) : Disk where
  tree := (d.tree.putFile (Tree.place .narrow [.text "data"] (.segment 0))
    { contents := Frame.encode [1] ++ Frame.encode [9] ++ [0] }).2.erase
      (Tree.place .narrow [.text "data"] (.segment 1))

theorem damaged_of_damage (serves : d.Serves .narrow [.text "data"] shelf) (read : r.read.file = 0)
    (write : r.write.file = 2) :
    ∃ shelf', (damage d).Serves .narrow [.text "data"] shelf' ∧
      Damaged [0, 1] r (.of shelf) (.of shelf') := by
  obtain ⟨filled, changed⟩ := serves.hosts.putFile (f := .segment 0)
    { contents := Frame.encode [1] ++ Frame.encode [9] ++ [0] }
  obtain ⟨erased, gone⟩ := filled.erase (f := .segment 1)
  rw [changed, serves.shelf_eq] at gone
  refine ⟨_, ⟨fun _ _ => rfl, erased, gone⟩, fun k hk => ?_, ?_, fun k whole => ?_⟩
  · rw [read, write]
    rcases List.mem_cons.1 hk with rfl | hk
    · decide
    · rw [List.mem_singleton.1 hk]
      decide
  · rw [View.of_update_segment, View.of_update_segment]
  · rw [List.mem_cons, List.mem_singleton, not_or] at whole
    rw [View.of_update_segment, View.of_update_segment]
    simp only [Function.update_of_ne whole.1, Function.update_of_ne whole.2]

instance decidableRoomFor (q : Queue) : (e : Event) → Decidable (q.RoomFor e)
  | .push _ => inferInstanceAs (Decidable q.session.log.HasRoom)
  | .clear => inferInstanceAs (Decidable (_ < _))
  | .pop | .tick | .reopen => isTrue trivial

instance decidableRoomThroughout (q : Queue) : (events : List Event) →
    Decidable (q.RoomThroughout events)
  | [] => isTrue trivial
  | e :: events =>
    have := decidableRoomThroughout (q.step e).2 events
    inferInstanceAs (Decidable (_ ∧ _))

/-- Of three segments one message is delivered, and the queue is closed. Then the rest of the first
segment is replaced by a frame, and the second is removed. -/
theorem damage_stays_narrow :
    ∃ (q left q' : Queue) (shelf : Shelf) (found : Nat → List Bytes) (broken : List Nat),
      openOn .blank .narrow = (.ok q, q.disk) ∧
      (q.run [.push [1], .push [2], .push [3], .push [4], .push [5], .pop]).2.close =
        (.ok (), left) ∧
      openOn (damage left.disk) .narrow = (.ok q', q'.disk) ∧ broken.Nodup ∧
      (∀ k ∈ broken, k ∈ [0, 1]) ∧
      q'.Isolates [.push [6], .pop, .pop, .tick, .pop, .pop] .narrow [.text "data"] shelf
        (found 0 ++ (found 1 ++ [[5]])) broken := by
  obtain ⟨closes, isolates⟩ := @damage_stays .narrow [.text "data"] Config.narrow_sound
  obtain ⟨q, opened, -⟩ := Waits.of_opened Disk.blank_fresh Config.narrow_sound
  obtain ⟨left, shelf, closed, serves, leaves⟩ := closes _ q
    [.push [1], .push [2], .push [3], .push [4], .push [5], .pop] Disk.blank_fresh opened
    (roomThroughout_of_few Disk.blank_fresh Config.narrow_sound opened (by decide))
  obtain ⟨log, log_eq⟩ : ∃ log, log = (q.run [.push [1], .push [2], .push [3], .push [4], .push [5],
    .pop]).2.session.log := ⟨_, rfl⟩
  obtain ⟨read, write⟩ : log.record.read = ⟨0, 5⟩ ∧ log.record.write = ⟨2, 5⟩ := by
    have check := check_of_opened (P := fun q => decide
      ((q.run [.push [1], .push [2], .push [3], .push [4], .push [5], .pop]).2.session.log.read =
          ⟨0, 5⟩ ∧
        (q.run [.push [1], .push [2], .push [3], .push [4], .push [5], .pop]).2.session.log.write =
          ⟨2, 5⟩)) opened (by decide +kernel)
    rw [log_eq]
    exact of_decide_eq_true check
  rw [← log_eq] at leaves
  obtain ⟨shelf', serves', damaged⟩ := damaged_of_damage serves (r := log.record)
    (congrArg Position.file read) (congrArg Position.file write)
  obtain ⟨q', found, broken, opened', distinct, only, served⟩ :=
    isolates _ _ _ _ _ _ leaves damaged serves'
  have room : q'.RoomThroughout [.push [6], .pop, .pop, .tick, .pop, .pop] := by
    have check := check_of_opened (P := fun q => (openOn (damage (q.run [.push [1], .push [2],
      .push [3], .push [4], .push [5], .pop]).2.close.2.disk) .narrow).1.toOption.all fun q' =>
        decide (q'.RoomThroughout [.push [6], .pop, .pop, .tick, .pop, .pop])) opened
      (by decide +kernel)
    rw [closed] at check
    exact of_decide_eq_true (check_of_opened opened' check)
  have isolated := served _ (by decide) room
  rw [read, write] at isolated
  exact ⟨q, left, q', shelf', found, broken, opened, closed, opened', distinct, only, isolated⟩

end Queue

end DurableQueue
