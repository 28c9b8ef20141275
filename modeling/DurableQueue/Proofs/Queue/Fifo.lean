import DurableQueue.Proofs.Queue.Course

/-!
# A queue is a list

To whoever uses it, a queue is the list of its waiting messages: a push that is accepted appends
its message, a refused one changes nothing, a delivery takes the head, a clear empties the list,
and closing and opening keep it (`listStep`). `behaves_as_list` says so of every run of a queue
that was opened in an empty directory, whatever its segments hold and wherever they end, and that
the depth is the length of the list at every stop. A run has room in the counters as long as it
appends less than `Word.signedLimit` bytes (`roomThroughout_of_few`).
-/

namespace DurableQueue

open FileSystem

namespace Queue

/-- What the list of waiting messages answers to an event, and the list after it. -/
def listStep (c : Config) (waiting : List Bytes) : Event → Answer × List Bytes
  | .push m =>
    if c.Admits m then (.pushed (.ok ()), waiting ++ [m])
    else (.pushed (.error (.invalidMessageSize m.length c.minMsgSize c.maxMsgSize)), waiting)
  | .pop =>
    match waiting with
    | [] => (.popped .empty, [])
    | m :: ms => (.popped (.message m), ms)
  | .clear => (.cleared (.ok ()), [])
  | .tick => (.ticked, waiting)
  | .reopen => (.reopened (.ok ()), waiting)

/-- Events in turn, with what the list answers to each. -/
def listRun (c : Config) (waiting : List Bytes) : List Event → List Answer × List Bytes
  | [] => ([], waiting)
  | e :: events =>
    let (answer, waiting) := listStep c waiting e
    let (answers, waiting) := listRun c waiting events
    (answer :: answers, waiting)

variable {c : Config} {d : Disk} {dir : Location} {q : Queue} {k : Course} {e : Event}
  {events : List Event} {n : Nat}

/-- The messages that wait in a course are those of the list. -/
theorem Course.waiting_step (within : k.delivered ≤ k.accepted.length) :
    (k.step c e).waiting = (listStep c k.waiting e).2 := by
  cases e with
  | push m =>
    by_cases admitted : c.Admits m
    · simp only [Course.step, listStep, if_pos admitted, Course.waiting]
      exact List.drop_append_of_le_length within
    · simp only [Course.step, listStep, if_neg admitted]
  | pop =>
    cases some : k.waiting with
    | nil => simp only [Course.step, listStep, some]
    | cons m ms =>
      simp only [Course.step, listStep, some]
      rw [Course.waiting] at some ⊢
      rw [← List.drop_drop, some]
      rfl
  | clear => rfl
  | tick => rfl
  | reopen => rfl

theorem Waits.within (h : q.Waits c dir k) : k.delivered ≤ k.accepted.length := by
  obtain ⟨-, -, shelf, holds⟩ := h
  exact holds.keeps.delivered_le

/-- **A queue and the list of its waiting messages answer alike.** -/
theorem Waits.step (h : q.Waits c dir k) (sound : c.Sound) (room : q.RoomFor e) :
    Steps q e (listStep c k.waiting e).1 c dir (k.step c e) := by
  cases e with
  | push m =>
    by_cases admitted : c.Admits m
    · simp only [Course.step, listStep, if_pos admitted]
      exact h.push sound admitted room
    · simp only [Course.step, listStep, if_neg admitted]
      exact h.push_refused sound admitted
  | pop =>
    cases some : k.waiting with
    | nil =>
      simp only [Course.step, listStep, some]
      exact h.pop_empty some
    | cons m ms =>
      simp only [Course.step, listStep, some]
      exact h.pop sound some
  | clear => exact h.clear sound room
  | tick => exact h.tick sound
  | reopen => exact h.reopen sound

theorem Waits.length_eq (h : q.Waits c dir k) : q.length = k.waiting.length := by
  obtain ⟨-, -, shelf, holds⟩ := h
  rw [Queue.length, holds.keeps.depth_eq, Course.waiting, List.length_drop]

/-- A waiting queue goes through any events that there is room for as its list does. -/
theorem Waits.run (h : q.Waits c dir k) (sound : c.Sound) (room : q.RoomThroughout events) :
    (q.run events).1 = (listRun c k.waiting events).1 ∧
      (q.run events).2.length = (listRun c k.waiting events).2.length := by
  induction events generalizing q k with
  | nil => exact ⟨rfl, h.length_eq⟩
  | cons e events ih =>
    obtain ⟨first, rest⟩ := room
    have steps := h.step sound first
    obtain ⟨answers, length⟩ := ih steps.waits rest
    rw [Course.waiting_step h.within] at answers length
    simp only [Queue.run, listRun]
    exact ⟨by rw [steps.answer_eq, answers], length⟩

theorem Waits.of_opened (fresh : d.Fresh c dir) (sound : c.Sound) :
    ∃ q : Queue, openOn d c = (.ok q, q.disk) ∧ q.Waits c dir {} := by
  obtain ⟨q, opened⟩ := openOn_empty fresh sound
  exact ⟨q, opened.result_eq, opened.toHolds⟩

/-- **A queue behaves as the list of its waiting messages**, in every run of pushes, deliveries,
clears, ticks, closings and openings that starts from an empty directory. The cursors and the depth
are machine words, and no run that appends less than `Word.signedLimit` bytes makes one of them run
over (`roomThroughout_of_few`). -/
theorem behaves_as_list (fresh : d.Fresh c dir) (sound : c.Sound) :
    ∃ q : Queue, openOn d c = (.ok q, q.disk) ∧ ∀ events, q.RoomThroughout events →
      (q.run events).1 = (listRun c [] events).1 ∧
        (q.run events).2.length = (listRun c [] events).2.length := by
  obtain ⟨q, opened, waits⟩ := Waits.of_opened fresh sound
  exact ⟨q, opened, fun events room => waits.run sound room⟩

/-! ### Room -/

/-- How many bytes an event appends; one that appends none counts as one. -/
def Event.weight : Event → Nat
  | .push m => Frame.diskSize m.length
  | .pop | .clear | .tick | .reopen => 1

/-- How many bytes a run appends at most. -/
def weights : List Event → Nat
  | [] => 0
  | e :: events => e.weight + weights events

/-- No counter of a queue at this stage is above `n`. -/
structure Course.Within (k : Course) (c : Config) (n : Nat) : Prop where
  file : (k.write c).file ≤ n
  offset : (k.write c).offset ≤ n
  waiting : k.waiting.length ≤ n

theorem Course.Within.mono {m : Nat} (h : k.Within c n) (le : n ≤ m) : k.Within c m :=
  ⟨Nat.le_trans h.file le, Nat.le_trans h.offset le, Nat.le_trans h.waiting le⟩

theorem Course.Within.step (h : k.Within c n) (within : k.delivered ≤ k.accepted.length) :
    (k.step c e).Within c (n + e.weight) := by
  obtain ⟨file, offset, waiting⟩ := h
  cases e with
  | push m =>
    have size : 1 ≤ (Event.push m).weight := by
      simp only [Event.weight, Frame.diskSize, Frame.headerSize]
      omega
    by_cases admitted : c.Admits m
    · simp only [Course.step, if_pos admitted]
      have past : Course.write { k with accepted := k.accepted ++ [m] } c =
          (k.write c).past c.maxBytesPerFile m.length := Position.ends_append
      have one : (Course.waiting { k with accepted := k.accepted ++ [m] }).length =
          k.waiting.length + 1 := by
        simp only [Course.waiting, List.drop_append_of_le_length within, List.length_append,
          List.length_singleton]
      refine ⟨?_, ?_, by omega⟩
      · rw [past]
        rcases Position.past_cases c.maxBytesPerFile (k.write c) m.length with ⟨e, -⟩ | ⟨e, -⟩
        · rw [e]
          exact Nat.le_add_right_of_le file
        · rw [e]
          simp only [Position.nextFile]
          omega
      · rw [past]
        rcases Position.past_cases c.maxBytesPerFile (k.write c) m.length with ⟨e, -⟩ | ⟨e, -⟩
        · rw [e]
          exact Nat.add_le_add_right offset _
        · rw [e]
          exact Nat.zero_le _
    · simp only [Course.step, if_neg admitted]
      exact ⟨by omega, by omega, by omega⟩
  | pop =>
    simp only [Course.step, Event.weight]
    split
    · exact ⟨by omega, by omega, by omega⟩
    · refine ⟨Nat.le_succ_of_le file, Nat.le_succ_of_le offset, ?_⟩
      simp only [Course.waiting, List.length_drop] at waiting ⊢
      omega
  | clear => exact ⟨Nat.succ_le_succ file, Nat.zero_le _, Nat.zero_le _⟩
  | tick => exact ⟨Nat.le_succ_of_le file, Nat.le_succ_of_le offset, Nat.le_succ_of_le waiting⟩
  | reopen => exact ⟨Nat.le_succ_of_le file, Nat.le_succ_of_le offset, Nat.le_succ_of_le waiting⟩

theorem Waits.roomFor (h : q.Waits c dir k) (within : k.Within c n)
    (few : n + e.weight < Word.signedLimit) : q.RoomFor e := by
  have write := h.write_eq
  have length := h.length_eq
  obtain ⟨file, offset, waiting⟩ := within
  have one : 1 ≤ e.weight := by
    cases e <;> simp only [Event.weight, Frame.diskSize, Frame.headerSize] <;> omega
  simp only [Word.signedLimit] at few
  rw [Queue.length] at length
  cases e with
  | push m =>
    refine ⟨?_, ?_, ?_⟩
    · rw [write, Word.limit]
      omega
    · rw [write, Word.signedLimit]
      omega
    · rw [length, Word.signedLimit]
      omega
  | clear =>
    rw [RoomFor, write, Word.limit]
    omega
  | pop => trivial
  | tick => trivial
  | reopen => trivial

theorem Waits.roomThroughout (h : q.Waits c dir k) (sound : c.Sound) (within : k.Within c n)
    (few : n + weights events < Word.signedLimit) : q.RoomThroughout events := by
  induction events generalizing q k n with
  | nil => trivial
  | cons e events ih =>
    rw [weights] at few
    have room : q.RoomFor e := h.roomFor within (by omega)
    exact ⟨room, ih (h.step sound room).waits (within.step h.within) (by omega)⟩

/-- **A run that appends less than `Word.signedLimit` bytes has room throughout.** -/
theorem roomThroughout_of_few (fresh : d.Fresh c dir) (sound : c.Sound)
    (opened : openOn d c = (.ok q, q.disk))
    (few : weights events < Word.signedLimit) : q.RoomThroughout events := by
  obtain ⟨q', opened', waits⟩ := Waits.of_opened fresh sound
  have same : q' = q := by
    rw [opened'] at opened
    exact Except.ok.inj (Prod.mk.inj opened).1
  have within : Course.Within {} c 0 := ⟨Nat.le_refl _, Nat.le_refl _, Nat.le_refl _⟩
  exact same ▸ waits.roomThroughout sound within (by omega)

/-- A run with segments that end between messages and within them, and with a staged message at the
time of closing. -/
theorem behaves_as_list_narrow :
    ∃ q : Queue, openOn .blank .narrow = (.ok q, q.disk) ∧
      (q.run [.push [1], .push [2], .push [], .pop, .reopen, .push [3, 3, 3, 3], .pop, .tick, .pop,
        .pop, .push [4], .clear, .pop]).1 =
        [.pushed (.ok ()), .pushed (.ok ()), .pushed (.error (.invalidMessageSize 0 1 64)),
          .popped (.message [1]), .reopened (.ok ()), .pushed (.ok ()), .popped (.message [2]),
          .ticked, .popped (.message [3, 3, 3, 3]), .popped .empty, .pushed (.ok ()),
          .cleared (.ok ()), .popped .empty] := by
  obtain ⟨q, opened, list⟩ := behaves_as_list Disk.blank_fresh Config.narrow_sound
  refine ⟨q, opened, (list _ ?_).1⟩
  exact roomThroughout_of_few Disk.blank_fresh Config.narrow_sound opened (by decide)

end Queue

end DurableQueue
