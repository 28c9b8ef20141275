import DurableQueue.Proofs.FileSystem.Calm
import DurableQueue.Proofs.Log.Trail
import DurableQueue.Session

/-!
# Outlines

What a log and a session do, told without a disk. An `Outline` is what a log has in memory and the
bytes of its segments; a `Sketch` is the outline of a log with what its session keeps beside it. They
do what logs and sessions do while nothing fails but syncs, and since a sync changes neither the
cursors nor the bytes of a segment, there are none in them: a tick changes nothing
(`Sketch.settle_eq_self`), and of the settings only those count that a sync does not ask for.
-/

namespace DurableQueue

open FileSystem (FileError)

/-- What a reader has kept of a file, and where it goes on fetching. -/
structure Lookahead where
  ahead : Bytes := []
  offset : Nat

namespace Lookahead

/-- Hands out the next `n` bytes, from those kept and then from what the file holds. -/
def take (contents : Bytes) (n : Nat) (l : Lookahead) : Except FileError Bytes × Lookahead :=
  if n ≤ l.ahead.length then (.ok (l.ahead.take n), { l with ahead := l.ahead.drop n })
  else
    let missing := n - l.ahead.length
    let fetched := (contents.drop l.offset).take (max missing Reader.capacity)
    let offset := l.offset + fetched.length
    if fetched.length < missing then (.error .unexpectedEnd, { ahead := [], offset })
    else (.ok (l.ahead ++ fetched.take missing), { ahead := fetched.drop missing, offset })

/-- Reads the next frame. -/
def readFrame (c : Config) (contents : Bytes) (l : Lookahead) : Except Error Bytes × Lookahead :=
  Frame.decodeFrom (take contents) c.minMsgSize c.maxMsgSize l

end Lookahead

/-- A log without its disk. -/
structure Outline where
  /-- What the segments hold that are there. -/
  segments : Nat → Option Bytes
  /-- What the segments hold that were set aside. -/
  aside : Nat → Option Bytes
  read : Position
  next : Position
  write : Position
  depth : Int
  /-- The segment at `read`, if it is open for reading. -/
  reader : Option Lookahead

namespace Outline

variable (c : Config) (o : Outline)

def hasUnread : Bool := o.read < o.write

/-! ### Healing -/

/-- The numbers of the segments from one cursor's to the other's. -/
def span : List Nat :=
  let first := min o.read.file o.write.file
  List.range' first (max o.read.file o.write.file + 1 - first)

/-- Segments without some of them. No segment is removed under a name that is too long. -/
def without (segments : Nat → Option Bytes) (numbers : List Nat) : Nat → Option Bytes := fun k =>
  if k ∈ numbers ∧ c.isLong (.segment k) = false then none else segments k

/-- Both cursors at a fresh segment, and nothing waiting. -/
def fresh : Outline :=
  let start : Position := ⟨max o.read.file o.write.file + 1, 0⟩
  { o with
    segments := without c o.segments o.span, read := start, next := start, write := start, depth := 0,
    reader := none }

/-- A log whose cursors met or crossed has nothing waiting. -/
def checkTail : Outline :=
  if o.read < o.write then o
  else if o.read = o.write then { o with depth := 0 }
  else o.fresh c

/-- The outline of the log whose record says `r`. -/
def ofRecord (segments aside : Nat → Option Bytes) (r : Record) : Outline :=
  let o : Outline :=
    { segments, aside, read := r.read, next := r.read, write := r.write, depth := r.length,
      reader := none }
  if r.write < r.read then o.fresh c
  else if r.length < 0 ∨ r.read = r.write ∧ r.length ≠ 0 then { o with depth := 0 }
  else o

/-! ### Reading -/

/-- The segment at the read cursor, open for reading from there, and what it holds. -/
def opened : Option (Bytes × Lookahead) :=
  match o.segments o.read.file, o.reader with
  | none, _ => none
  | some contents, some l => some (contents, l)
  | some contents, none =>
    if c.isLong (.segment o.read.file) ∨ Word.signedLimit ≤ o.read.offset then none
    else some (contents, { offset := o.read.offset })

/-- Reads the message at the read cursor. -/
def readFrame : Option (Bytes × Outline) :=
  match o.opened c with
  | none => none
  | some (contents, l) =>
    match l.readFrame c contents with
    | (.error _, _) => none
    | (.ok message, l) =>
      let next := o.read.past c.maxBytesPerFile message.length
      some (message, { o with next, reader := if next.file = o.read.file then some l else none })

/-- Sets the segment at the read cursor aside and goes on at the next one. -/
def quarantine : Outline :=
  let stuck := c.isLong (.segment o.read.file) || c.isLong (.quarantined o.read.file) ||
    (o.segments o.read.file).isNone
  let o : Outline :=
    { o with
      segments := if stuck then o.segments else Function.update o.segments o.read.file none
      aside := if stuck then o.aside
        else Function.update o.aside o.read.file (o.segments o.read.file)
      read := o.read.nextFile, next := o.read.nextFile
      write := if o.read.file = o.write.file then o.write.nextFile else o.write
      reader := none }
  o.checkTail c

/-- What is open for reading is closed in any case. -/
theorem quarantine_closed : { o with reader := none }.quarantine c = o.quarantine c := rfl

/-- Moves the read cursor past the message last read. -/
def commit : Outline :=
  let o : Outline :=
    { o with
      segments := if o.next.file = o.read.file then o.segments
        else without c o.segments [o.read.file]
      read := o.next, depth := Word.wrap (o.depth - 1) }
  o.checkTail c

/-! ### Writing -/

/-- Appends a message. A segment that cannot be opened at its end is there all the same. -/
def append (message : Bytes) : Except Error Unit × Outline :=
  let path := c.path (.segment o.write.file)
  let old := (o.segments o.write.file).getD []
  if message.length < c.minMsgSize ∨ c.maxMsgSize < message.length then
    (.error (.invalidMessageSize message.length c.minMsgSize c.maxMsgSize), o)
  else if c.isLong (.segment o.write.file) then (.error (.openSegment path .invalidName), o)
  else if Word.signedLimit ≤ o.write.offset then
    (.error (.openSegment path .invalidInput),
      { o with segments := Function.update o.segments o.write.file (some old) })
  else
    (.ok (), { o with
      segments := Function.update o.segments o.write.file
        (some (old.overwrite o.write.offset (Frame.encode message)))
      write := o.write.past c.maxBytesPerFile message.length, depth := Word.wrap (o.depth + 1) })

/-! ### Deleting -/

/-- Removes every segment between the cursors and then the record. -/
def deleteAll : Except Error Unit × Outline :=
  let result :=
    if c.isLong .record then .error (.removeFile (c.path .record) .invalidName)
    else
      match (o.span.filter fun k => c.isLong (.segment k)).getLast? with
      | none => .ok ()
      | some k => .error (.removeFile (c.path (.segment k)) .invalidName)
  (result, o.fresh c)

end Outline

/-- A session without its disk and without its syncs. -/
structure Sketch where
  log : Outline
  staged : Option Bytes := none
  corruptions : Nat := 0

namespace Sketch

open Session (Answer Event)

variable (c : Config) (k : Sketch)

/-- Nothing is to be read now: a message is on offer, or nothing is unread. -/
def Blocked : Prop := ¬(k.staged.isNone ∧ k.log.hasUnread)

instance : Decidable k.Blocked := inferInstanceAs (Decidable ¬_)

/-- Gives the segment at the read cursor up. -/
def giveUp : Sketch := { k with log := k.log.quarantine c, corruptions := k.corruptions + 1 }

/-- Settles, starting over at most `rounds` times. -/
def settleWithin : Nat → Sketch → Sketch
  | 0, k => k
  | rounds + 1, k =>
    if k.Blocked then k
    else
      match k.log.readFrame c with
      | some (message, log) => { k with log, staged := some message }
      | none => settleWithin rounds (k.giveUp c)

def settle : Sketch := settleWithin c (k.log.write.file - k.log.read.file + 2) k

/-- The sketch of a session, waiting for its first event. -/
def start (log : Outline) : Sketch := settle c { log }

/-- One event and its answer. -/
def step : Event → Answer × Sketch
  | .push message =>
    let (result, log) := k.log.append c message
    (.pushed result, settle c { k with log })
  | .deliver =>
    (.delivered k.staged,
      match k.staged with
      | some _ => settle c { k with log := k.log.commit c, staged := none }
      | none => k)
  | .clear =>
    let (result, log) := k.log.deleteAll c
    (.cleared result, settle c { k with log, staged := none })
  | .tick => (.ticked, k)

/-- Events in turn, with the answers in their order. -/
def run (k : Sketch) : List Event → List Answer × Sketch
  | [] => ([], k)
  | e :: events =>
    let (answer, k) := k.step c e
    let (answers, k) := run k events
    (answer :: answers, k)

/-! ### Settling comes to an end -/

variable {c k} {rounds : Nat}

/-- Giving a segment up takes the read cursor to the next one, or both cursors to one place. -/
theorem giveUp_cases (unread : k.log.read < k.log.write) :
    (k.giveUp c).log.read = (k.giveUp c).log.write ∨
      (k.giveUp c).log.read = k.log.read.nextFile ∧ (k.giveUp c).log.write = k.log.write ∧
        k.log.read.file < k.log.write.file := by
  obtain ⟨o, o_eq⟩ : ∃ o : Outline, o.checkTail c = k.log.quarantine c ∧
      o.read = k.log.read.nextFile ∧
      o.write = if k.log.read.file = k.log.write.file then k.log.write.nextFile else k.log.write :=
    ⟨_, rfl, rfl, rfl⟩
  obtain ⟨looked, read, write⟩ := o_eq
  rw [giveUp, ← looked, Outline.checkTail]
  by_cases same : k.log.read.file = k.log.write.file
  · rw [if_pos same] at write
    have met : o.read = o.write := by
      rw [read, write, Position.nextFile, Position.nextFile, same]
    rw [if_neg (met ▸ Position.lt_irrefl), if_pos met]
    exact Or.inl met
  · rw [if_neg same] at write
    have before : k.log.read.file < k.log.write.file := by
      have := Position.file_le (Position.le_of_lt unread)
      omega
    split
    · exact Or.inr ⟨read, write, before⟩
    · next tail =>
      have met : o.read = o.write := by
        refine Position.le_antisymm ?_ (Position.not_lt.1 tail)
        simp only [read, write, Position.nextFile, Position.le_iff]
        omega
      rw [if_pos met]
      exact Or.inl met

theorem blocked_of_met (met : k.log.read = k.log.write) : k.Blocked := by
  rintro ⟨-, unread⟩
  rw [Outline.hasUnread, decide_eq_true_iff, met] at unread
  exact Position.lt_irrefl unread

theorem settleWithin_of_blocked (blocked : k.Blocked) (rounds : Nat) :
    settleWithin c rounds k = k := by
  cases rounds with
  | zero => rfl
  | succ rounds => rw [settleWithin, if_pos blocked]

/-- There is a round for each segment that may have to be given up. -/
theorem settleWithin_blocked (enough : k.log.write.file - k.log.read.file + 2 ≤ rounds) :
    (settleWithin c rounds k).Blocked := by
  induction rounds generalizing k with
  | zero => omega
  | succ rounds ih =>
    rw [settleWithin]
    split
    · next blocked => exact blocked
    · next reads =>
      have unread : k.log.read < k.log.write := of_decide_eq_true (not_not.1 reads).2
      split
      · exact fun idle => absurd idle.1 Bool.false_ne_true
      · rcases giveUp_cases (c := c) unread with met | ⟨read, write, before⟩
        · rw [settleWithin_of_blocked (blocked_of_met met)]
          exact blocked_of_met met
        · apply ih
          simp only [read, write, Position.nextFile]
          omega

theorem settle_blocked : (k.settle c).Blocked := settleWithin_blocked (Nat.le_refl _)

/-- **A sketch that waits has nothing to settle.** -/
theorem settle_eq_self (blocked : k.Blocked) : k.settle c = k := settleWithin_of_blocked blocked _

theorem step_blocked (blocked : k.Blocked) (e : Event) : (k.step c e).2.Blocked := by
  cases e with
  | push m => exact settle_blocked
  | deliver =>
    rw [step]
    simp only
    split
    · exact settle_blocked
    · exact blocked
  | clear => exact settle_blocked
  | tick => exact blocked

end Sketch

end DurableQueue
