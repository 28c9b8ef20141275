import DurableQueue.Proofs.Queue.Fifo
import DurableQueue.Proofs.Session.Packing
import DurableQueue.Proofs.Session.Passing

/-!
# The files of a queue

In a run that nothing fails the cursors of a queue tell which files it has (`Tiled`): the segments from
the read cursor's to the one before the write cursor's, each longer than the limit by one frame at
most, the segment at the write cursor if something was written to it, the record, and nothing else.
What is unread lies on the segments from the read cursor on (`Trail.held`), those before are gone and
none comes after the write cursor's (`Log.Keeps`); how long they are is told by `Packed`, which every
event keeps (`Tiles.step`).

The writer and the reader find the ends of segments each on its own. They find the same: where the write
cursor was after the first, second, third message of a fresh queue, there the read cursor is once the
first, second, third message is delivered (`Stops`).
-/

namespace DurableQueue

open FileSystem

/-- A trail leaves no segment out. -/
theorem Trail.held {c : Config} {segments : Nat → Option Bytes} {p q : Position} {ms : List Bytes}
    (trail : Trail c segments p ms q) : ∀ k, p.file ≤ k → k < q.file → segments k ≠ none := by
  induction trail with
  | nil p =>
    intro k low high
    exact absurd low (Nat.not_le.2 high)
  | @cons p q m bs ms fits admitted there frame rest ih =>
    intro k low high
    rcases Nat.eq_or_lt_of_le low with here | further
    · rw [← here, there]
      nofun
    · refine ih k ?_ high
      rcases Position.past_cases c.maxBytesPerFile p m.length with ⟨stay, -⟩ | ⟨leave, -⟩
      · rw [stay]
        exact low
      · rw [leave]
        exact further

/-- The segments that a queue with these cursors has. -/
def Spans (read write : Position) (k : Nat) : Prop :=
  read.file ≤ k ∧ k < write.file ∨ k = write.file ∧ 0 < write.offset

/-- The files of a queue with these cursors, in its directory. -/
structure Tiled (t : Tree) (c : Config) (dir : Location) (read write : Position) : Prop where
  hosts : t.Hosts c.dataPath dir
  room : write.offset ≤ c.maxBytesPerFile
  there : ∀ k, Spans read write k → ∃ number,
    t.lookup (Tree.place c dir (.segment k)) = some (.file number) ∧
      (k = write.file → (t.inode number).contents.length = write.offset) ∧
      (k ≠ write.file → c.maxBytesPerFile < (t.inode number).contents.length ∧
        (t.inode number).contents.length ≤ c.maxBytesPerFile + 4 + c.maxMsgSize)
  others : ∀ f ≠ .record, (∀ k, Spans read write k → f ≠ .segment k) →
    t.lookup (Tree.place c dir f) = none

variable {c : Config} {dir : Location} {d : Disk} {shelf : Shelf} {r : Record}

section Keeps

variable {log : Log} {staged : Option Bytes} {start : Position} {accepted : List Bytes} {u : Nat}
  (keeps : log.Keeps dir shelf staged start accepted u)
include keeps

/-- There is no segment before the read cursor's and none after the write cursor's. -/
theorem Log.Keeps.outside {k : Nat} (away : k < log.read.file ∨ log.write.file < k) :
    (View.of shelf).segments k = none := by
  obtain ⟨a, -, layout⟩ := keeps.layout
  rcases away with below | above
  · exact layout.gone k below
  · exact keeps.ends.beyond k above

/-- **The cursors of a log with packed segments tell which files it has.** -/
theorem Log.Keeps.tiled (packed : (log.outline shelf).Packed log.config) :
    Tiled log.disk.tree log.config dir log.read log.write := by
  have hosts := keeps.reads.serves.hosts
  have shelf_eq := keeps.reads.serves.shelf_eq
  obtain ⟨full, room, begun, aside⟩ := packed
  refine ⟨hosts, room, fun k spans => ?_, fun f other apart => ?_⟩
  · have held : (View.of shelf).segments k ≠ none := by
      rcases spans with ⟨low, high⟩ | ⟨rfl, some_⟩
      · exact keeps.reads.trail.held k low high
      · intro missing
        have last := keeps.ends.last
        rw [missing] at last
        exact absurd last (Nat.ne_of_lt some_)
    obtain ⟨bs, there⟩ := Option.ne_none_iff_exists'.1 held
    obtain ⟨number, inode, found, rfl⟩ := View.some_of_segments there
    obtain ⟨at_, inode_eq⟩ := Tree.lookup_of_shelf (shelf_eq.symm ▸ found)
    refine ⟨number, at_, ?_, ?_⟩
    · rintro rfl
      have last := keeps.ends.last
      rw [there] at last
      rw [inode_eq]
      exact last
    · intro left
      obtain ⟨low, high⟩ := full k left inode.contents there
      rw [inode_eq]
      simp only [Frame.diskSize, Frame.headerSize] at high
      exact ⟨low, by omega⟩
  · apply hosts.lookup_of_shelf_none
    rw [shelf_eq]
    cases f with
    | record => exact absurd rfl other
    | temporary tag => exact keeps.tidy tag
    | quarantined k => exact Option.map_eq_none_iff.1 (aside k)
    | segment k =>
      apply View.none_of_segments
      rcases Nat.lt_trichotomy k log.write.file with before | same | after
      · rcases Nat.lt_or_ge k log.read.file with below | above
        · exact keeps.outside (Or.inl below)
        · exact absurd rfl (apart k (Or.inl ⟨above, before⟩))
      · subst same
        apply begun
        apply Nat.eq_zero_of_not_pos
        intro some_
        exact absurd rfl (apart _ (Or.inr ⟨rfl, some_⟩))
      · exact keeps.outside (Or.inr after)

end Keeps

namespace Queue

variable {q : Queue} {k : Course} {e : Event} {m : Bytes} {events : List Event}

/-- A queue that waits in a stage of its course, with packed segments. -/
structure Tiles (q : Queue) (c : Config) (dir : Location) (k : Course) : Prop where
  waits : q.Waits c dir k
  packed : ∃ sketch, q.session.Sketched c dir sketch ∧ sketch.Blocked ∧ sketch.log.Packed c

/-- The sketch of a queue that waits is that of what it keeps. -/
theorem Waits.sketch_eq (h : q.Waits c dir k) {sketch : Sketch}
    (sketched : q.session.Sketched c dir sketch) :
    q.session.log.config = c ∧ ∃ shelf, sketch = q.session.sketch shelf ∧
      q.session.Holds dir shelf k.start k.accepted k.delivered := by
  obtain ⟨-, rfl, shelf, holds⟩ := h
  obtain ⟨shelf', steady, rfl⟩ := sketched
  have same : shelf' = shelf := steady.calm.shelf_eq.symm.trans holds.keeps.reads.serves.shelf_eq
  exact ⟨rfl, shelf, by rw [same], holds⟩

theorem Tiles.tiled (h : q.Tiles c dir k) :
    Tiled q.disk.tree c dir q.session.log.read q.session.log.write := by
  obtain ⟨waits, sketch, sketched, -, packed⟩ := h
  obtain ⟨rfl, shelf, rfl, holds⟩ := waits.sketch_eq sketched
  exact holds.keeps.tiled packed

/-! ### Events -/

/-- What an event of a queue is to its session. -/
def Event.within : Event → Option Session.Event
  | .push m => some (.push m)
  | .pop => some .deliver
  | .clear => some .clear
  | .tick => some .tick
  | .reopen => none

theorem session_step (running : q.running = true) {e' : Session.Event} (within : e.within = some e') :
    (q.step e).2.session = (q.session.step e').2 := by
  cases e with
  | push m =>
    cases within
    simp only [Queue.step, Queue.push, running, if_true, Session.step]
  | pop =>
    cases within
    simp only [Queue.step, Queue.pop, running, if_true, Session.step]
    cases q.session.deliver with
    | none => rfl
    | some out => rfl
  | clear =>
    cases within
    simp only [Queue.step, Queue.clear, running, if_true, Session.step]
  | tick =>
    cases within
    simp only [Queue.step, Queue.tick, running, if_true, Session.step]
  | reopen => cases within

/-- Every event that a session serves leaves the segments packed. -/
theorem Tiles.packed_step (h : q.Tiles c dir k) (sound : c.Sound) (room : q.RoomFor e)
    {e' : Session.Event} (within : e.within = some e') :
    ∃ sketch, (q.step e).2.session.Sketched c dir sketch ∧ sketch.Blocked ∧ sketch.log.Packed c := by
  obtain ⟨waits, sketch, sketched, blocked, packed⟩ := h
  have waits' := (waits.step sound room).waits
  have reach : (∃ m, e' = .push m) → q.session.InReach := by
    rintro ⟨m, rfl⟩ _
    cases e with
    | push m => exact room.offset
    | _ => cases within
  obtain ⟨-, sketched'⟩ := sketched.step sound.named blocked reach
  rw [← session_step waits.running within] at sketched'
  refine ⟨_, sketched', Sketch.step_blocked blocked e', ?_⟩
  obtain ⟨config, shelf, same, holds⟩ := waits.sketch_eq sketched
  obtain ⟨config', shelf', same', holds'⟩ := waits'.sketch_eq sketched'
  have read := holds.keeps.read_eq
  have read' := holds'.keeps.read_eq
  rw [config] at read
  rw [config'] at read'
  have moved : (sketch.step c e').2.log.read = (q.step e).2.session.log.read := by
    rw [same']
    rfl
  have ends : Ends sketch.log.segments sketch.log.write := by
    rw [same]
    exact holds.keeps.ends
  cases e with
  | push m =>
    cases within
    refine Sketch.packed_push packed ends ?_
    rw [moved, read', show sketch.log.read = q.session.log.read from same ▸ rfl, read]
    by_cases admitted : c.Admits m
    · simp only [Course.step, if_pos admitted]
      rw [List.take_append_of_le_length waits.within]
    · simp only [Course.step, if_neg admitted]
  | pop =>
    cases within
    refine Sketch.packed_deliver packed ?_ fun some_ => ?_
    · rw [same]
      exact holds.keeps.reads.next_le
    · rw [same] at some_
      obtain ⟨m, staged⟩ := Option.isSome_iff_exists.1 some_
      have keeps := holds.keeps
      rw [show q.session.staged = some m from staged] at keeps
      obtain ⟨next, split, -⟩ := keeps.leaving
      have waiting : k.waiting = m :: k.accepted.drop (k.delivered + 1) := split
      rw [moved, read', show sketch.log.next = q.session.log.next from same ▸ rfl, next, config]
      simp only [Course.step, waiting]
  | clear =>
    cases within
    have between := holds.keeps.file_le
    have write := waits.write_eq
    have fresh : (sketch.log.fresh c).read = (k.write c).nextFile := by
      rw [same, ← write]
      simp only [Outline.fresh, Session.sketch, Log.outline, Nat.max_eq_right between,
        Position.nextFile]
    refine Sketch.packed_clear packed ?_ ?_ fun j other => ?_
    · rw [same]
      exact holds.keeps.ends.beyond
    · rw [moved, read', fresh]
      rfl
    · have start : (q.step .clear).2.session.log.read = (k.write c).nextFile := read'
      have start' : (q.step .clear).2.session.log.write = (k.write c).nextFile := waits'.write_eq
      have apart : j ≠ (k.write c).nextFile.file := by
        rw [← fresh]
        exact other
      rw [same']
      apply holds'.keeps.outside
      rw [start, start']
      exact Nat.lt_or_gt_of_ne apart
  | tick =>
    cases within
    exact packed
  | reopen => cases within

/-! ### Opening -/

/-- A queue that is opened as its record says finds its segments packed. -/
theorem packed_of_opened (serves : d.Serves c dir shelf) (sound : c.Sound) (finds : Finds (.of shelf) r)
    (le : r.read ≤ r.write)
    (packed : Packed c (View.of shelf).segments
      (fun k => (shelf (.quarantined k)).map (·.2.contents)) r.write)
    (opened : openOn d c = (.ok q, q.disk)) (read : q.session.log.read = r.read) :
    ∃ sketch, q.session.Sketched c dir sketch ∧ sketch.Blocked ∧ sketch.log.Packed c := by
  obtain ⟨d', reached, opening⟩ := openOn_spec (P := fun _ => True) serves sound trivial finds
  rw [opening] at opened
  cases opened
  have sketched : (Session.takingUp c d' r).Sketched c dir _ :=
    Session.sketched_takingUp reached.toServes.calm sound.named r c.syncEvery c.syncTimeout
  refine ⟨_, sketched, Sketch.settle_blocked, ?_⟩
  obtain ⟨shelf', -, same⟩ := sketched
  obtain ⟨depth, taken⟩ := Outline.ofRecord_of_le (c := c) (View.of shelf).segments
    (fun k => (shelf (.quarantined k)).map (·.2.contents)) le
  have begun : Outline.Packed (Outline.ofRecord c (View.of shelf).segments
      (fun k => (shelf (.quarantined k)).map (·.2.contents)) r) c := by
    rw [taken]
    exact packed
  refine Sketch.packed_settle (k := { log := _ }) begun ?_
  have now := congrArg (fun sketch => sketch.log.read) same
  rw [taken]
  rw [taken] at now
  exact now.symm.trans read

/-- Closing keeps the segments as they are. -/
theorem close_sketched {sketch : Sketch} (running : q.running = true)
    (sketched : q.session.Sketched c dir sketch) (named : c.Named) :
    ∃ shelf, q.close.2.disk.tree.shelf c dir = shelf ∧
      (View.of shelf).segments = sketch.log.segments ∧
      (fun k => (shelf (.quarantined k)).map (·.2.contents)) = sketch.log.aside := by
  obtain ⟨shelf, steady, rfl⟩ := sketched
  obtain ⟨s, s_eq⟩ : ∃ s : Session, s = { q.session with log := q.session.log.tell .stopping } :=
    ⟨_, rfl⟩
  have told : s.log.Steady c dir shelf := by
    rw [s_eq]
    exact steady.telling q.session.log.needSync _ q.session.log.tailResets
  have outline : s.log.outline shelf = q.session.log.outline shelf := by
    rw [s_eq]
    rfl
  obtain ⟨shelf', synced, same⟩ := told.sync named
  obtain ⟨told', ⟨-, -, eq⟩ | ⟨no, -⟩⟩ := s.finish_cases .close
  · have closed : q.close.2.disk = s.log.sync.2.disk := by
      simp only [Queue.close, exit, running, if_true, ← s_eq]
      rw [disk, eq]
      rfl
    rw [outline] at same
    refine ⟨shelf', by rw [closed, synced.calm.shelf_eq], ?_, ?_⟩
    · exact congrArg Outline.segments same
    · exact congrArg Outline.aside same
  · cases no

theorem Tiles.packed_reopen (h : q.Tiles c dir k) (sound : c.Sound) :
    ∃ sketch, (q.step .reopen).2.session.Sketched c dir sketch ∧ sketch.Blocked ∧
      sketch.log.Packed c := by
  obtain ⟨waits, sketch, sketched, -, packed⟩ := h
  have waits' : (q.step .reopen).2.Waits c dir k := (waits.reopen sound).waits
  obtain ⟨left, staged, shelf, shelf', closed, config, keeps, done, stored, closing⟩ :=
    waits.closing sound
  obtain ⟨shelf'', shelf_eq, segments, aside⟩ := close_sketched waits.running sketched sound.named
  rw [closed] at shelf_eq
  obtain rfl : shelf' = shelf'' := closing.shelf_eq.symm.trans shelf_eq
  have same : q.session.log.config = c := waits.config
  obtain ⟨q', opened⟩ := openOn_closed keeps (same ▸ sound) done stored (same ▸ closing.toServes)
  rw [same] at opened
  have step : (q.step .reopen).2 = q' := by
    have result := opened.result_eq
    rw [← config] at result
    simp only [Queue.step, Queue.reopen, closed, result]
  rw [step] at waits' ⊢
  obtain ⟨-, config', shelf₂, holds'⟩ := waits'
  refine packed_of_opened closing.toServes sound (Or.inr ⟨stored, keeps.record_words⟩)
    keeps.reads.read_le ?_ opened.result_eq ?_
  · rw [segments, aside]
    obtain ⟨-, shelf₁, rfl, -⟩ := waits.sketch_eq sketched
    exact packed
  · rw [holds'.keeps.read_eq, config', ← same]
    exact keeps.read_eq.symm

/-- **Every event leaves the files of a queue to be told by its cursors.** -/
theorem Tiles.step (h : q.Tiles c dir k) (sound : c.Sound) (room : q.RoomFor e) :
    (q.step e).2.Tiles c dir (k.step c e) := by
  refine ⟨(h.waits.step sound room).waits, ?_⟩
  cases e with
  | reopen => exact h.packed_reopen sound
  | push m => exact h.packed_step sound room rfl
  | pop => exact h.packed_step sound room rfl
  | clear => exact h.packed_step sound room rfl
  | tick => exact h.packed_step sound room rfl

theorem Tiles.of_opened (fresh : d.Fresh c dir) (sound : c.Sound) :
    ∃ q : Queue, openOn d c = (.ok q, q.disk) ∧ q.Tiles c dir {} := by
  obtain ⟨q, opened, waits⟩ := Waits.of_opened fresh sound
  refine ⟨q, opened, waits, ?_⟩
  refine packed_of_opened fresh.serves sound (Or.inl ⟨rfl, rfl⟩) (Position.le_refl _) ?_ opened ?_
  · exact ⟨fun _ _ _ there => (by cases there), Nat.zero_le _, fun _ => rfl, fun _ => rfl⟩
  · obtain ⟨-, -, shelf, holds⟩ := waits
    exact holds.keeps.read_eq

/-! ### The ends of segments -/

/-- Where the write cursor was after each message that was accepted since the segments last started
afresh, and the read cursor after each that was delivered. -/
structure Stops where
  appended : List Position := []
  delivered : List Position := []

/-- An event is noted with its answer and the queue after it. -/
def Stops.note (stops : Stops) (answer : Answer) (after : Queue) : Stops :=
  match answer with
  | .pushed (.ok ()) => { stops with appended := stops.appended ++ [after.session.log.write] }
  | .popped (.message _) => { stops with delivered := stops.delivered ++ [after.session.log.read] }
  | .cleared (.ok ()) => {}
  | _ => stops

/-- The stops of a run. -/
def stops (q : Queue) (noted : Stops) : List Event → Stops
  | [] => noted
  | e :: events =>
    let (answer, q) := q.step e
    q.stops (noted.note answer q) events

/-- Where the first `n` messages of a course end. -/
def Course.stops (k : Course) (c : Config) (n : Nat) : List Position :=
  (List.range n).map fun i => k.start.ends c.maxBytesPerFile (k.accepted.take (i + 1))

theorem Course.stops_succ (k : Course) (c : Config) (n : Nat) : k.stops c (n + 1) =
    k.stops c n ++ [k.start.ends c.maxBytesPerFile (k.accepted.take (n + 1))] := by
  simp only [Course.stops, List.range_succ, List.map_append, List.map_cons, List.map_nil]

theorem Course.stops_snoc {n : Nat} (within : n ≤ k.accepted.length) :
    Course.stops { k with accepted := k.accepted ++ [m] } c n = k.stops c n := by
  refine List.map_congr_left fun i less => ?_
  have before : i + 1 ≤ k.accepted.length := Nat.le_trans (List.mem_range.1 less) within
  rw [List.take_append_of_le_length before]

theorem Course.stops_prefix {i j : Nat} (le : i ≤ j) : k.stops c i <+: k.stops c j := by
  apply List.IsPrefix.map
  rw [← Nat.min_eq_left le, ← List.take_range]
  exact List.take_prefix ..

/-- What is noted in a run is where the messages of its course end. -/
structure Noted (noted : Stops) (c : Config) (k : Course) : Prop where
  appended : noted.appended = k.stops c k.accepted.length
  delivered : noted.delivered = k.stops c k.delivered

theorem Noted.step {noted : Stops} (h : Noted noted c k) (waits : q.Waits c dir k) (sound : c.Sound)
    (room : q.RoomFor e) : Noted (noted.note (q.step e).1 (q.step e).2) c (k.step c e) := by
  have steps := waits.step sound room
  have write := steps.waits.write_eq
  have read : (q.step e).2.session.log.read = (k.step c e).start.ends c.maxBytesPerFile
      ((k.step c e).accepted.take (k.step c e).delivered) := by
    obtain ⟨-, rfl, shelf, holds⟩ := steps.waits
    exact holds.keeps.read_eq
  rw [steps.answer_eq]
  cases e with
  | push m =>
    by_cases admitted : c.Admits m
    · simp only [Course.step, listStep, if_pos admitted] at write ⊢
      constructor
      · show noted.appended ++ [_] = _
        have whole : (k.accepted ++ [m]).take (k.accepted.length + 1) = k.accepted ++ [m] := by
          apply List.take_of_length_le
          simp only [List.length_append, List.length_singleton, Nat.le_refl]
        rw [write, h.appended, List.length_append, List.length_singleton, Course.stops_succ,
          Course.stops_snoc (Nat.le_refl _)]
        simp only [whole]
        rfl
      · exact h.delivered.trans (Course.stops_snoc waits.within).symm
    · simp only [Course.step, listStep, if_neg admitted]
      exact h
  | pop =>
    cases some_ : k.waiting with
    | nil =>
      simp only [Course.step, listStep, some_]
      exact h
    | cons m ms =>
      simp only [Course.step, listStep, some_] at read ⊢
      refine ⟨h.appended, ?_⟩
      show noted.delivered ++ [_] = _
      rw [read, h.delivered]
      exact (Course.stops_succ k c k.delivered).symm
  | clear => exact ⟨rfl, rfl⟩
  | tick => exact h
  | reopen => exact h

/-- What a run leaves, and what was noted in it. -/
theorem Tiles.run (h : q.Tiles c dir k) (sound : c.Sound) {noted : Stops} (noting : Noted noted c k)
    (room : q.RoomThroughout events) :
    ∃ k', (q.run events).2.Tiles c dir k' ∧ Noted (q.stops noted events) c k' := by
  induction events generalizing q k noted with
  | nil => exact ⟨k, h, noting⟩
  | cons e events ih =>
    obtain ⟨first, rest⟩ := room
    exact ih (h.step sound first) (noting.step h.waits sound first) rest

/-- **The cursors of a queue tell which files it has**, whenever it waits, in every run of pushes,
deliveries, clears, ticks, closings and openings that starts from an empty directory. **The reader leaves
a segment where the writer left it**: what the read cursor was after each delivery, the write cursor was
after the append of the same message, counted since the queue was new or last cleared. -/
theorem segments_tiled (fresh : d.Fresh c dir) (sound : c.Sound) :
    ∃ q : Queue, openOn d c = (.ok q, q.disk) ∧ ∀ events, q.RoomThroughout events →
      Tiled (q.run events).2.disk.tree c dir (q.run events).2.session.log.read
          (q.run events).2.session.log.write ∧
        (q.stops {} events).delivered <+: (q.stops {} events).appended := by
  obtain ⟨q, opened, tiles⟩ := Tiles.of_opened fresh sound
  refine ⟨q, opened, fun events room => ?_⟩
  obtain ⟨k, tiles', noted⟩ := tiles.run sound (show Noted {} c _ from ⟨rfl, rfl⟩) room
  refine ⟨tiles'.tiled, ?_⟩
  rw [noted.appended, noted.delivered]
  exact Course.stops_prefix tiles'.waits.within

/-- A run with a segment that is left and one that is not, one that is taken away and a clear. -/
theorem segments_tiled_narrow :
    ∃ q : Queue, openOn .blank .narrow = (.ok q, q.disk) ∧
      let events : List Event := [.push [1], .push [2], .clear, .push [3, 3, 3], .pop, .push [4],
        .reopen, .push [5], .push [6], .pop]
      Tiled (q.run events).2.disk.tree .narrow [.text "data"] (q.run events).2.session.log.read
          (q.run events).2.session.log.write ∧
        (q.stops {} events).delivered <+: (q.stops {} events).appended := by
  obtain ⟨q, opened, tiled⟩ := segments_tiled Disk.blank_fresh Config.narrow_sound
  exact ⟨q, opened, tiled _
    (roomThroughout_of_few Disk.blank_fresh Config.narrow_sound opened (by decide))⟩

end Queue

end DurableQueue
