import DurableQueue.Proofs.Queue.Fifo
import DurableQueue.Proofs.Session.Draining

/-!
# What a crash leaves

A process may die between any two effects on the files. The next one finds the tree as it was then,
and opens the queue from it. `recovers_at_every_moment` says what it delivers: a block of the
accepted messages, in their order, that ends where the write cursor of the record on disk stands
and begins no later than the first message that was not delivered.

Which messages were accepted, and where their frames went, is kept in a `Ledger` by whoever watches
the run. A message counts as accepted from the beginning of its push on, and as delivered from the
moment at which it is handed out, which comes before the effects of the delivery.
-/

namespace DurableQueue

open FileSystem

/-- Messages with the places of their frames, the first of them at `p`. -/
def placed (limit : Nat) (p : Position) : List Bytes → List (Position × Bytes)
  | [] => []
  | m :: ms => (p, m) :: placed limit (p.past limit m.length) ms

section Placed

variable {limit : Nat} {p : Position} {m : Bytes} {ms : List Bytes}

theorem messages_placed : (placed limit p ms).map (·.2) = ms := by
  induction ms generalizing p with
  | nil => rfl
  | cons m ms ih => rw [placed, List.map_cons, ih]

theorem length_placed : (placed limit p ms).length = ms.length := by
  rw [← List.length_map (·.2), messages_placed]

theorem placed_snoc : placed limit p (ms ++ [m]) = placed limit p ms ++ [(p.ends limit ms, m)] := by
  induction ms generalizing p with
  | nil => rfl
  | cons m' ms ih =>
    rw [List.cons_append, placed, ih]
    rfl

theorem place_placed {n : Nat} (within : n < (placed limit p ms).length) :
    (placed limit p ms)[n].1 = p.ends limit (ms.take n) := by
  induction ms generalizing p n with
  | nil => exact absurd within (Nat.not_lt_zero n)
  | cons m ms ih =>
    cases n with
    | zero => rfl
    | succ n => exact ih (Nat.lt_of_succ_lt_succ within)

/-- The messages before a place on the trail are those that come first. -/
theorem place_lt_iff {n j : Nat} (within : n < (placed limit p ms).length) (le : j ≤ ms.length) :
    (placed limit p ms)[n].1 < p.ends limit (ms.take j) ↔ n < j := by
  rw [place_placed]
  rw [length_placed] at within
  refine ⟨fun less => ?_, fun less => Position.ends_take_lt less le⟩
  apply Nat.lt_of_not_le
  intro later
  have back : p.ends limit (ms.take j) ≤ p.ends limit (ms.take n) :=
    Position.ends_take_le later (Nat.le_of_lt within)
  exact Position.lt_irrefl (Position.lt_of_le_of_lt back less)

end Placed

namespace Queue

/-- What was accepted since the queue was last emptied, with the places of the frames, and how much
of it was handed out. -/
structure Ledger where
  accepted : List (Position × Bytes) := []
  delivered : Nat := 0
  deriving DecidableEq, Repr

/-- The ledger after an event that found a queue as `q` and was answered. -/
def Ledger.note (l : Ledger) (q : Queue) : Event → Answer → Ledger
  | .push m, .pushed (.ok ()) => { l with accepted := l.accepted ++ [(q.session.log.write, m)] }
  | .pop, .popped (.message _) => { l with delivered := l.delivered + 1 }
  | .clear, .cleared (.ok ()) => {}
  | _, _ => l

/-- Every tree that was on the disk in a run of events, with the ledger at that moment. -/
def moments (q : Queue) (l : Ledger) : List Event → List (Tree × Ledger)
  | [] => []
  | e :: events =>
    let (answer, q') := q.step e
    let l' := l.note q e answer
    (q'.disk.since (q.cutFrom e)).map (fun t => (t, l')) ++ moments q' l' events

/-- What the next process makes of a disk: it finds a record or none, the queue opens, and of the
accepted messages it delivers those from `first` to `last`. -/
structure Recovery (c : Config) (d : Disk) (l : Ledger) (record : Option Record) (q : Queue)
    (first last : Nat) : Prop where
  loaded : (Record.load d (Naming.recordPath c.dataPath c.name)).1 = .ok record
  opened : (openOn d c).1 = .ok q
  undelivered : first ≤ l.delivered
  ordered : first ≤ last
  within : last ≤ l.accepted.length
  /-- The block ends with the last message before the write cursor of the record. -/
  covered : ∀ n (inside : n < l.accepted.length),
    l.accepted[n].1 < (record.getD {}).write ↔ n < last
  drained : ∀ count,
    (q.popMany count).1 = (((l.accepted.map (·.2)).take last).drop first).take count

/-- Whatever process comes next takes the queue up from a tree. -/
def Recovers (c : Config) (t : Tree) (l : Ledger) : Prop :=
  ∀ d : Disk, d.tree = t → (∀ n call, d.faults n call = none) →
    ∃ record q first last, Recovery c d l record q first last

variable {c : Config} {d : Disk} {dir : Location} {q : Queue} {k : Course} {e : Event}
  {events : List Event} {shelf : Shelf} {ms : List Bytes}

/-- What an observer has written down at a stage of a queue's course. -/
def Course.ledger (k : Course) (c : Config) : Ledger where
  accepted := placed c.maxBytesPerFile k.start k.accepted
  delivered := k.delivered

theorem Course.ledger_step (write : q.session.log.write = k.write c) :
    (k.ledger c).note q e (listStep c k.waiting e).1 = (k.step c e).ledger c := by
  cases e with
  | push m =>
    by_cases admitted : c.Admits m
    · simp only [listStep, Course.step, if_pos admitted, Ledger.note, write]
      simp only [Course.ledger, placed_snoc, Course.write]
    · simp only [listStep, Course.step, if_neg admitted, Ledger.note]
  | pop =>
    cases some : k.waiting with
    | nil => simp only [listStep, Course.step, some, Ledger.note]
    | cons m ms =>
      simp only [listStep, Course.step, some, Ledger.note]
      rfl
  | clear => rfl
  | tick => rfl
  | reopen => rfl

/-- Every moment of a run belongs to some stage of the queue's course. -/
theorem Waits.moments (h : q.Waits c dir k) (sound : c.Sound) (room : q.RoomThroughout events) :
    ∀ t l, (t, l) ∈ q.moments (k.ledger c) events → ∃ k', Shown c dir k' t ∧ l = k'.ledger c := by
  induction events generalizing q k with
  | nil => exact fun t l ht => absurd ht List.not_mem_nil
  | cons e events ih =>
    obtain ⟨here, later⟩ := room
    have steps := h.step sound here
    intro t l ht
    simp only [Queue.moments, steps.answer_eq, Course.ledger_step h.write_eq] at ht
    rcases List.mem_append.1 ht with now | after
    · obtain ⟨t', ht', same⟩ := List.mem_map.1 now
      cases same
      exact ⟨_, steps.shown t ht', rfl⟩
    · exact ih steps.waits later t l after

/-! ### Taking the queue up -/

theorem start_reads {log : Log} (h : log.Reads dir shelf none ms) (sound : log.config.Sound) :
    ∃ shelf', (Session.start (log.tell .opening)).Ready dir shelf' ms ∧
      (Session.start (log.tell .opening)).log.config = log.config ∧
      (Session.Counted { log } ms → (Session.start (log.tell .opening)).Counted ms) := by
  obtain ⟨shelf', ready, config, counted⟩ :=
    Session.settle_ready (s := { log := (log.tell .opening).tell .loopStarted })
      ⟨h.serves, h.trail, h.staged_first, h.next_eq, h.reader, h.writer⟩ sound
  exact ⟨shelf', ready, config, fun before =>
    counted ⟨before.depth, before.few, before.resets, before.corruptions⟩⟩

theorem start_lacks {log : Log} {f : Nat} (h : log.Lacks dir shelf f ms) (sound : log.config.Sound) :
    ∃ shelf', (Session.start (log.tell .opening)).Ready dir shelf' ms ∧
      (Session.start (log.tell .opening)).log.config = log.config ∧
      0 < (Session.start (log.tell .opening)).corruptions :=
  Session.settle_lacks (s := { log := (log.tell .opening).tell .loopStarted })
    ⟨h.serves, h.closed, h.unwritten, h.before, h.small, h.gone, h.trail⟩ rfl sound

/-- A queue that is ready delivers its messages one after the other, and then no more. If they are
counted, the rest is. -/
theorem popMany_ready {s : Session} (ready : s.Ready dir shelf ms) (sound : s.log.config.Sound)
    (count : Nat) : (popMany count { session := s }).1 = ms.take count ∧
      (s.Counted ms → (popMany count { session := s }).2.session.Counted (ms.drop count)) := by
  induction count generalizing s shelf ms with
  | zero => exact ⟨rfl, id⟩
  | succ count ih =>
    cases ms with
    | nil =>
      simp only [popMany, Queue.pop, if_true, ready.deliver_none, List.take_nil, List.drop_nil]
      exact ⟨trivial, id⟩
    | cons m ms =>
      obtain ⟨s', shelf', delivered, ready', config, counted⟩ := ready.deliver sound
      obtain ⟨rest, counted'⟩ := ih ready' (config ▸ sound)
      simp only [popMany, Queue.pop, if_true, delivered, List.take_succ_cons, List.drop_succ_cons,
        rest]
      exact ⟨trivial, fun before => counted' (counted before)⟩

/-- The segment that a record reads next is gone. -/
def Gap (segments : Nat → Option Bytes) (r : Record) : Prop :=
  r.read < r.write ∧ segments r.read.file = none

/-- What a record leads to is there to be taken up. It is counted unless the record reads from a
segment that is gone, and then a corruption is. -/
theorem ready_of_leads {r : Record} {start : Position} {accepted : List Bytes} {i j n : Nat}
    (serves : d.Serves c dir shelf) (sound : c.Sound) (words : r.InWords)
    (leads : Leads c (View.of shelf).segments start accepted r i j n) :
    ∃ shelf', (Session.start ((Log.ofRecord c d r).tell .opening)).Ready dir shelf'
        ((accepted.take j).drop n) ∧
      (Session.start ((Log.ofRecord c d r).tell .opening)).log.config = c ∧
      ((Session.start ((Log.ofRecord c d r).tell .opening)).Counted ((accepted.take j).drop n) ∧
          ¬Gap (View.of shelf).segments r ∨
        0 < (Session.start ((Log.ofRecord c d r).tell .opening)).corruptions ∧
          Gap (View.of shelf).segments r) := by
  have trail := leads.trail
  rcases leads.skipped with rfl | ⟨f, opening, before, gone⟩
  · rw [← leads.read_eq] at trail
    have counted : r.length = ((accepted.take j).drop n).length := by
      rw [leads.length_eq, List.length_drop, List.length_take, Nat.min_eq_left leads.within]
    have taken : Log.ofRecord c d r = Log.resumed c d r := by
      apply Log.ofRecord_eq leads.toMarks.le_write (by omega)
      intro meet
      rw [meet] at trail
      rw [counted, trail.eq_nil]
      rfl
    have reads : (Log.resumed c d r).Reads dir shelf none ((accepted.take j).drop n) :=
      ⟨serves, trail, List.nil_prefix, rfl, nofun, nofun⟩
    rw [taken]
    obtain ⟨shelf', ready, config, right⟩ := start_reads reads sound
    refine ⟨shelf', ready, config, Or.inl ⟨right ⟨counted, ?_, rfl, rfl⟩, ?_⟩⟩
    · rw [← counted]
      exact words.high
    · rintro ⟨less, missing⟩
      exact trail.there less missing
  · obtain ⟨depth, sync, told, resets, eq⟩ :=
      Log.ofRecord_of_le (c := c) (d := d) leads.toMarks.le_write
    rw [opening] at trail
    have small : f < Word.limit := Nat.lt_of_le_of_lt (Position.file_le trail.le) words.write.1
    have lacks : { Log.resumed c d r with
          depth, needSync := sync, journal := told, tailResets := resets }.Lacks dir shelf f
        ((accepted.take j).drop n) :=
      ⟨serves, rfl, rfl, before, small, fun n low high => View.none_of_segments (gone n low high),
        trail⟩
    rw [eq]
    obtain ⟨shelf', ready, config, more⟩ := start_lacks lacks sound
    refine ⟨shelf', ready, config, Or.inr ⟨more, ?_, gone _ (Nat.le_refl _) before⟩⟩
    have behind := Position.file_le trail.le
    exact Or.inl (by simp only at behind; omega)

/-- **What a queue shows can be taken up by the next process.** -/
theorem Shown.recovers {t : Tree} (shown : Shown c dir k t) (sound : c.Sound) :
    Recovers c t (k.ledger c) := by
  rintro d rfl faultless
  obtain ⟨hosts, recoverable⟩ := shown
  have serves : d.Serves c dir (d.tree.shelf c dir) := ⟨faultless, hosts, rfl⟩
  have length : (k.ledger c).accepted.length = k.accepted.length := length_placed
  cases there : (View.of (d.tree.shelf c dir)).record with
  | none =>
    obtain ⟨d₁, loaded, -⟩ := Record.load_spec_none (P := fun _ => True) serves sound there trivial
    obtain ⟨d₂, reached, opened⟩ :=
      openOn_spec (P := fun _ => True) serves sound trivial (Or.inl ⟨there, rfl⟩)
    rw [Log.ofRecord_eq (Position.le_refl _) (Int.le_refl 0) fun _ => rfl] at opened
    have reads : (Log.resumed c d₂ {}).Reads dir (d.tree.shelf c dir) none [] :=
      ⟨reached.toServes, .nil _, List.nil_prefix, rfl, nofun, nofun⟩
    obtain ⟨shelf', ready, config, -⟩ := start_reads reads sound
    refine ⟨none, _, 0, 0, congrArg Prod.fst loaded, by rw [opened], Nat.zero_le _, Nat.le_refl _,
      Nat.zero_le _, fun n inside => ?_, fun count => ?_⟩
    · simp only [Option.getD_none, Position.lt_iff]
      omega
    · rw [(popMany_ready ready (config ▸ sound) count).1, List.take_zero, List.drop_nil]
  | some bs =>
    obtain ⟨r, i, j, n, rfl, words, behind, leads⟩ := recoverable bs there
    obtain ⟨d₁, loaded, -⟩ := Record.load_spec (P := fun _ => True) serves sound words there trivial
    obtain ⟨d₂, reached, opened⟩ :=
      openOn_spec (P := fun _ => True) serves sound trivial (Or.inr ⟨there, words⟩)
    obtain ⟨shelf', ready, config, -⟩ := ready_of_leads reached.toServes sound words leads
    refine ⟨some r, _, n, j, congrArg Prod.fst loaded, by rw [opened], behind, leads.to_write,
      length ▸ leads.within, fun m inside => ?_, fun count => ?_⟩
    · rw [Option.getD_some, leads.write_eq]
      exact place_lt_iff inside leads.within
    · rw [(popMany_ready ready (config.symm ▸ sound) count).1, Course.ledger, messages_placed]

/-- **A queue that dies at any moment is taken up from there**, be it while it is opened for the first
time or during any event of a run in which no counter runs over. -/
theorem recovers_at_every_moment (fresh : d.Fresh c dir) (sound : c.Sound) :
    ∃ q : Queue, openOn d c = (.ok q, q.disk) ∧ (∀ t ∈ q.disk.since d, Recovers c t {}) ∧
      ∀ events, q.RoomThroughout events →
        ∀ t l, (t, l) ∈ q.moments {} events → Recovers c t l := by
  obtain ⟨q, opened⟩ := openOn_empty fresh sound
  have waits : q.Waits c dir {} := opened.toHolds
  obtain ⟨shelf, reached⟩ := opened.shown
  refine ⟨q, opened.result_eq, fun t ht => ?_, fun events room t l ht => ?_⟩
  · have now : Shown c dir {} d.tree := by
      refine ⟨fresh.serves.hosts, ?_⟩
      rw [fresh.serves.shelf_eq]
      nofun
    have shown : Shown c dir {} t := reached.since now t ht
    exact shown.recovers sound
  · obtain ⟨k, shown, rfl⟩ := waits.moments sound room t l ht
    exact shown.recovers sound

/-- A run that leaves segments behind, is closed with a message staged, and is cleared. -/
theorem recovers_at_every_moment_narrow :
    ∃ q : Queue, openOn .blank .narrow = (.ok q, q.disk) ∧
      ∀ t l, (t, l) ∈ q.moments {} [.push [1], .push [2], .pop, .push [3, 3], .pop, .tick, .pop,
        .push [4], .reopen, .clear, .push [5]] → Recovers .narrow t l := by
  obtain ⟨q, opened, -, recovers⟩ := recovers_at_every_moment Disk.blank_fresh Config.narrow_sound
  refine ⟨q, opened, recovers _ ?_⟩
  exact roomThroughout_of_few Disk.blank_fresh Config.narrow_sound opened (by decide)

end Queue

end DurableQueue
