import DurableQueue.Proofs.Queue.Isolation
import DurableQueue.Proofs.Queue.Resting

/-!
# Other bounds on messages

The bounds on the size of a message are held against what is pushed and against what is read. So a
session delivers nothing outside its own bounds, whatever the files hold (`popMany_admits`), and a frame
that was within the bounds of the session that wrote it may be damage to the next one. `bounds_keep_iff`
says when a closed queue loses nothing under other settings: exactly if each of its messages is within
the new bounds.
-/

namespace DurableQueue

open FileSystem

/-! ### What is read is within the bounds -/

/-- A source that hands out as many bytes as it is asked for yields messages within the bounds. -/
theorem Frame.length_of_decodeFrom {σ : Type} {take : Nat → σ → Except FileError Bytes × σ}
    {least most : Nat} {s : σ} {m : Bytes}
    (full : ∀ n s bs, (take n s).1 = .ok bs → bs.length = n)
    (read : (decodeFrom take least most s).1 = .ok m) : least ≤ m.length ∧ m.length ≤ most := by
  unfold decodeFrom at read
  cases header : take headerSize s with
  | mk result s₁ =>
    rw [header] at read
    cases result with
    | error e => cases read
    | ok bytes =>
      simp only at read
      split at read
      · cases read
      · next within =>
        revert read
        cases body : take (Bytes.toWord bytes) s₁ with
        | mk result s₂ =>
          intro read
          cases result with
          | error e => cases read
          | ok message =>
            cases read
            have length := full _ _ _ (congrArg Prod.fst body)
            omega

theorem Reader.length_take {n : Nat} {source : Reader × Disk} {bs : Bytes}
    (taken : (take n source).1 = .ok bs) : bs.length = n := by
  obtain ⟨r, d⟩ := source
  rw [take] at taken
  split at taken
  · next held =>
    cases taken
    rw [List.length_take]
    omega
  · next few =>
    simp only at taken
    cases fetch : d.read r.handle (max (n - r.ahead.length) capacity) with
    | mk result d' =>
      rw [fetch] at taken
      cases result with
      | error e => cases taken
      | ok fetched =>
        simp only at taken
        split at taken
        · cases taken
        · cases taken
          rw [List.length_append, List.length_take]
          omega

/-- A log reads no message outside its bounds. -/
theorem Log.readFrame_admits {log log' : Log} {m : Bytes} (read : log.readFrame = (.ok m, log')) :
    log.config.Admits m := by
  obtain ⟨d, same, -⟩ := log.openReader_outcome
  unfold readFrame at read
  revert read same
  cases log.openReader with
  | mk result opened =>
    rintro read rfl
    cases result with
    | error e => cases read
    | ok reader =>
      have size : (Frame.decodeFrom Reader.take log.config.minMsgSize log.config.maxMsgSize
          (reader, d)).1 = .ok m → log.config.Admits m :=
        Frame.length_of_decodeFrom fun _ _ _ => Reader.length_take
      simp only [Reader.readFrame] at read
      revert read size
      cases Frame.decodeFrom Reader.take log.config.minMsgSize log.config.maxMsgSize (reader, d) with
      | mk result source =>
        intro read size
        cases result with
        | error e => cases read
        | ok message =>
          cases read
          exact size rfl

namespace Session

variable {s t : Session}

/-- What is on offer is within the bounds. -/
def OffersAdmitted (s : Session) : Prop := ∀ m ∈ s.staged, s.log.config.Admits m

theorem Settles.offersAdmitted (settles : s.Settles t) (offers : s.OffersAdmitted) :
    t.OffersAdmitted := by
  induction settles with
  | @wait s nothing =>
    obtain ⟨staged, -, d, sync, told, w, log⟩ := s.flush_rest
    intro m there
    rw [staged] at there
    rw [log]
    exact offers m there
  | @stage s m log idle read =>
    intro m' there
    cases there
    have config : log.config = s.flush.log.config := by
      obtain ⟨m', d, r, eq, -⟩ | ⟨e, d, r, eq, -⟩ := s.flush.log.readFrame_outcome
      · rw [read] at eq
        cases eq
        rfl
      · rw [read] at eq
        cases eq
    rw [config]
    exact Log.readFrame_admits read
  | @again s t e log idle read rest ih =>
    refine ih fun m there => ?_
    have none_ : (s.flush.giveUp log).staged = none := Option.isNone_iff_eq_none.1 idle.1
    rw [none_] at there
    cases there

theorem offersAdmitted_step (offers : s.OffersAdmitted) (e : Event) :
    (s.step e).2.OffersAdmitted := by
  rw [step_eq]
  split
  · exact offers
  refine (settles_settle _).offersAdmitted ?_
  have config := (leads_handle s e).config_eq
  cases e with
  | push m =>
    intro m' there
    rw [config]
    exact offers m' there
  | deliver => exact fun m there => absurd there (Option.not_mem_none m)
  | clear => exact fun m there => absurd there (Option.not_mem_none m)
  | tick =>
    intro m' there
    rw [config]
    exact offers m' there

end Session

/-- Settings of queues whose files are the same and as long: the bounds on messages and the times of
syncs are free. -/
structure Config.Agrees (c c' : Config) : Prop where
  name : c'.name = c.name
  dataPath : c'.dataPath = c.dataPath
  maxBytesPerFile : c'.maxBytesPerFile = c.maxBytesPerFile

section Agrees

variable {c c' : Config} {d : Disk} {dir : Location} {shelf : Shelf} (agrees : c.Agrees c')
include agrees

theorem Config.Agrees.sound (sound : c.Sound) (valid : c'.Valid) : c'.Sound where
  toValid := valid
  short := agrees.name ▸ sound.short
  noNul := agrees.name ▸ sound.noNul

theorem Config.Agrees.serves (serves : d.Serves c dir shelf) : d.Serves c' dir shelf where
  faultless := serves.faultless
  hosts := agrees.dataPath ▸ serves.hosts
  shelf_eq := by
    rw [← serves.shelf_eq]
    funext f
    simp only [Tree.shelf, Tree.place, agrees.name]

/-- A trail of frames is one for other settings exactly if they admit its messages. -/
theorem Trail.agrees_iff {segments : Nat → Option Bytes} {p q : Position} {ms : List Bytes}
    (trail : Trail c segments p ms q) : Trail c' segments p ms q ↔ ∀ m ∈ ms, c'.Admits m := by
  refine ⟨Trail.admits, fun admitted => ?_⟩
  induction trail with
  | nil p => exact .nil p
  | cons fits old there frame rest ih =>
    refine .cons fits (admitted _ List.mem_cons_self) there frame ?_
    rw [agrees.maxBytesPerFile]
    exact ih fun m later => admitted m (List.mem_cons_of_mem _ later)

end Agrees

namespace Queue

variable {c c' : Config} {d : Disk} {dir : Location} {q : Queue} {shelf : Shelf} {r : Record}
  {ms : List Bytes} {aside : Nat → Option Bytes} {broken : List Nat}

/-- Whoever takes messages until there are no more gets these, and no segment is counted as
damaged. -/
def Drains (q : Queue) (ms : List Bytes) : Prop :=
  ∀ count, (q.popMany count).1 = ms.take count ∧ (q.popMany count).2.session.corruptions = 0

/-- What is taken was on offer, and the session has served a delivery then. -/
theorem pop_message {m : Bytes} (taken : q.pop.1 = .message m) :
    m ∈ q.session.staged ∧ q.pop.2.session = (q.session.step .deliver).2 := by
  unfold Queue.pop at taken ⊢
  split at taken
  case isFalse => cases taken
  case isTrue running =>
    rw [if_pos running]
    revert taken
    unfold Session.step Session.deliver
    cases q.session.staged with
    | none => nofun
    | some staged =>
      intro taken
      cases taken
      exact ⟨rfl, rfl⟩

/-- A session delivers nothing outside its own bounds. -/
theorem popMany_admits (offers : q.session.OffersAdmitted) (count : Nat) :
    ∀ m ∈ (q.popMany count).1, q.config.Admits m := by
  induction count generalizing q with
  | zero => exact fun m there => absurd there List.not_mem_nil
  | succ count ih =>
    have head := fun m => pop_message (q := q) (m := m)
    rw [Queue.popMany]
    revert head
    cases q.pop with
    | mk taken later =>
      intro head
      cases taken with
      | message m =>
        obtain ⟨staged, session⟩ := head m rfl
        have stepped : later.session.OffersAdmitted := session ▸ Session.offersAdmitted_step offers _
        have config : later.config = q.config := by
          rw [Queue.config, session]
          exact (q.session.leads_step .deliver).config_eq
        intro m' there
        rcases List.mem_cons.1 there with rfl | there
        · exact offers m' staged
        · exact config ▸ ih stepped m' there
      | empty => exact fun m there => absurd there List.not_mem_nil
      | disconnected => exact fun m there => absurd there List.not_mem_nil

/-- Of the messages of a session under way the first are taken. -/
theorem Underway.popMany (h : q.Underway c dir aside broken ms) (sound : c.Sound) (count : Nat) :
    (popMany count q).1 = ms.take count ∧
      (popMany count q).2.Underway c dir aside broken (ms.drop count) := by
  induction count generalizing q ms with
  | zero => exact ⟨rfl, h⟩
  | succ count ih =>
    obtain ⟨answer, stepped⟩ := h.pop sound
    cases ms with
    | nil =>
      rw [Queue.popMany, pop_of_step answer]
      exact ⟨rfl, stepped⟩
    | cons m ms =>
      obtain ⟨taken, later⟩ := ih stepped
      rw [Queue.popMany, pop_of_step answer]
      exact ⟨congrArg (List.cons m) taken, later⟩

theorem Underway.drains (h : q.Underway c dir aside [] ms) (sound : c.Sound) : q.Drains ms := by
  intro count
  obtain ⟨taken, -, k, ⟨shelf, -, rfl⟩, underway⟩ := h.popMany sound count
  exact ⟨taken, underway.counted.1⟩

/-- What a closed queue leaves is so for other settings exactly if they admit its messages. -/
theorem Closed.agrees_iff {v : View} (h : Closed c v r ms) (agrees : c.Agrees c') :
    Closed c' v r ms ↔ ∀ m ∈ ms, c'.Admits m :=
  ⟨fun closed => closed.trail.admits, fun admitted =>
    { h with trail := (h.trail.agrees_iff agrees).2 admitted }⟩

/-- A closed queue opens with its messages, and none of its segments is damaged. -/
theorem Closed.resumes (h : Closed c (.of shelf) r ms) (sound : c.Sound)
    (serves : d.Serves c dir shelf) :
    ∃ q, openOn d c = (.ok q, q.disk) ∧
      q.Underway c dir (fun k => (shelf (.quarantined k)).map (·.2.contents)) [] ms := by
  have whole : Damaged [] r (.of shelf) (.of shelf) := ⟨nofun, rfl, fun _ _ => rfl⟩
  obtain ⟨q, found, broken, opened, -, only, underway⟩ := h.opens sound whole serves
  obtain rfl : broken = [] := List.eq_nil_iff_forall_not_mem.2 fun k hk =>
    List.not_mem_nil (only k hk)
  rw [h.trail.salvage_nil] at underway
  exact ⟨q, opened, underway⟩

/-- A closed queue opens under other settings, whatever these admit, and offers nothing that they do
not. -/
theorem Closed.opens_with (h : Closed c (.of shelf) r ms) (sound : c'.Sound)
    (serves : d.Serves c' dir shelf) :
    ∃ q, openOn d c' = (.ok q, q.disk) ∧ q.config = c' ∧ q.session.OffersAdmitted := by
  obtain ⟨d', -, opened⟩ := openOn_spec (P := fun _ => True) serves sound trivial
    (Or.inr ⟨h.record, h.words⟩)
  obtain ⟨depth, sync, told, resets, resumed⟩ :=
    Log.ofRecord_of_le (c := c') (d := d') h.trail.le
  have settles := Session.settles_settle
    { log := ((Log.ofRecord c' d' r).tell .opening).tell .loopStarted }
  refine ⟨_, opened, ?_, settles.offersAdmitted nofun⟩
  refine settles.leads.config_eq.trans ?_
  rw [resumed]
  rfl

/-- **A closed queue opens under other settings, and loses nothing exactly if these admit each of its
messages.** Then whatever is pushed and delivered, it is the list of its messages, and no segment is
set aside. -/
theorem Closed.opens_iff (h : Closed c (.of shelf) r ms) (agrees : c.Agrees c') (sound : c'.Sound)
    (serves : d.Serves c' dir shelf) :
    ∃ q, openOn d c' = (.ok q, q.disk) ∧ (q.Drains ms ↔ ∀ m ∈ ms, c'.Admits m) ∧
      ((∀ m ∈ ms, c'.Admits m) → ∀ events, (∀ e ∈ events, e ≠ .clear ∧ e ≠ .reopen) →
        q.RoomThroughout events → q.Isolates events c' dir shelf ms []) := by
  by_cases admitted : ∀ m ∈ ms, c'.Admits m
  · obtain ⟨q, opened, underway⟩ := ((h.agrees_iff agrees).2 admitted).resumes sound serves
    exact ⟨q, opened, iff_of_true (underway.drains sound) admitted,
      fun _ events served room => underway.isolates sound served room⟩
  · obtain ⟨q, opened, config, offers⟩ := h.opens_with sound serves
    refine ⟨q, opened, iff_of_false (fun drains => admitted ?_) admitted,
      fun within => absurd within admitted⟩
    obtain ⟨taken, -⟩ := drains ms.length
    have within := popMany_admits offers ms.length
    rw [taken, List.take_length, config] at within
    exact within

/-- **Other bounds keep the messages that they admit.** Every run from an empty directory can be
closed, and leaves a queue as `Closed` says, whose waiting messages are those of the list. Under any
valid settings with the same files and the same length of segments a closed queue opens. It delivers
all its messages in their order, with no segment counted as damaged, exactly if each of them is within
the new bounds. -/
theorem bounds_keep_iff (sound : c.Sound) :
    (∀ (d : Disk) (q : Queue) (events : List Event), d.Fresh c dir → openOn d c = (.ok q, q.disk) →
      q.RoomThroughout events → ∃ left shelf, (q.run events).2.close = (.ok (), left) ∧
        left.disk.Serves c dir shelf ∧
        Closed c (.of shelf) (q.run events).2.session.log.record (listRun c [] events).2) ∧
    ∀ (shelf : Shelf) (r : Record) (ms : List Bytes) (d : Disk) (c' : Config),
      Closed c (.of shelf) r ms → d.Serves c dir shelf → c.Agrees c' → c'.Valid →
        ∃ q, openOn d c' = (.ok q, q.disk) ∧ (q.Drains ms ↔ ∀ m ∈ ms, c'.Admits m) ∧
          ((∀ m ∈ ms, c'.Admits m) → ∀ events, (∀ e ∈ events, e ≠ .clear ∧ e ≠ .reopen) →
            q.RoomThroughout events → q.Isolates events c' dir shelf ms []) := by
  refine ⟨fun d q events fresh opened room => closes fresh sound opened room,
    fun shelf r ms d c' closed serves agrees valid => ?_⟩
  exact closed.opens_iff agrees (agrees.sound sound valid) (agrees.serves serves)

/-- Settings that agree with the narrow ones and admit messages of one and of two bytes. -/
def narrower : Config := { Config.narrow with maxMsgSize := 2, syncEvery := 1 }

theorem narrower_valid : narrower.Valid := Config.flaw?_eq_none_iff.1 (by decide)

theorem narrow_agrees : Config.narrow.Agrees narrower := ⟨rfl, rfl, rfl⟩

/-- Three messages are pushed, one is delivered, and the queue is closed; the two that wait are within
the narrower bounds. -/
theorem bounds_keep_narrow :
    ∃ (q left q' : Queue), openOn .blank .narrow = (.ok q, q.disk) ∧
      (q.run [.push [1, 1, 1], .push [2], .push [3, 3], .pop]).2.close = (.ok (), left) ∧
      openOn left.disk narrower = (.ok q', q'.disk) ∧ q'.Drains [[2], [3, 3]] := by
  obtain ⟨closes, reopens⟩ := @bounds_keep_iff .narrow [.text "data"] Config.narrow_sound
  obtain ⟨q, opened, -⟩ := Waits.of_opened Disk.blank_fresh Config.narrow_sound
  obtain ⟨left, shelf, closed, serves, leaves⟩ := closes _ q
    [.push [1, 1, 1], .push [2], .push [3, 3], .pop] Disk.blank_fresh opened
    (roomThroughout_of_few Disk.blank_fresh Config.narrow_sound opened (by decide))
  obtain ⟨q', opened', drains, -⟩ := reopens _ _ _ _ narrower leaves serves narrow_agrees
    narrower_valid
  exact ⟨q, left, q', opened, closed, opened', drains.2 (by decide)⟩

/-- **A stored message that the new bounds do not admit is lost.** A message of three bytes waits in
the queue that is closed; under bounds of at most two nothing is delivered, and its segment is counted
as damaged. -/
theorem narrower_loses :
    ∃ q left, openOn .blank .narrow = (.ok q, q.disk) ∧
      (q.run [.push [97, 98, 99]]).2.close = (.ok (), left) ∧ Config.narrow.Agrees narrower ∧
      narrower.Valid ∧ ∃ q', (openOn left.disk narrower).1 = .ok q' ∧ (q'.popMany 1).1 = [] ∧
        q'.session.corruptions = 1 ∧ ¬q'.Drains [[97, 98, 99]] := by
  obtain ⟨q, opened, -⟩ := Waits.of_opened Disk.blank_fresh Config.narrow_sound
  have room : q.RoomThroughout [.push [97, 98, 99]] :=
    roomThroughout_of_few Disk.blank_fresh Config.narrow_sound opened (by decide)
  obtain ⟨left, shelf, closed, -⟩ := closes Disk.blank_fresh Config.narrow_sound opened room
  have check := check_of_opened (P := fun q =>
    (openOn (q.run [.push [97, 98, 99]]).2.close.2.disk narrower).1.toOption.any fun q' =>
      decide ((q'.popMany 1).1 = [] ∧ q'.session.corruptions = 1)) opened (by decide +kernel)
  rw [closed] at check
  obtain ⟨q', opened', right⟩ := opened_of_check check
  obtain ⟨nothing, counted⟩ := of_decide_eq_true right
  refine ⟨q, left, opened, closed, narrow_agrees, narrower_valid, q', opened', nothing, counted,
    fun drains => ?_⟩
  have taken := (drains 1).1
  rw [nothing] at taken
  cases taken

end Queue

end DurableQueue
