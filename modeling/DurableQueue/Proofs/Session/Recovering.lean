import DurableQueue.Proofs.Log.Standing
import DurableQueue.Proofs.Session.Taking
import Mathlib.Data.List.Chain

/-!
# Recovering from what cannot be read

At the top of its loop a session syncs what is due and reads the next message. If that fails, it gives
the segment up and is at the top of its loop again. `Meets` is what happens from there until the session
waits, with the tops of the loop that it comes back to. Each of them is one segment further on
(`SkipsOne`), so there are not more of them than segments between the cursors (`Meets.length_le`), and
no others than settling goes through (`meets_settle`).

When the session waits, it has a message on offer exactly if one is unread. That message is the one that
was read at the read cursor, however many were pushed meanwhile: an event that takes the read cursor on
takes the message off (`Offers`). `recovery_ends` says both of every run, whatever the disk holds and
whatever fails on it.
-/

namespace DurableQueue

open FileSystem

namespace Session

/-- From the top of the loop at `s` the session comes to wait as `t`. In between reading fails as often
as `errors` is long, and each time the loop starts over with the next of them. -/
inductive Meets : Session → List Session → Session → Prop where
  | wait {s : Session} (nothing : ¬s.flush.Idle) : Meets s [] s.flush
  | stage {s : Session} {m : Bytes} {log : Log} (idle : s.flush.Idle)
    (read : s.flush.log.readFrame = (.ok m, log)) :
    Meets s [] { s.flush with log, staged := some m }
  | again {s t : Session} {e : Error} {log : Log} {errors : List Session} (idle : s.flush.Idle)
    (read : s.flush.log.readFrame = (.error e, log)) (rest : Meets (s.flush.giveUp log) errors t) :
    Meets s (s.flush.giveUp log :: errors) t

/-- One read error takes a session from one top of its loop to the next: the read cursor to the start of
the next segment, one more segment is counted as given up, and nothing is on offer. -/
structure SkipsOne (s s' : Session) : Prop where
  further : s.log.read < s'.log.read
  next_segment : s'.log.read = s.log.read.nextFile
  counted : s'.corruptions = s.corruptions + 1
  nothing : s'.staged = none

/-- The run of a session from the top of its loop at `first` through some events, with every session at
the top of its loop on the way. -/
inductive Loops (first : Session) : List Event → List Session → Session → Prop where
  | begin {errors : List Session} {t : Session} (meets : first.Meets errors t) :
    Loops first [] (first :: errors) t
  /-- Nobody can take a message while none is on offer. -/
  | pass {events : List Event} {e : Event} {tops : List Session} {s : Session}
    (before : Loops first events tops s) (passes : s.Passes e) : Loops first (events ++ [e]) tops s
  | serve {events : List Event} {e : Event} {tops errors : List Session} {s t : Session}
    (before : Loops first events tops s) (taken : ¬s.Passes e)
    (meets : (s.handle e).Meets errors t) :
    Loops first (events ++ [e]) (tops ++ s.handle e :: errors) t

/-- The session has `m` on offer: one of `tops` read it at the place where the read cursor still is, and
the next message is looked for behind it. -/
structure Offers (s : Session) (tops : List Session) (m : Bytes) : Prop where
  unread : s.log.read < s.log.write
  next : s.log.next = s.log.read.past s.log.config.maxBytesPerFile m.length
  found : ∃ top ∈ tops, top.flush.Idle ∧ top.log.read = s.log.read ∧ top.log.ReadsAt top.log.read ∧
    top.flush.log.readFrame.1 = .ok m

/-- The reader of a session is where the next message is to be read, and what is on offer was read where
the read cursor is. -/
structure InStep (s : Session) (tops : List Session) : Prop where
  vacant : s.staged = none → s.log.ReadsAt s.log.read
  taken : ∀ m, s.staged = some m → s.log.ReadsAt s.log.next ∧ s.Offers tops m

variable {c : Config} {d : Disk} {r : Record} {s s' t : Session} {errors tops tops' : List Session}
  {e : Error} {log : Log} {events : List Event} {event : Event}

/-! ### Read errors -/

/-- A flush moves no cursor. -/
theorem flush_log (s : Session) : s.flush.log.config = s.log.config ∧ s.flush.log.read = s.log.read ∧
    s.flush.log.next = s.log.next ∧ s.flush.log.write = s.log.write ∧
      s.flush.log.reader = s.log.reader := by
  obtain ⟨-, -, d, sync, told, w, eq⟩ := s.flush_rest
  rw [eq]
  exact ⟨rfl, rfl, rfl, rfl, rfl⟩

theorem Idle.unread (idle : s.flush.Idle) : s.log.read < s.log.write := by
  obtain ⟨-, read, -, write, -⟩ := s.flush_log
  rw [← read, ← write]
  exact of_decide_eq_true idle.2

/-- The cursors of a session that has given a segment up. -/
theorem giveUp_log (idle : s.flush.Idle) (read : s.flush.log.readFrame = (.error e, log)) :
    (s.flush.giveUp log).log.read = s.log.read.nextFile ∧
      ((s.flush.giveUp log).log.read < (s.flush.giveUp log).log.write →
        (s.flush.giveUp log).distance + 1 = s.distance) := by
  obtain ⟨-, read_eq, -, write_eq, -⟩ := s.flush_log
  obtain ⟨-, stays, stays'⟩ := Log.readFrame_cursors read
  have unread : (log.tell .frameUnreadable).read < (log.tell .frameUnreadable).write := by
    show log.read < log.write
    rw [stays, stays', read_eq, write_eq]
    exact idle.unread
  have same : (log.tell .frameUnreadable).read = s.log.read := stays.trans read_eq
  have same' : (log.tell .frameUnreadable).write = s.log.write := stays'.trans write_eq
  have moved := Log.quarantine_read unread
  rw [same] at moved
  refine ⟨moved, ?_⟩
  intro further
  rcases Log.quarantine_cases unread with met | ⟨-, write, before⟩
  · have meet : (s.flush.giveUp log).log.read = (s.flush.giveUp log).log.write := met
    rw [meet] at further
    exact absurd further Position.lt_irrefl
  · rw [same, same'] at before
    rw [same'] at write
    have now : (s.flush.giveUp log).log.write = s.log.write := write
    have now' : (s.flush.giveUp log).log.read = s.log.read.nextFile := moved
    simp only [distance, now, now', Position.nextFile]
    omega

theorem skipsOne_giveUp (idle : s.flush.Idle) (read : s.flush.log.readFrame = (.error e, log)) :
    s.SkipsOne (s.flush.giveUp log) := by
  obtain ⟨staged, corruptions, -⟩ := s.flush_rest
  obtain ⟨moved, -⟩ := giveUp_log idle read
  constructor
  case further =>
    rw [moved]
    exact Position.lt_nextFile _
  case next_segment => exact moved
  case counted => exact congrArg (· + 1) corruptions
  case nothing => exact Option.isNone_iff_eq_none.1 idle.1

/-- Settling meets read errors, and in the end the session waits. -/
theorem meets_settle (s : Session) : ∃ errors, s.Meets errors s.settle := by
  have settles := s.settles_settle
  revert settles
  generalize s.settle = t
  intro settles
  induction settles with
  | wait nothing => exact ⟨[], .wait nothing⟩
  | stage idle read => exact ⟨[], .stage idle read⟩
  | again idle read rest ih =>
    obtain ⟨errors, meets⟩ := ih
    exact ⟨_, .again idle read meets⟩

/-- Where nothing is unread, nothing is read. -/
theorem Meets.eq_nil (meets : s.Meets errors t) (read : ¬s.log.read < s.log.write) : errors = [] := by
  cases meets with
  | wait nothing => rfl
  | stage idle found => rfl
  | again idle found rest => exact absurd idle.unread read

/-- **There are not more read errors in a row than segments between the cursors.** -/
theorem Meets.length_le (meets : s.Meets errors t) : errors.length ≤ s.distance + 1 := by
  induction meets with
  | wait nothing => exact Nat.zero_le _
  | stage idle read => exact Nat.zero_le _
  | @again s t e log errors idle read rest ih =>
    rw [List.length_cons]
    by_cases further : (s.flush.giveUp log).log.read < (s.flush.giveUp log).log.write
    · have less := (giveUp_log idle read).2 further
      omega
    · rw [rest.eq_nil further]
      exact Nat.succ_le_succ (Nat.zero_le _)

/-- **Each read error takes the session one segment further.** -/
theorem Meets.chain (meets : s.Meets errors t) : (s :: errors).IsChain SkipsOne := by
  induction meets with
  | wait nothing => exact .singleton _
  | stage idle read => exact .singleton _
  | again idle read rest ih => exact .cons_cons (skipsOne_giveUp idle read) ih

/-! ### What is on offer -/

theorem Offers.mono {m : Bytes} (offers : s.Offers tops m) (more : tops ⊆ tops') : s.Offers tops' m := by
  obtain ⟨top, mem, found⟩ := offers.found
  exact ⟨offers.unread, offers.next, top, more mem, found⟩

theorem InStep.mono (inStep : s.InStep tops) (more : tops ⊆ tops') : s.InStep tops' := by
  refine ⟨inStep.vacant, fun m staged => ?_⟩
  obtain ⟨reads, offers⟩ := inStep.taken m staged
  exact ⟨reads, offers.mono more⟩

/-- Nothing is taken off and no message read where the write cursor alone may move on. -/
theorem InStep.of_eq (inStep : s.InStep tops) (staged : s'.staged = s.staged)
    (config : s'.log.config = s.log.config) (read : s'.log.read = s.log.read)
    (next : s'.log.next = s.log.next) (reader : s'.log.reader = s.log.reader)
    (further : s.log.write ≤ s'.log.write) : s'.InStep tops := by
  constructor
  case vacant =>
    intro vacant
    rw [read]
    exact (inStep.vacant (staged ▸ vacant)).of_eq config reader
  case taken =>
    intro m on_offer
    obtain ⟨reads, offers⟩ := inStep.taken m (staged ▸ on_offer)
    refine ⟨next ▸ reads.of_eq config reader, ?_, ?_, ?_⟩
    · rw [read]
      exact Position.lt_of_lt_of_le offers.unread further
    · rw [read, next, config]
      exact offers.next
    · rw [read]
      exact offers.found

/-- Nothing is on offer and no segment is open for reading. -/
theorem InStep.of_closed (staged : s.staged = none) (closed : s.log.reader = none) : s.InStep tops := by
  refine ⟨fun _ => .of_closed closed, fun m on_offer => ?_⟩
  rw [staged] at on_offer
  cases on_offer

theorem InStep.flush (inStep : s.InStep tops) : s.flush.InStep tops := by
  obtain ⟨config, read, next, write, reader⟩ := s.flush_log
  exact inStep.of_eq s.flush_rest.staged config read next reader (write ▸ Position.le_refl _)

/-- **A session that waits has a message on offer exactly if one is unread.** -/
theorem Meets.inStep (meets : s.Meets errors t) (inStep : s.InStep tops) :
    t.InStep (tops ++ s :: errors) ∧ (t.staged.isSome ↔ t.log.read < t.log.write) := by
  induction meets generalizing tops with
  | @wait s nothing =>
    have flushed := inStep.flush
    refine ⟨flushed.mono (List.subset_append_left ..), ?_⟩
    constructor
    · intro some_
      obtain ⟨m, on_offer⟩ := Option.isSome_iff_exists.1 some_
      exact (flushed.taken m on_offer).2.unread
    · intro unread
      by_contra vacant
      apply nothing
      exact ⟨Option.not_isSome_iff_eq_none.1 vacant ▸ rfl, decide_eq_true unread⟩
  | @stage s m log idle read =>
    obtain ⟨config, read_eq, -, write_eq, reader⟩ := s.flush_log
    obtain ⟨config', stays, stays'⟩ := Log.readFrame_cursors read
    have vacant : s.staged = none := s.flush_rest.staged.symm.trans (Option.isNone_iff_eq_none.1 idle.1)
    have reads : s.log.ReadsAt s.log.read := inStep.vacant vacant
    have flushed : s.flush.log.ReadsAt s.flush.log.read := read_eq ▸ reads.of_eq config reader
    obtain ⟨next, behind⟩ := flushed.readFrame read
    have unread : log.read < log.write := by
      rw [stays, stays', read_eq, write_eq]
      exact idle.unread
    refine ⟨⟨nofun, ?_⟩, fun _ => unread, fun _ => rfl⟩
    intro m' same
    cases same
    refine ⟨behind, unread, ?_, s, ?_, idle, ?_, reads, ?_⟩
    · show log.next = log.read.past log.config.maxBytesPerFile m.length
      rw [stays, config']
      exact next
    · exact List.mem_append_right _ (List.mem_singleton_self s)
    · exact (stays.trans read_eq).symm
    · rw [read]
  | @again s t e log errors idle read rest ih =>
    have skips := skipsOne_giveUp idle read
    obtain ⟨now, offered⟩ := @ih tops
      (.of_closed skips.nothing (Log.reader_quarantine _))
    refine ⟨now.mono ?_, offered⟩
    exact List.append_subset.2
      ⟨List.subset_append_left .., fun top mem => List.mem_append_right _ (List.mem_cons_of_mem _ mem)⟩

/-- **An event that moves the read cursor takes the message off.** -/
theorem InStep.handle (inStep : s.InStep tops) (taken : ¬s.Passes event) :
    (s.handle event).InStep tops := by
  cases event with
  | push m =>
    obtain ⟨config, read, next, reader, further⟩ := s.log.append_cursors m
    exact inStep.of_eq rfl config read next reader further
  | deliver =>
    rcases Option.eq_none_or_eq_some s.staged with vacant | ⟨m, on_offer⟩
    · exact absurd ⟨rfl, vacant⟩ taken
    · obtain ⟨reads, -⟩ := inStep.taken m on_offer
      refine ⟨fun _ => ?_, nofun⟩
      have committed := reads.commit
      show Log.ReadsAt (if s.log.commit.1 then s.log.commit.2.tell .tailReset else s.log.commit.2)
        (if s.log.commit.1 then s.log.commit.2.tell .tailReset else s.log.commit.2).read
      split
      · exact committed.of_eq rfl rfl
      · exact committed
  | clear =>
    obtain ⟨told, eq⟩ := s.log.deleteAll_outcome
    refine .of_closed rfl ?_
    show s.log.deleteAll.2.reader = none
    rw [eq]
    rfl
  | tick =>
    have same : s.handle .tick = { s with log := { s.log with
        needSync := (if 0 < s.dirty then s.log.requestSync else s.log).needSync } } := by
      unfold handle
      simp only
      split
      · rfl
      · rfl
    rw [same]
    exact inStep.of_eq rfl rfl rfl rfl rfl (Position.le_refl _)

/-! ### Runs -/

/-- A session that takes up a record has not read anything. -/
theorem inStep_opening (c : Config) (d : Disk) (r : Record) : (opening c d r).InStep [] := by
  refine .of_closed rfl ?_
  show (Log.ofRecord c d r).reader = none
  obtain ⟨-, told, eq⟩ | ⟨-, depth, sync, told, resets, eq, -⟩ := Log.ofRecord_outcome c d r
  · rw [eq]
    rfl
  · rw [eq]

/-- Every run goes from one top of the loop to the next. -/
theorem loops_run (c : Config) (d : Disk) (r : Record) (events : List Event) :
    let now := ((takingUp c d r).run events).2
    ∃ tops, (opening c d r).Loops events tops now ∧ now.InStep tops ∧
      (now.staged.isSome ↔ now.log.read < now.log.write) := by
  induction events using List.reverseRecOn with
  | nil =>
    obtain ⟨errors, meets⟩ := meets_settle (opening c d r)
    obtain ⟨inStep, offered⟩ := meets.inStep (inStep_opening c d r)
    exact ⟨_, .begin meets, inStep, offered⟩
  | append_singleton events e ih =>
    obtain ⟨tops, loops, inStep, offered⟩ := ih
    rw [run_snoc, step_eq]
    by_cases passes : ((takingUp c d r).run events).2.Passes e
    · rw [if_pos passes]
      exact ⟨tops, .pass loops passes, inStep, offered⟩
    · rw [if_neg passes]
      obtain ⟨errors, meets⟩ := meets_settle (((takingUp c d r).run events).2.handle e)
      obtain ⟨inStep', offered'⟩ := meets.inStep (inStep.handle passes)
      exact ⟨_, .serve loops passes meets, inStep', offered'⟩

/-- **Recovery ends and hides no message.** From any top of its loop a session comes to wait, after no
more read errors in a row than there are segments from the read to the write cursor, each of which takes
it to the next segment. Whatever the record says and the disk holds, and whatever fails on it, a session
that waits has a message on offer exactly if one is unread. It is the one that the session read, from a
top of its loop, where its read cursor still is, and the next message is looked for behind it. -/
theorem recovery_ends (c : Config) (d : Disk) (r : Record) (events : List Event) :
    (∀ top : Session, ∃ errors, top.Meets errors top.settle ∧ errors.length ≤ top.distance + 1 ∧
      (top :: errors).IsChain SkipsOne) ∧
    let now := ((takingUp c d r).run events).2
    (now.staged.isSome ↔ now.log.read < now.log.write) ∧
      ∃ tops, (opening c d r).Loops events tops now ∧ ∀ m, now.staged = some m → now.Offers tops m := by
  constructor
  · intro top
    obtain ⟨errors, meets⟩ := top.meets_settle
    exact ⟨errors, meets, meets.length_le, meets.chain⟩
  · obtain ⟨tops, loops, inStep, offered⟩ := loops_run c d r events
    exact ⟨offered, tops, loops, fun m on_offer => (inStep.taken m on_offer).2⟩

end Session

end DurableQueue
