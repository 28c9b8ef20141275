import DurableQueue.Proofs.Log.Following
import DurableQueue.Proofs.Queue.Opening
import DurableQueue.Proofs.Session.Reach

/-!
# Syncs that fail disturb nothing

A session whose disk fails nothing but syncs does what its sketch does (`Sketched.step`), whenever it
syncs and whatever comes of it. Since a tick does nothing in a sketch, two such sessions that take up
the same record on the same files and are asked for the same things answer the same and keep their
cursors, their depth and the contents of their segments alike, however often each of them is to sync
and however often each of them fails to (`syncs_disturb_nothing`).
-/

namespace DurableQueue

open FileSystem

namespace Session

/-- A session without its disk, which holds `shelf`, and without its syncs. -/
def sketch (s : Session) (shelf : Shelf) : Sketch where
  log := s.log.outline shelf
  staged := s.staged
  corruptions := s.corruptions

/-- The session has a steady log, and is as `k` says. -/
def Sketched (s : Session) (c : Config) (dir : Location) (k : Sketch) : Prop :=
  ∃ shelf, s.log.Steady c dir shelf ∧ s.sketch shelf = k

variable {s : Session} {c : Config} {dir : Location} {k : Sketch} {e : Event} {events : List Event}

/-- What a session counts until the next sync, and what its log tells or asks for, is not in its
sketch. -/
theorem sketched_of_log {log : Log} {o : Outline}
    (h : ∃ shelf, log.Steady c dir shelf ∧ log.outline shelf = o) (sync : Bool) (told : List Notice)
    (dirty : Nat) (staged : Option Bytes) (corruptions : Nat) :
    Sketched { log := { log with needSync := sync, journal := told }, staged, dirty, corruptions } c
      dir ⟨o, staged, corruptions⟩ := by
  obtain ⟨shelf, steady, rfl⟩ := h
  exact ⟨shelf, steady.telling sync told log.tailResets, rfl⟩

namespace Sketched

/-- **A flush is not in the sketch**, whether or not a sync is due and whatever comes of it. -/
theorem flush (h : s.Sketched c dir k) (named : c.Named) : s.flush.Sketched c dir k := by
  obtain ⟨shelf, steady, rfl⟩ := h
  by_cases due : s.Due
  case neg =>
    rw [flush_of_not_due due]
    exact ⟨shelf, steady, rfl⟩
  have kept : ∃ shelf', s.log.requestSync.sync.2.Steady c dir shelf' ∧
      s.log.requestSync.sync.2.outline shelf' = s.log.outline shelf :=
    (steady.telling true s.log.journal s.log.tailResets).sync named
  rw [flush_of_due due]
  revert kept
  cases s.log.requestSync.sync with
  | mk result log =>
    intro kept
    cases result with
    | ok u => exact sketched_of_log kept log.needSync log.journal 0 s.staged s.corruptions
    | error e =>
      exact sketched_of_log kept log.needSync (.syncFailed :: log.journal) 0 s.staged s.corruptions

/-- A frame is staged, or its segment given up, as in the sketch. -/
theorem settleWithin (h : s.Sketched c dir k) (named : c.Named) (rounds : Nat) :
    (s.settleWithin rounds).Sketched c dir (k.settleWithin c rounds) := by
  induction rounds generalizing s k with
  | zero => exact h
  | succ rounds ih =>
    obtain ⟨t, flushed⟩ : ∃ t, s.flush = t := ⟨_, rfl⟩
    have kept := h.flush named
    rw [flushed] at kept
    rw [settleWithin_of_flush flushed, Sketch.settleWithin]
    obtain ⟨shelf, steady, rfl⟩ := kept
    by_cases reads : t.staged.isNone ∧ t.log.hasUnread
    case neg =>
      have blocked : (t.sketch shelf).Blocked := reads
      rw [if_neg reads, if_pos blocked]
      exact ⟨shelf, steady, rfl⟩
    have busy : ¬(t.sketch shelf).Blocked := not_not.2 reads
    have outline : (t.sketch shelf).log = t.log.outline shelf := rfl
    rw [if_pos reads, if_neg busy, outline]
    obtain ⟨unread, e, d, failed, calm⟩ | ⟨m, log', read, frame, steady', -⟩ := steady.readFrame named
    · obtain ⟨left, left_eq⟩ : ∃ left : Log, left = { t.log with
          disk := d, reader := none, journal := .frameUnreadable :: t.log.journal } := ⟨_, rfl⟩
      have told : left.Steady c dir shelf := by
        rw [left_eq]
        exact ⟨steady.config, calm, steady.ordered, fun _ closed => absurd closed (Option.not_mem_none _),
          steady.writer⟩
      have closed : left.outline shelf = { t.log.outline shelf with reader := none } := by
        rw [left_eq]
        rfl
      obtain ⟨shelf', aside, eq⟩ := told.quarantine named
      rw [closed, Outline.quarantine_closed] at eq
      have given := sketched_of_log ⟨shelf', aside, eq⟩ left.quarantine.needSync
        left.quarantine.journal t.dirty t.staged (t.corruptions + 1)
      have told_eq : ({ t.log with disk := d, reader := none } : Log).tell .frameUnreadable = left :=
        left_eq.symm
      rw [failed, unread]
      simp only [told_eq]
      exact ih given
    · rw [frame, read]
      exact ⟨shelf, steady', rfl⟩

theorem settle (h : s.Sketched c dir k) (named : c.Named) :
    s.settle.Sketched c dir (k.settle c) := by
  have distance : s.distance = k.log.write.file - k.log.read.file := by
    obtain ⟨shelf, -, rfl⟩ := h
    rfl
  rw [Session.settle, distance]
  exact h.settleWithin named _

/-- **One event does to a session what it does to its sketch**, and is answered alike. -/
theorem step (h : s.Sketched c dir k) (named : c.Named) (blocked : k.Blocked)
    (reach : (∃ m, e = .push m) → s.InReach) :
    (s.step e).1 = (k.step c e).1 ∧ (s.step e).2.Sketched c dir (k.step c e).2 := by
  obtain ⟨shelf, steady, rfl⟩ := h
  cases e with
  | push m =>
    obtain ⟨answer, appended⟩ := steady.append named (reach ⟨m, rfl⟩) m
    obtain ⟨log, log_eq⟩ : ∃ log, log = (s.log.append m).2 := ⟨_, rfl⟩
    rw [← log_eq] at appended
    have done := (sketched_of_log appended log.needSync log.journal (s.dirty + 1) s.staged
      s.corruptions).settle named
    rw [log_eq] at done
    exact ⟨congrArg Answer.pushed answer, done⟩
  | deliver =>
    have staged : (s.sketch shelf).staged = s.staged := rfl
    rw [Session.step, Sketch.step, staged, Session.deliver]
    cases s.staged with
    | none => exact ⟨rfl, shelf, steady, rfl⟩
    | some m =>
      have committed := steady.commit named
      obtain ⟨told, log_eq⟩ : ∃ told, (if s.log.commit.1 then s.log.commit.2.tell .tailReset
          else s.log.commit.2) = { s.log.commit.2 with journal := told } := by
        split
        · exact ⟨_, rfl⟩
        · exact ⟨_, rfl⟩
      have done := (sketched_of_log committed s.log.commit.2.needSync told (s.dirty + 1) none
        s.corruptions).settle named
      refine ⟨rfl, ?_⟩
      simp only [Option.map_some]
      rw [log_eq]
      exact done
  | clear =>
    have deleted := steady.deleteAll named
    have outline : (s.sketch shelf).log = s.log.outline shelf := rfl
    rw [Session.step, Session.clear, Sketch.step, outline]
    revert deleted
    cases s.log.deleteAll with
    | mk result log =>
      cases (s.log.outline shelf).deleteAll c with
      | mk result' o =>
        rintro ⟨answer, deleted⟩
        exact ⟨congrArg Answer.cleared answer, (sketched_of_log deleted true
          (.cleared :: log.journal) 0 none s.corruptions).settle named⟩
  | tick =>
    have settled := Sketch.settle_eq_self (c := c) blocked
    obtain ⟨sync, asked⟩ : ∃ sync, (if 0 < s.dirty then s.log.requestSync else s.log) =
        { s.log with needSync := sync } := by
      split
      · exact ⟨true, rfl⟩
      · exact ⟨s.log.needSync, rfl⟩
    have done := (sketched_of_log ⟨shelf, steady, rfl⟩ sync s.log.journal s.dirty s.staged
      s.corruptions).settle named
    refine ⟨rfl, ?_⟩
    rw [Session.step, Session.tick, asked, Sketch.step]
    rw [← settled]
    exact done

theorem run (h : s.Sketched c dir k) (named : c.Named) (blocked : k.Blocked)
    (reach : s.StaysInReach events) :
    (s.run events).1 = (k.run c events).1 ∧ (s.run events).2.Sketched c dir (k.run c events).2 := by
  induction events generalizing s k with
  | nil => exact ⟨rfl, h⟩
  | cons e events ih =>
    obtain ⟨answer, stepped⟩ := h.step named blocked reach.1
    obtain ⟨answers, done⟩ := ih stepped (Sketch.step_blocked blocked e) reach.2
    exact ⟨congr (congrArg List.cons answer) answers, done⟩

end Sketched

/-! ### Two runs -/

/-- Whether an event is a tick, and not a request or a delivery. -/
def Event.isTick : Event → Bool
  | .tick => true
  | .push _ | .deliver | .clear => false

/-- What the requests and deliveries were answered with. -/
def replies (answers : List Answer) : List Answer :=
  answers.filter fun
    | .ticked => false
    | .pushed _ | .delivered _ | .cleared _ => true

/-- Ticks change nothing in a sketch. -/
theorem run_without_ticks (c : Config) (k : Sketch) (events : List Event) :
    replies (k.run c events).1 = (k.run c (events.filter fun e => !e.isTick)).1 ∧
      (k.run c events).2 = (k.run c (events.filter fun e => !e.isTick)).2 := by
  induction events generalizing k with
  | nil => exact ⟨rfl, rfl⟩
  | cons e events ih =>
    obtain ⟨answers, done⟩ := ih (k.step c e).2
    cases e with
    | tick => exact ⟨answers, done⟩
    | push m => exact ⟨congrArg (List.cons _) answers, done⟩
    | deliver => exact ⟨congrArg (List.cons _) answers, done⟩
    | clear => exact ⟨congrArg (List.cons _) answers, done⟩

/-- How often the session is to sync is not in its sketch. -/
theorem sketched_takingUp {d : Disk} {shelf : Shelf} (calm : d.Calm c dir shelf) (named : c.Named)
    (r : Record) (every timeout : Nat) :
    (takingUp { c with syncEvery := every, syncTimeout := timeout } d r).Sketched c dir
      (.start c (.ofRecord c (View.of shelf).segments
        (fun k => (shelf (.quarantined k)).map (·.2.contents)) r)) := by
  obtain ⟨log, log_eq⟩ : ∃ log, log = Log.ofRecord { c with
    syncEvery := every, syncTimeout := timeout } d r := ⟨_, rfl⟩
  have taken := Log.steady_ofRecord calm named r every timeout
  rw [← log_eq] at taken
  rw [takingUp, ← log_eq]
  exact (sketched_of_log taken log.needSync (.loopStarted :: .opening :: log.journal) 0 none
    0).settle named

/-- The same is on offer, the cursors and the depth are the same, and the segments hold the same. -/
structure Matches (s s' : Session) (c : Config) (dir : Location) : Prop where
  staged : s'.staged = s.staged
  read : s'.log.read = s.log.read
  write : s'.log.write = s.log.write
  depth : s'.log.depth = s.log.depth
  segments : (View.of (s'.log.disk.tree.shelf c dir)).segments =
    (View.of (s.log.disk.tree.shelf c dir)).segments

theorem Sketched.matches {s' : Session} (h : s.Sketched c dir k) (h' : s'.Sketched c dir k) :
    s.Matches s' c dir := by
  obtain ⟨shelf, steady, rfl⟩ := h
  obtain ⟨shelf', steady', same⟩ := h'
  have log : s'.log.outline shelf' = s.log.outline shelf := congrArg Sketch.log same
  constructor
  case staged => exact congrArg Sketch.staged same
  case read => exact congrArg Outline.read log
  case write => exact congrArg Outline.write log
  case depth => exact congrArg Outline.depth log
  case segments =>
    rw [steady.calm.shelf_eq, steady'.calm.shelf_eq]
    exact congrArg Outline.segments log

/-- **Syncs that fail disturb nothing.** Two sessions take up the same record on the same files, which
are regular files each under one name, and are asked for the same things. How often each is to sync,
when its clock ticks, and which of the calls of its syncs fail, makes no difference to what it
answers, to its cursors and its depth, and to what its segments hold. That no segment is written to
where no file can be is part of that other calls do not fail; it is so if segments may not grow so
large (`staysInReach_takingUp`). -/
theorem syncs_disturb_nothing {d d' : Disk} {r : Record} {every every' timeout timeout' : Nat}
    {events events' : List Event} (named : c.Named) (homes : d.tree.Homes c dir)
    (tree : d'.tree = d.tree) (plan : d.OnlySyncsFail c) (plan' : d'.OnlySyncsFail c)
    (same : (events.filter fun e => !e.isTick) = events'.filter fun e => !e.isTick)
    (reach : (takingUp { c with syncEvery := every, syncTimeout := timeout } d r).StaysInReach events)
    (reach' : (takingUp { c with syncEvery := every', syncTimeout := timeout' } d' r).StaysInReach
      events') :
    let run := (takingUp { c with syncEvery := every, syncTimeout := timeout } d r).run events
    let run' := (takingUp { c with syncEvery := every', syncTimeout := timeout' } d' r).run events'
    replies run'.1 = replies run.1 ∧ run.2.Matches run'.2 c dir := by
  intro run run'
  have calm : d.Calm c dir (d.tree.shelf c dir) := ⟨plan, homes, rfl⟩
  have calm' : d'.Calm c dir (d.tree.shelf c dir) := ⟨plan', tree ▸ homes, by rw [tree]⟩
  obtain ⟨k, k_eq⟩ : ∃ k, k = Sketch.start c (.ofRecord c (View.of (d.tree.shelf c dir)).segments
    (fun k => (d.tree.shelf c dir (.quarantined k)).map (·.2.contents)) r) := ⟨_, rfl⟩
  have blocked : k.Blocked := by
    rw [k_eq]
    exact Sketch.settle_blocked
  have first := sketched_takingUp calm named r every timeout
  have second := sketched_takingUp calm' named r every' timeout'
  rw [← k_eq] at first second
  obtain ⟨answers, done⟩ := first.run named blocked reach
  obtain ⟨answers', done'⟩ := second.run named blocked reach'
  obtain ⟨told, left⟩ := run_without_ticks c k events
  obtain ⟨told', left'⟩ := run_without_ticks c k events'
  rw [← same] at told' left'
  rw [left] at done
  rw [left'] at done'
  exact ⟨by rw [answers, answers', told, told'], done.matches done'⟩

/-- A disk with an empty directory on which nothing can be brought to the medium. -/
def unsteady : Disk where
  tree := Disk.blank.tree
  faults _ call := match call with
    | .sync _ => some { error := .other }
    | _ => none

/-- A queue that is to sync at every chance, and fails to, and one that never does. -/
theorem syncs_disturb_nothing_narrow :
    Disk.blank.tree.Homes .narrow [.text "data"] ∧ Disk.blank.OnlySyncsFail .narrow ∧
      unsteady.OnlySyncsFail .narrow ∧
      let run := (takingUp { Config.narrow with syncEvery := 20 } .blank {}).run
        [.push [97], .push [98], .push [99], .deliver, .tick, .deliver]
      let run' := (takingUp { Config.narrow with syncEvery := 1 } unsteady {}).run
        [.push [97], .tick, .push [98], .push [99], .deliver, .deliver]
      replies run'.1 = replies run.1 ∧ run.2.Matches run'.2 .narrow [.text "data"] := by
  have homes := Disk.blank_fresh.hosts.homes
  have plan : Disk.blank.OnlySyncsFail .narrow := fun _ _ _ => rfl
  have plan' : unsteady.OnlySyncsFail .narrow := by
    intro n call other
    cases call with
    | sync path => exact absurd trivial other
    | _ => rfl
  exact ⟨homes, plan, plan', syncs_disturb_nothing Config.narrow_sound.named homes rfl plan plan' rfl
    (staysInReach_takingUp _ _ (by decide)) (staysInReach_takingUp _ _ (by decide))⟩

/-- The message that a delivery handed over. -/
def Answer.message : Answer → Option Bytes
  | .delivered message => message
  | .pushed _ | .cleared _ | .ticked => none

/-- A directory in which the first segment leads to the record. -/
def linked : Disk where
  tree := { entries := [([.text "data"], .directory),
    (Tree.place .narrow [.text "data"] (.segment 0), .link "q.queue.meta.dat")] }

/-- A sync that stores the record puts it in the place of a segment that leads to it. The message in
that segment is lost, which is delivered if no sync is due. -/
theorem disturbed_through_link :
    linked.OnlySyncsFail .narrow ∧
      ((takingUp { Config.narrow with syncEvery := 20 } linked {}).run
        [.push [97], .deliver]).1.filterMap Answer.message = [[97]] ∧
      ((takingUp { Config.narrow with syncEvery := 1 } linked {}).run
        [.push [97], .deliver]).1.filterMap Answer.message = [] := by
  refine ⟨fun _ _ _ => rfl, ?_, ?_⟩
  · decide +kernel
  · decide +kernel

end Session

end DurableQueue
