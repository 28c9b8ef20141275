import DurableQueue.Proofs.Log.Outcomes
import DurableQueue.Proofs.Log.Watched

/-!
# The order of the cursors

Whatever a record says, whatever the disk holds, whatever fails and whatever is asked of the log in
whatever order, its cursors are in order (`Log.InOrder`) and none of them goes back (`Log.Onward`).
Each operation is taken from what it can come to; only a look at the tail has cases of its own
(`Tail.inOrder`), and there a read cursor that was led past the write cursor by what a segment holds
is put right.
-/

namespace DurableQueue

open FileSystem

namespace Log

/-- The read cursor has passed neither the write cursor nor `next`, and once all is read nothing is
waiting. -/
structure InOrder (log : Log) : Prop where
  read_le_write : log.read ≤ log.write
  read_le_next : log.read ≤ log.next
  meet : log.read = log.write → log.depth = 0

/-- Neither cursor of `log'` lies before that of `log`. -/
structure Onward (log log' : Log) : Prop where
  read : log.read ≤ log'.read
  write : log.write ≤ log'.write

variable {log log' log'' : Log} {r : Request} {m : Bytes}

theorem Onward.refl (log : Log) : log.Onward log := ⟨Position.le_refl _, Position.le_refl _⟩

theorem Onward.trans (first : log.Onward log') (second : log'.Onward log'') : log.Onward log'' :=
  ⟨Position.le_trans first.read second.read, Position.le_trans first.write second.write⟩

/-- A log is in order and onward of another if it stands where a log that is stands. -/
theorem InOrder.of_eq (h : log.InOrder) (read : log'.read = log.read) (next : log'.next = log.next)
    (write : log'.write = log.write) (depth : log'.depth = log.depth) : log'.InOrder where
  read_le_write := by
    rw [read, write]
    exact h.read_le_write
  read_le_next := by
    rw [read, next]
    exact h.read_le_next
  meet := by
    rw [read, write, depth]
    exact h.meet

theorem inOrder_fresh (log : Log) {d : Disk} {sync : Bool} {told : List Notice} {resets : Nat} :
    InOrder { log.fresh with disk := d, needSync := sync, journal := told, tailResets := resets } where
  read_le_write := Position.le_refl _
  read_le_next := Position.le_refl _
  meet _ := rfl

/-- A fresh segment lies after both cursors. -/
theorem onward_fresh (log : Log) {d : Disk} {sync : Bool} {told : List Notice} {resets : Nat} :
    log.Onward { log.fresh with
      disk := d, needSync := sync, journal := told, tailResets := resets } := by
  constructor
  · simp only [Position.le_iff, fresh]
    omega
  · simp only [Position.le_iff, fresh]
    omega

/-- A look at the tail puts the cursors in order, whatever the depth was. -/
theorem Tail.inOrder (tail : log.Tail log') (ahead : log.read ≤ log.next) : log'.InOrder := by
  cases tail with
  | unread behind =>
    refine ⟨Position.le_of_lt behind, ahead, fun meet => ?_⟩
    rw [meet] at behind
    exact absurd behind Position.lt_irrefl
  | met meet sync told resets => exact ⟨meet ▸ Position.le_refl _, ahead, fun _ => rfl⟩
  | crossed past told resets => exact log.inOrder_fresh

theorem Tail.onward (tail : log.Tail log') : log.Onward log' := by
  cases tail with
  | unread behind => exact .refl log
  | met meet sync told resets => exact ⟨Position.le_refl _, Position.le_refl _⟩
  | crossed past told resets => exact log.onward_fresh

/-- An append takes the write cursor past the read cursor. -/
theorem InOrder.append (h : log.InOrder) :
    (log.append m).2.InOrder ∧ log.Onward (log.append m).2 := by
  have outcome := log.append_outcome m
  revert outcome
  generalize log.append m = out
  intro outcome
  cases outcome with
  | refused rejected => exact ⟨h, .refl log⟩
  | closed path e d opens =>
    exact ⟨h.of_eq rfl rfl rfl rfl, Position.le_refl _, Position.le_refl _⟩
  | failed x e d tree by_ opens =>
    exact ⟨h.of_eq rfl rfl rfl rfl, Position.le_refl _, Position.le_refl _⟩
  | made x d d' tree sync told within by_ opens rolls =>
    have further : log.write < (log.appended m).write := Position.lt_past
    refine ⟨⟨Position.le_trans h.read_le_write (Position.le_of_lt further), h.read_le_next,
      fun meet => ?_⟩, Position.le_refl _, Position.le_of_lt further⟩
    have behind : log.read < (log.appended m).write :=
      Position.lt_of_le_of_lt h.read_le_write further
    rw [show log.read = (log.appended m).write from meet] at behind
    exact absurd behind Position.lt_irrefl

/-- Reading moves `next` alone. -/
theorem InOrder.readFrame (h : log.InOrder) :
    log.readFrame.2.InOrder ∧ log.Onward log.readFrame.2 := by
  obtain ⟨m, d, reader, eq, -⟩ | ⟨e, d, reader, eq, -⟩ := log.readFrame_outcome
  · rw [eq]
    exact ⟨⟨h.read_le_write, Position.le_of_lt Position.lt_past, h.meet⟩, Position.le_refl _,
      Position.le_refl _⟩
  · rw [eq]
    exact ⟨h.of_eq rfl rfl rfl rfl, Position.le_refl _, Position.le_refl _⟩

/-- What was read may have led `next` past the write cursor; the look at the tail sees to that. -/
theorem InOrder.commit (h : log.InOrder) : log.commit.2.InOrder ∧ log.Onward log.commit.2 := by
  obtain ⟨sync, told, tail⟩ := log.commit_outcome
  refine ⟨tail.inOrder (Position.le_refl _), Onward.trans ?_ tail.onward⟩
  exact ⟨h.read_le_next, Position.le_refl _⟩

/-- Both cursors are in the next segment at the latest once the segment that is read is set
aside. -/
theorem inOrder_quarantine (log : Log) :
    log.quarantine.InOrder ∧ log.Onward log.quarantine := by
  obtain ⟨told, tail⟩ := log.quarantine_outcome
  refine ⟨tail.inOrder (Position.le_refl _), Onward.trans ?_ tail.onward⟩
  refine ⟨Position.le_of_lt (Position.lt_nextFile _), ?_⟩
  split
  · exact Position.le_of_lt (Position.lt_nextFile _)
  · exact Position.le_refl _

/-- **Every request keeps the cursors in order and takes none of them back.** -/
theorem InOrder.serve (h : log.InOrder) (r : Request) :
    (log.serve r).InOrder ∧ log.Onward (log.serve r) := by
  cases r with
  | append m => exact h.append
  | read => exact h.readFrame
  | commit => exact h.commit
  | quarantine => exact log.inOrder_quarantine
  | skip =>
    obtain ⟨told, eq⟩ := log.skip_outcome
    rw [Log.serve, eq]
    exact ⟨log.inOrder_fresh, log.onward_fresh⟩
  | deleteAll =>
    obtain ⟨told, eq⟩ := log.deleteAll_outcome
    rw [Log.serve, eq]
    exact ⟨log.inOrder_fresh, log.onward_fresh⟩
  | sync =>
    obtain ⟨d, sync, told, w, eq⟩ := log.sync_rest
    rw [Log.serve, eq]
    exact ⟨h.of_eq rfl rfl rfl rfl, Position.le_refl _, Position.le_refl _⟩
  | requestSync | closeFiles =>
    exact ⟨h.of_eq rfl rfl rfl rfl, Position.le_refl _, Position.le_refl _⟩

/-- Requests in turn. -/
def serveAll (log : Log) : List Request → Log
  | [] => log
  | r :: requests => (log.serve r).serveAll requests

theorem InOrder.serveAll (h : log.InOrder) (requests : List Request) :
    (log.serveAll requests).InOrder ∧ log.Onward (log.serveAll requests) := by
  induction requests generalizing log with
  | nil => exact ⟨h, .refl log⟩
  | cons r requests ih =>
    obtain ⟨once, first⟩ := h.serve r
    obtain ⟨all, rest⟩ := ih once
    exact ⟨all, first.trans rest⟩

/-- Whatever a record says, the log that takes it up is in order. -/
theorem inOrder_ofRecord (c : Config) (d : Disk) (r : Record) : (ofRecord c d r).InOrder := by
  obtain ⟨-, told, eq⟩ | ⟨le, depth, sync, told, resets, eq, meet⟩ :=
    ofRecord_outcome c d r
  · rw [eq]
    exact inOrder_fresh _
  · rw [eq]
    exact ⟨le, Position.le_refl _, meet⟩

/-- **The cursors stay in order and never go back.** Whatever the record says, whatever the disk
holds and whatever fails on it, a log is in order after any requests in any order; no further
request takes either cursor back. -/
theorem cursors_in_order (c : Config) (d : Disk) (r : Record) (requests : List Request) :
    ((ofRecord c d r).serveAll requests).InOrder ∧
      ∀ request, ((ofRecord c d r).serveAll requests).Onward
        (((ofRecord c d r).serveAll requests).serve request) := by
  have ordered := ((inOrder_ofRecord c d r).serveAll requests).1
  exact ⟨ordered, fun request => (ordered.serve request).2⟩

end Log

end DurableQueue
