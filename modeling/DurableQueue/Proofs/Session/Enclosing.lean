import DurableQueue.Proofs.Session.Taking

/-!
# Segments between the cursors of the record

A process that finds a record knows of no other segments than those between its cursors. A stock is
`Enclosed` if it holds no others. If nothing fails, a session that takes up an enclosed stock leaves an
enclosed one at every moment: of its opening (`Encloses.opens`), of each event before which no sync has
failed (`Encloses.serves`), and of its end (`Encloses.ends`).

What carries this is that no segment ever lies outside the cursors of the session itself (`Log.Tight`),
and that the record reads no later and writes in the same segment whenever the session waits
(`Session.Recorded`): a push makes a segment only there.
-/

namespace DurableQueue

open FileSystem

/-- Each segment lies between the cursors of the record that is taken up. -/
def Stock.Enclosed (σ : Stock) : Prop :=
  ∃ r, Record.Kept σ.record r ∧ r.read ≤ r.write ∧
    ∀ k, σ.segments k → r.read.file ≤ k ∧ k ≤ r.write.file

/-- Fewer segments lie between the cursors as well. -/
theorem Stock.enclosed_hereditary : Hereditary Stock.Enclosed := fun _ _ le enclosed => by
  obtain ⟨r, kept, ordered, within⟩ := enclosed
  exact ⟨r, le.1 ▸ kept, ordered, fun k there => within k (le.2 k there)⟩

/-- Without segments nothing has to be told of them. -/
theorem Stock.enclosed_of_none {σ : Stock} (gone : ∀ k, ¬σ.segments k) :
    Stock.Enclosed { σ with record := none } :=
  ⟨{}, Or.inl ⟨rfl, rfl⟩, Position.le_refl _, fun k there => absurd there (gone k)⟩

namespace Session

variable {s : Session} {c : Config} {d : Disk} {dir : Location} {r : Record} {e : Event}
  {events : List Event}

/-- The record of a session that waits reads no later than the session, and writes in the same
segment. -/
def Recorded (s : Session) (dir : Location) : Prop :=
  ∃ r, Record.Kept (s.log.stock dir).record r ∧ r.read ≤ r.write ∧
    r.read.file ≤ s.log.read.file ∧ r.write.file = s.log.write.file

/-- A session whose own record is taken up. -/
theorem recorded_of_kept (ordered : s.log.InOrder)
    (kept : Record.Kept (s.log.stock dir).record s.log.record) : s.Recorded dir :=
  ⟨s.log.record, kept, ordered.read_le_write, Nat.le_refl _, rfl⟩

/-- The segment at the write cursor may be made. -/
theorem Recorded.enclosed (recorded : s.Recorded dir) (tight : s.log.Tight dir) :
    ((s.log.stock dir).insert s.log.write.file).Enclosed := by
  obtain ⟨r, kept, ordered, read, write⟩ := recorded
  refine ⟨r, kept, ordered, fun k there => ?_⟩
  rcases there with rfl | old
  · exact ⟨write ▸ Position.file_le ordered, Nat.le_of_eq write.symm⟩
  · obtain ⟨low, high⟩ := tight.within k old
    exact ⟨Nat.le_trans read low, write ▸ high⟩

/-- A session takes up a record between whose cursors all segments lie, and nothing is planned to
fail. -/
structure Encloses (c : Config) (d : Disk) (dir : Location) (r : Record) : Prop
    extends Takes c d dir r where
  sound : c.Sound
  faultless : d.Faultless
  ordered : r.read ≤ r.write
  within : ∀ k, (d.tree.stock c dir).segments k → r.read.file ≤ k ∧ k ≤ r.write.file

namespace Encloses

variable (h : Encloses c d dir r)
include h

theorem enclosed : (d.tree.stock c dir).Enclosed := ⟨r, h.kept, h.ordered, h.within⟩

theorem tight_opening : (opening c d r).log.Tight dir := by
  obtain ⟨crossed, -⟩ | ⟨-, depth, sync, told, resets, eq, -⟩ := Log.ofRecord_outcome c d r
  · exact absurd (Position.lt_of_le_of_lt h.ordered crossed) Position.lt_irrefl
  · have log : (opening c d r).log = ((Log.ofRecord c d r).tell .opening).tell .loopStarted := rfl
    rw [log, eq]
    exact ⟨h.faultless, h.within, Nat.le_succ _⟩

/-- No segment lies outside the cursors of the session. -/
theorem tight {log log' : Log} (lead : (opening c d r).log.Leads log) (further : log.Leads log')
    (small : log'.write.file < Word.limit) : log.Tight dir := by
  have ordered := inOrder_opening c d r
  have onward := ((ordered.leads lead).1.leads further).2
  refine h.tight_opening.leads h.begins.1 ?_ ordered lead
    (Nat.lt_of_le_of_lt (Position.file_le onward.write) small)
  rw [config_opening]
  exact h.sound

/-- The session stores a record between whose cursors the segments lie that lie between its own. -/
theorem stored {log log' : Log} (lead : (opening c d r).log.Leads log) (further : log.Leads log')
    (small : log'.write.file < Word.limit) {σ : Stock}
    (within : ∀ k, σ.segments k → log.read.file ≤ k ∧ k ≤ log.write.file) :
    Stock.Enclosed { σ with record := some (Text.encode log.record.text) } :=
  ⟨log.record, Record.kept_text (h.inWords lead further small),
    ((inOrder_opening c d r).leads lead).1.read_le_write, within⟩

/-- **While a session opens, the segments lie between the cursors of the record.** -/
theorem opens (small : (takingUp c d r).log.write.file < Word.limit) :
    Disk.Through c dir Stock.Enclosed d (takingUp c d r).log.disk :=
  h.opening_since Stock.enclosed_hereditary h.enclosed fun _ lead further _ =>
    h.stored lead further small (h.tight lead further small).within

/-- Whenever a session waits, its record writes in the segment in which the session writes. -/
theorem recorded (small : ((takingUp c d r).run events).2.log.write.file < Word.limit)
    (none : ((takingUp c d r).run events).2.log.NoSyncFailed) :
    ((takingUp c d r).run events).2.Recorded dir := by
  induction events using List.reverseRecOn with
  | nil =>
    exact recorded_of_kept (inOrder_takingUp c d r []) (h.kept_begun small none).2
  | append_singleton events e ih =>
    have step := leads_step ((takingUp c d r).run events).2 e
    have advances := advances_step (e := e) (h.housed events) (h.named_run events)
    rw [← run_snoc] at step advances
    obtain ⟨r', kept, ordered, read, write⟩ :=
      ih (small_of_leads events step small) (none.before step.tells)
    rcases advances with landed | deferred | failed
    · exact recorded_of_kept (inOrder_takingUp c d r _) (h.kept_of_landed _ small landed)
    · have onward := ((inOrder_takingUp c d r events).leads step).2
      refine ⟨r', ?_, ordered, Nat.le_trans read (Position.file_le onward.read),
        write.trans deferred.write.symm⟩
      rw [deferred.stored]
      exact kept
    · exact absurd none failed

/-- Whenever a session waits, the segments lie between the cursors of the record. -/
theorem enclosed_run (small : ((takingUp c d r).run events).2.log.write.file < Word.limit)
    (none : ((takingUp c d r).run events).2.log.NoSyncFailed) :
    (((takingUp c d r).run events).2.log.stock dir).Enclosed :=
  Stock.enclosed_hereditary (Stock.le_insert _ _)
    ((h.recorded small none).enclosed (h.tight (leads_takingUp c d r events) .refl small))

/-- Once everything is deleted there are no segments. -/
theorem deleted (small : ((takingUp c d r).run events).2.log.write.file < Word.limit) :
    Stock.Enclosed { ((takingUp c d r).run events).2.log.swept.tree.stock
      ((takingUp c d r).run events).2.log.config dir with record := none } := by
  refine Stock.enclosed_of_none ((h.housed events).none_swept (P := fun _ => True) (h.named_run events)
    (fun _ _ _ => id) trivial ?_ small (h.tight (leads_takingUp c d r events) .refl small))
  rw [config_takingUp]
  exact h.sound

/-- **While a session serves an event, the segments lie between the cursors of the record**, if no sync
has failed before. -/
theorem serves (none : ((takingUp c d r).run events).2.log.NoSyncFailed)
    (small : (((takingUp c d r).run events).2.step e).2.log.write.file < Word.limit) :
    Log.Goes dir Stock.Enclosed ((takingUp c d r).run events).2.log
      (((takingUp c d r).run events).2.step e).2.log := by
  have step := leads_step ((takingUp c d r).run events).2 e
  have lead := leads_takingUp c d r events
  have ordered := inOrder_takingUp c d r events
  have first := small_of_leads events step small
  have tight := h.tight lead step small
  have may := (h.recorded first none).enclosed tight
  refine step_through (h.housed events) (h.named_run events) Stock.enclosed_hereditary
    (h.enclosed_run first none) ?_ (fun _ => h.deleted first) fun n before further _ =>
      h.stored (lead.trans before) further small (h.tight (lead.trans before) further small).within
  intro m push
  subst push
  generalize ((takingUp c d r).run events).2 = s at *
  refine ⟨may, h.stored (lead.trans (s.leads_handle (.push m))) (s.leads_push m) small
    fun k there => ?_⟩
  -- the read cursor stays, and the write cursor goes on from the segment that is made
  have onward := Position.file_le (ordered.append (m := m)).2.write
  obtain ⟨d', write, depth, sync, told, w, rest⟩ := s.log.append_rest m
  have read : (s.handle (.push m)).log.read = s.log.read := by
    rw [handle, rest]
  rw [read]
  rcases there with rfl | old
  · exact ⟨Position.file_le ordered.read_le_write, onward⟩
  · obtain ⟨low, high⟩ := tight.within k old
    exact ⟨low, Nat.le_trans high onward⟩

/-- **While a session ends, the segments lie between the cursors of the record**, be it that it closes
or that it deletes everything. -/
theorem ends (none : ((takingUp c d r).run events).2.log.NoSyncFailed)
    (small : ((takingUp c d r).run events).2.log.write.file < Word.limit) (mode : ExitMode) :
    Log.Goes dir Stock.Enclosed ((takingUp c d r).run events).2.log
      (((takingUp c d r).run events).2.finish mode).2.log := by
  have lead := leads_takingUp c d r events
  have tight := h.tight lead .refl small
  exact finish_through (h.housed events) (h.named_run events) Stock.enclosed_hereditary
    (h.enclosed_run small none) (fun _ => h.stored lead .refl small tight.within) fun _ => h.deleted small

end Encloses

end Session

end DurableQueue
