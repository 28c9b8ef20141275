import DurableQueue.Proofs.Session.Storing
import Mathlib.Data.List.Induction

/-!
# Sessions that take up a record

A session begins with the record that is found on its disk (`Session.Takes`). Wherever its events lead,
the queue's files stay its own (`Takes.housed`), what it stores can be read back as long as its segments
are not too many (`Takes.inWords`), and whenever it waits, less is left to be synced than makes a sync
due (`dirty_lt`). What is taken up from its files is told from the bytes of its record
(`Takes.persists_run`).
-/

namespace DurableQueue

open FileSystem

namespace Session

variable {c : Config} {d : Disk} {dir : Location} {r r' : Record} {events : List Event} {P : Stock → Prop}

theorem leads_takingUp (c : Config) (d : Disk) (r : Record) (events : List Event) :
    (opening c d r).log.Leads ((takingUp c d r).run events).2.log :=
  (settles_settle (opening c d r)).leads.trans (leads_run _ events)

theorem config_opening (c : Config) (d : Disk) (r : Record) : (opening c d r).log.config = c :=
  (Log.closed_ofRecord c d r).2

theorem inOrder_opening (c : Config) (d : Disk) (r : Record) : (opening c d r).log.InOrder :=
  (Log.inOrder_ofRecord c d r).of_eq rfl rfl rfl rfl

theorem config_takingUp (c : Config) (d : Disk) (r : Record) (events : List Event) :
    ((takingUp c d r).run events).2.log.config = c :=
  (leads_takingUp c d r events).config_eq.trans (config_opening c d r)

theorem inOrder_takingUp (c : Config) (d : Disk) (r : Record) (events : List Event) :
    ((takingUp c d r).run events).2.log.InOrder :=
  ((inOrder_opening c d r).leads (leads_takingUp c d r events)).1

/-- A session that has not too many segments had not too many before. -/
theorem small_of_leads {log : Log} (events : List Event)
    (lead : ((takingUp c d r).run events).2.log.Leads log)
    (small : log.write.file < Word.limit) :
    ((takingUp c d r).run events).2.log.write.file < Word.limit :=
  Nat.lt_of_le_of_lt (Position.file_le ((inOrder_takingUp c d r events).leads lead).2.write) small

/-- Whenever a session waits, less is left to be synced than makes a sync due. -/
theorem dirty_lt (every : 0 < c.syncEvery) (d : Disk) (r : Record) (events : List Event) :
    ((takingUp c d r).run events).2.dirty < c.syncEvery := by
  induction events using List.reverseRecOn with
  | nil =>
    have config := config_opening c d r
    have settled := (settles_settle (opening c d r)).dirty_lt (by rw [config]; exact every)
    rw [config] at settled
    exact settled
  | append_singleton events e ih =>
    have config : (((takingUp c d r).run events).2.handle e).log.config = c :=
      (leads_handle _ e).config_eq.trans (config_takingUp c d r events)
    have settled := (settles_settle (((takingUp c d r).run events).2.handle e)).dirty_lt
      (by rw [config]; exact every)
    rw [config] at settled
    rw [run_snoc, step_eq]
    split
    · exact ih
    · exact settled

/-- A session takes up the record that is found on a disk on which the queue's files are its own. -/
structure Takes (c : Config) (d : Disk) (dir : Location) (r : Record) : Prop where
  named : c.Named
  limit : c.maxBytesPerFile < Word.limit
  homes : d.tree.Homes c dir
  found : d.tree.Persists c r

namespace Takes

variable (takes : Takes c d dir r)
include takes

theorem short : c.isLong .record = false :=
  ((takes.homes.persists_iff takes.named).1 takes.found).1

theorem kept : Record.Kept (d.tree.stock c dir).record r :=
  ((takes.homes.persists_iff takes.named).1 takes.found).2

/-- What the directory holds when the session begins to settle. -/
theorem begins : (opening c d r).log.Housed dir ∧ (opening c d r).log.config.Named ∧
    ((opening c d r).log.stock dir).record = (d.tree.stock c dir).record := by
  obtain ⟨-, housed, le⟩ := opening_through (P := fun _ => True) r takes.homes takes.named
    (fun _ _ _ => id) trivial
  refine ⟨housed, ?_, le.1⟩
  rw [config_opening]
  exact takes.named

theorem housed (events : List Event) : ((takingUp c d r).run events).2.log.Housed dir := by
  obtain ⟨housed, named, -⟩ := takes.begins
  exact housed.leads named (leads_takingUp c d r events)

theorem named_run (events : List Event) : ((takingUp c d r).run events).2.log.config.Named := by
  rw [config_takingUp]
  exact takes.named

/-- What a session stores can be read back as long as its segments are not too many. -/
theorem inWords {log log' : Log} (lead : (opening c d r).log.Leads log) (further : log.Leads log')
    (small : log'.write.file < Word.limit) : log.record.InWords := by
  have words := takes.kept.inWords
  have fits : (opening c d r).log.Fits := by
    obtain ⟨read, next, write, low, high⟩ := Log.fits_ofRecord c d words
    exact ⟨read, next, write, low, high⟩
  refine fits.inWords_between (inOrder_opening c d r) ?_ lead further small
  rw [config_opening]
  exact takes.limit

/-- **What is taken up from the files of a session is told from the bytes of its record.** -/
theorem persists_run (events : List Event) :
    ((takingUp c d r).run events).2.log.disk.tree.Persists c r' ↔
      Record.Kept (((takingUp c d r).run events).2.log.stock dir).record r' := by
  have homes := (takes.housed events).homes
  rw [config_takingUp] at homes
  rw [Log.stock, config_takingUp, homes.persists_iff takes.named, and_iff_right takes.short]

/-- From a session whose record is stored its own is taken up. -/
theorem kept_of_landed (events : List Event)
    (small : ((takingUp c d r).run events).2.log.write.file < Word.limit)
    (landed : ((takingUp c d r).run events).2.Landed dir) :
    Record.Kept (((takingUp c d r).run events).2.log.stock dir).record
      ((takingUp c d r).run events).2.log.record := by
  rw [landed.record]
  exact Record.kept_text (takes.inWords (leads_takingUp c d r events) .refl small)

/-- When a session has begun its own record is stored, unless a sync has failed. -/
theorem kept_begun (small : (takingUp c d r).log.write.file < Word.limit)
    (none : (takingUp c d r).log.NoSyncFailed) :
    (takingUp c d r).log.needSync = false ∧
      Record.Kept ((takingUp c d r).log.stock dir).record (takingUp c d r).log.record := by
  obtain ⟨housed, named, stored⟩ := takes.begins
  rcases (settles_settle (opening c d r)).outcome housed named with landed | quiet | failed
  · exact ⟨landed.needSync, takes.kept_of_landed [] small landed⟩
  · -- nothing was asked for, so the record was taken as it was found
    rcases Log.ofRecord_asks c d r with asks | ⟨taken, -⟩
    · exact absurd (Or.inl asks) quiet.not_due
    have calm : (opening c d r).log.needSync = false :=
      Bool.eq_false_iff.2 fun asked => quiet.not_due (Or.inl asked)
    have record : (takingUp c d r).log.record = r := quiet.record.trans taken
    rw [← takingUp_eq] at quiet
    refine ⟨quiet.needSync.trans calm, ?_⟩
    rw [record, quiet.stored, stored]
    exact takes.kept
  · exact absurd failed none.1

/-- What holds at every moment of the opening. -/
theorem opening_since (down : Hereditary P) (now : P (d.tree.stock c dir))
    (stores : ∀ n, (opening c d r).log.Leads ((opening c d r).settleWithin n).log →
      ((opening c d r).settleWithin n).log.Leads (takingUp c d r).log →
      P (((opening c d r).settleWithin n).log.stock dir) →
      P { ((opening c d r).settleWithin n).log.stock dir with
        record := some (Text.encode ((opening c d r).settleWithin n).log.record.text) }) :
    Disk.Through c dir P d (takingUp c d r).log.disk := by
  obtain ⟨begun, housed, le⟩ := opening_through (P := P) r takes.homes takes.named down now
  obtain ⟨-, named, -⟩ := takes.begins
  have settling := ((settles_settle (opening c d r)).through housed named down (down le now)
    stores).1.toThrough
  rw [config_opening] at settling
  exact begun.trans settling

end Takes

end Session

end DurableQueue
