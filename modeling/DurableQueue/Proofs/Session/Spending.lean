import DurableQueue.Proofs.Log.Thrifty
import DurableQueue.Proofs.Session.Enclosing

/-!
# What a session spends

A session that takes up a record uses no number that was spent before it or in it, if the record writes
after all that was spent before (`Takes.thrifty`). The record that it leaves writes no earlier than the
session did when it last waited, at every moment of its opening, of its end, and of any event but a clear
(`Encloses.opens_from`, `Encloses.closes_from`, `Encloses.serves_from`): a clear removes the record and
stores it again only after that.
-/

namespace DurableQueue

open FileSystem

/-- The record that is taken up writes in this segment or in a later one. -/
def Stock.WritesFrom (number : Nat) (σ : Stock) : Prop :=
  ∃ r, Record.Kept σ.record r ∧ number ≤ r.write.file

theorem Stock.writesFrom_hereditary (number : Nat) : Hereditary (Stock.WritesFrom number) :=
  fun _ _ le ⟨r, kept, from_⟩ => ⟨r, le.1 ▸ kept, from_⟩

namespace Session

variable {c : Config} {d : Disk} {dir : Location} {r : Record} {e : Event} {events : List Event}

/-- A session uses no number that is spent, and all of them lie below its write cursor. -/
theorem Takes.thrifty (takes : Takes c d dir r) (bygone : Bygone c dir d.tree d.history)
    (below : ∀ k, Spent c d.history k → k < r.write.file) {log : Log}
    (lead : (opening c d r).log.Leads log) : Bygone c dir log.disk.tree log.disk.history ∧
      ∀ k, Spent c log.disk.history k → k < log.write.file := by
  obtain ⟨housed, named, -⟩ := takes.begins
  have thrifty : (opening c d r).log.Thrifty dir :=
    (Log.thrifty_ofRecord takes.homes takes.named bygone below).of_eq rfl rfl (Nat.le_refl _)
  have poised : (opening c d r).log.Poised := by
    refine ⟨inOrder_opening c d r, fun w open_ => ?_⟩
    rw [show (opening c d r).log.writer = none from (Log.closed_ofRecord c d r).1] at open_
    cases open_
  have config : log.config = c := lead.config_eq.trans (config_opening c d r)
  obtain ⟨bygone', below'⟩ := (thrifty.leads housed named poised lead).1
  rw [config] at bygone' below'
  exact ⟨bygone', below'⟩

namespace Encloses

variable (h : Encloses c d dir r)
include h

/-- The session begins to write where the record says. -/
theorem write_opening : (opening c d r).log.write = r.write := by
  obtain ⟨crossed, -⟩ | ⟨-, depth, sync, told, resets, eq, -⟩ := Log.ofRecord_outcome c d r
  · exact absurd (Position.lt_of_le_of_lt h.ordered crossed) Position.lt_irrefl
  · rw [opening, Log.tell, Log.tell, eq]

/-- What the session stores writes where the session does. -/
theorem stored_from {log log' : Log} (lead : (opening c d r).log.Leads log) (further : log.Leads log')
    (small : log'.write.file < Word.limit) {number : Nat} (onward : number ≤ log.write.file) {σ : Stock} :
    Stock.WritesFrom number { σ with record := some (Text.encode log.record.text) } :=
  ⟨log.record, Record.kept_text (h.inWords lead further small), onward⟩

/-- While a session opens, the record writes no earlier than the one that it found. -/
theorem opens_from (small : (takingUp c d r).log.write.file < Word.limit) :
    Disk.Through c dir (Stock.WritesFrom r.write.file) d (takingUp c d r).log.disk := by
  refine h.opening_since (Stock.writesFrom_hereditary _) ⟨r, h.kept, Nat.le_refl _⟩
    fun n lead further _ => h.stored_from lead further small ?_
  have onward := ((inOrder_opening c d r).leads lead).2.write
  rw [h.write_opening] at onward
  exact Position.file_le onward

variable (none : ((takingUp c d r).run events).2.log.NoSyncFailed)
include none

/-- When a session waits its record writes in the segment in which it writes itself. -/
theorem writesFrom_run (small : ((takingUp c d r).run events).2.log.write.file < Word.limit) :
    (((takingUp c d r).run events).2.log.stock dir).WritesFrom
      ((takingUp c d r).run events).2.log.write.file := by
  obtain ⟨r', kept, -, -, write⟩ := h.recorded small none
  exact ⟨r', kept, Nat.le_of_eq write.symm⟩

/-- **While a session serves an event that is no clear, the record writes no earlier than the session
did before.** -/
theorem serves_from (not_clear : e ≠ .clear)
    (small : (((takingUp c d r).run events).2.step e).2.log.write.file < Word.limit) :
    Log.Goes dir (Stock.WritesFrom ((takingUp c d r).run events).2.log.write.file)
      ((takingUp c d r).run events).2.log (((takingUp c d r).run events).2.step e).2.log := by
  have step := leads_step ((takingUp c d r).run events).2 e
  have lead := leads_takingUp c d r events
  have ordered := inOrder_takingUp c d r events
  have now := h.writesFrom_run none (small_of_leads events step small)
  refine step_through (h.housed events) (h.named_run events) (Stock.writesFrom_hereditary _) now ?_
    (fun clear => absurd clear not_clear) fun n before further _ =>
      h.stored_from (lead.trans before) further small (Position.file_le (ordered.leads before).2.write)
  rintro m rfl
  refine ⟨now, h.stored_from (lead.trans (leads_handle _ (.push m))) (leads_push _ m) small ?_⟩
  exact Position.file_le (ordered.leads (leads_handle _ (.push m))).2.write

/-- While a session closes, the record writes no earlier than the session did before. -/
theorem closes_from (small : ((takingUp c d r).run events).2.log.write.file < Word.limit) :
    Log.Goes dir (Stock.WritesFrom ((takingUp c d r).run events).2.log.write.file)
      ((takingUp c d r).run events).2.log (((takingUp c d r).run events).2.finish .close).2.log :=
  finish_through (h.housed events) (h.named_run events) (Stock.writesFrom_hereditary _)
    (h.writesFrom_run none small)
    (fun _ => h.stored_from (leads_takingUp c d r events) .refl small (Nat.le_refl _)) nofun

end Encloses

end Session

end DurableQueue
