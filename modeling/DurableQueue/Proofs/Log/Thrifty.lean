import DurableQueue.Proofs.FileSystem.Calm
import DurableQueue.Proofs.FileSystem.Spent
import DurableQueue.Proofs.Log.Leading
import DurableQueue.Proofs.Log.Poised

/-!
# A log spends each number once

A log takes segments away behind its read cursor, or with all between its cursors, and goes on after
them; it makes segments at its write cursor only. So the numbers that are spent lie below the write
cursor (`Log.Thrifty`), and whatever is asked of the log and whatever fails, none of them is used again
(`Thrifty.serve`, `Thrifty.leads`).
-/

namespace DurableQueue

open FileSystem

namespace FileSystem.Call

/-- A call that makes no segment and takes none away. -/
def Avoids (c : Config) (call : Call) : Prop :=
  ∀ k, ¬call.Fills (c.path (.segment k)) ∧ ¬call.Vacates (c.path (.segment k))

/-- A call that takes no segment away, and makes or writes to one only if it has this number. -/
def KeepsTo (c : Config) (number : Nat) (call : Call) : Prop :=
  ∀ k, ¬call.Vacates (c.path (.segment k)) ∧ (call.Fills (c.path (.segment k)) → k = number)

variable {c : Config} {call : Call} {number : Nat}

theorem Avoids.keepsTo (avoids : call.Avoids c) : call.KeepsTo c number :=
  fun k => ⟨(avoids k).2, fun fills => absurd fills (avoids k).1⟩

/-- Opening a segment for writing may make it. -/
theorem keepsTo_of_opens (named : c.Named) (opens : call.Opens (c.path (.segment number))) :
    call.KeepsTo c number := by
  intro k
  cases call <;> cases opens
  · exact ⟨id, fun same => (named.segment_inj.1 same).symm⟩
  · exact ⟨id, fun no => no.elim⟩

theorem avoids_of_looks (looks : call.Looks) : call.Avoids c := by
  intro k
  cases call <;> first | exact ⟨id, id⟩ | cases looks

/-- A record is stored by calls on other paths. -/
theorem avoids_of_stores (named : c.Named) (stores : call.Stores (c.path .record)) :
    call.Avoids c := by
  have ends : ∀ k, (QueueFile.segment k).ending.getLast? ≠ some 'p' := by
    intro k
    simp [QueueFile.ending, List.getLast?_append]
  have temporary : ∀ {p : String}, (∃ tag, p = Naming.temporaryPath (c.path .record) tag) →
      ∀ k, p ≠ c.path (.segment k) := by
    rintro p ⟨tag, rfl⟩ k same
    exact Config.path_ne_temporary (ends k) tag same.symm
  intro k
  cases call with
  | sync p => exact ⟨id, id⟩
  | createNew p => exact ⟨temporary stores k, id⟩
  | write p offset new => exact ⟨temporary stores k, id⟩
  | remove p => exact ⟨id, temporary stores k⟩
  | rename p target =>
    obtain ⟨source, rfl⟩ := stores
    refine ⟨fun same => ?_, temporary source k⟩
    cases ((Config.path_eq_iff named.noSlash named.noSlash rfl).1 same).2
  | openRead _ | openWrite _ | seek _ _ | read _ _ _ | makeDirectory _ | list _ => cases stores

end FileSystem.Call

namespace Log

variable {log log' : Log} {dir : Location} {m : Bytes}

/-- No number that is spent is used again, and all of them lie below the write cursor. -/
structure Thrifty (log : Log) (dir : Location) : Prop where
  bygone : Bygone log.config dir log.disk.tree log.disk.history
  below : ∀ k, Spent log.config log.disk.history k → k < log.write.file

/-- A log that makes no call and stays where it is. -/
theorem Thrifty.of_eq (h : log.Thrifty dir) (config : log'.config = log.config)
    (disk : log'.disk = log.disk) (write : log.write.file ≤ log'.write.file) : log'.Thrifty dir := by
  obtain ⟨bygone, below⟩ := h
  refine ⟨?_, fun k spent => Nat.lt_of_lt_of_le (below k ?_) write⟩
  · rw [config, disk]
    exact bygone
  · rw [config, disk] at spent
    exact spent

/-- Calls that use none of the spent numbers and take no segment away. -/
theorem Thrifty.calls (h : log.Thrifty dir)
    (goes : Goes dir (Stock.Lacks (Spent log.config log.disk.history)) log log')
    (makes : log.disk.Makes (fun a => a.call.KeepsTo log.config log.write.file) log'.disk)
    (lacks : (log'.stock dir).Lacks (Spent log.config log.disk.history))
    (write : log.write.file ≤ log'.write.file) : log'.Thrifty dir := by
  obtain ⟨bygone, below⟩ := h
  have config := goes.config_eq
  rw [stock, config] at lacks
  obtain ⟨bygone', spent⟩ := bygone.makes ((makes.and goes.toMakes).mono fun a both =>
    ⟨fun k vacated => (both.1 k).1 vacated.2, fun k spent fills => by
      have here := (both.1 k).2 fills
      exact absurd (below k spent) (by omega), both.2.2⟩) lacks
  refine ⟨?_, fun k gone => Nat.lt_of_lt_of_le (below k (spent k ?_)) write⟩
  · rw [config]
    exact bygone'
  · rw [config] at gone
    exact gone

section Requests

variable (h : log.Thrifty dir) (housed : log.Housed dir) (named : log.config.Named)
include h housed

theorem Thrifty.readFrame : log.readFrame.2.Thrifty dir := by
  obtain ⟨goes, stock⟩ := housed.readFrame (P := Stock.Lacks (Spent log.config log.disk.history))
    h.bygone.lacks
  have lacks := h.bygone.lacks
  rw [← Log.stock, ← stock] at lacks
  obtain ⟨m, d, reader, eq, looks⟩ | ⟨e, d, reader, eq, looks⟩ := log.readFrame_outcome
  · rw [eq] at goes lacks ⊢
    exact h.calls goes (looks.makes.mono fun _ looks => (Call.avoids_of_looks looks).keepsTo) lacks
      (Nat.le_refl _)
  · rw [eq] at goes lacks ⊢
    exact h.calls goes (looks.makes.mono fun _ looks => (Call.avoids_of_looks looks).keepsTo) lacks
      (Nat.le_refl _)

include named

theorem Thrifty.sync : log.sync.2.Thrifty dir := by
  obtain ⟨goes, lands⟩ := housed.sync (P := Stock.Lacks (Spent log.config log.disk.history)) named
    h.bygone.lacks h.bygone.lacks
  have lacks : (log.sync.2.stock dir).Lacks (Spent log.config log.disk.history) := by
    rcases lands with ⟨-, -, stock⟩ | ⟨-, stock⟩
    · rw [stock]
      exact h.bygone.lacks
    · rw [stock]
      exact h.bygone.lacks
  obtain ⟨d, sync, told, w, eq, -, makes⟩ := log.sync_outcome
  rw [eq] at goes lacks ⊢
  exact h.calls goes (makes.mono fun _ stores => (Call.avoids_of_stores named stores).keepsTo) lacks
    (Nat.le_refl _)

/-- An append makes no segment but the one at the write cursor. -/
theorem Thrifty.append (poised : log.Poised) (m : Bytes) : (log.append m).2.Thrifty dir := by
  -- the number at the write cursor is not spent
  have may : ((log.stock dir).insert log.write.file).Lacks (Spent log.config log.disk.history) := by
    rintro k spent (rfl | there)
    · exact Nat.lt_irrefl _ (h.below _ spent)
    · exact h.bygone.lacks k spent there
  obtain ⟨goes, leaves⟩ := housed.append named (Stock.lacks_hereditary _) m may may
  have lacks : ((log.append m).2.stock dir).Lacks (Spent log.config log.disk.history) := by
    rcases leaves with ⟨le, -, -⟩ | ⟨le, -⟩ | ⟨le, -⟩
    · exact Stock.lacks_hereditary _ le may
    · exact fun k spent there => may k spent (le.2 k there)
    · exact Stock.lacks_hereditary _ le may
  -- the frame goes to the segment that is open for writing
  have written : ∀ {x : Handle}, log.WritesBy x →
      (Call.write x.path x.offset (Frame.encode m)).KeepsTo log.config log.write.file := by
    intro x by_ k
    have path : x.path = log.config.path (.segment log.write.file) := by
      rcases by_ with writing | ⟨-, opened, -⟩
      · exact (poised.writer x writing).1
      · exact opened
    exact ⟨id, fun same => (named.segment_inj.1 (path.symm.trans same)).symm⟩
  have onward := Position.file_le (poised.toInOrder.append (m := m)).2.write
  refine h.calls goes ?_ lacks onward
  have outcome := log.append_outcome m
  revert outcome
  generalize log.append m = out
  intro outcome
  cases outcome with
  | refused rejected => exact .refl _
  | closed path e d opens => exact opens.mono fun _ => Call.keepsTo_of_opens named
  | failed x e d tree by_ opens =>
    exact (opens.mono fun _ => Call.keepsTo_of_opens named).trans (Disk.makes_noted (written by_))
  | made x d d' tree sync told within by_ opens rolls =>
    exact ((opens.mono fun _ => Call.keepsTo_of_opens named).trans
      (Disk.makes_noted (written by_))).trans
        (rolls.mono fun _ stores => (Call.avoids_of_stores named stores).keepsTo)

end Requests

/-! ### Moving on -/

section Moving

variable (homes : log.disk.tree.Homes log.config dir) (named : log.config.Named)
  (bygone : Bygone log.config dir log.disk.tree log.disk.history)
include homes named bygone

/-- Sweeping spends no numbers but those between the cursors. -/
theorem bygone_swept : Bygone log.config dir log.swept.tree log.swept.history ∧
    ∀ k, Spent log.config log.swept.history k →
      Spent log.config log.disk.history k ∨ k ≤ max log.read.file log.write.file := by
  obtain ⟨swept, spent⟩ := bygone.removeEach homes named log.span
  refine ⟨swept, fun k gone => (spent k gone).imp_right fun there => ?_⟩
  rw [mem_span] at there
  omega

/-- A log that starts afresh goes on after all that is spent. -/
theorem thrifty_fresh {sync : Bool} {told : List Notice} {resets : Nat}
    (below : ∀ k, Spent log.config log.disk.history k → k < log.read.file ∨ k < log.write.file) :
    Thrifty { log.fresh with
      disk := log.swept, needSync := sync, journal := told, tailResets := resets } dir := by
  obtain ⟨swept, spent⟩ := bygone_swept homes named bygone
  refine ⟨swept, fun k gone => ?_⟩
  simp only [fresh]
  rcases spent k gone with before | between
  · have := below k before
    omega
  · omega

end Moving

/-- What is spent when a log looks at its tail lies below one of the cursors. -/
theorem Tail.thrifty (tail : log.Tail log') (homes : log.disk.tree.Homes log.config dir)
    (named : log.config.Named) (bygone : Bygone log.config dir log.disk.tree log.disk.history)
    (below : ∀ k, Spent log.config log.disk.history k → k < log.read.file ∨ k < log.write.file) :
    log'.Thrifty dir := by
  cases tail with
  | unread behind =>
    have le := Position.file_le (Position.le_of_lt behind)
    exact ⟨bygone, fun k spent => (below k spent).elim (fun less => Nat.lt_of_lt_of_le less le) id⟩
  | met meet sync told resets =>
    exact ⟨bygone, fun k spent => (below k spent).elim (fun less => meet ▸ less) id⟩
  | crossed past told resets => exact thrifty_fresh homes named bygone below

section Requests

variable (h : log.Thrifty dir) (housed : log.Housed dir) (named : log.config.Named)
include h housed named

/-- The segment that a delivery leaves lies before `next`. -/
theorem Thrifty.commit (ordered : log.InOrder) : log.commit.2.Thrifty dir := by
  have path : log.segmentPath log.read.file = log.config.path (.segment log.read.file) := rfl
  obtain ⟨sync, told, tail⟩ := log.commit_outcome
  rw [path] at tail
  by_cases stays : log.next.file = log.read.file
  · rw [if_pos stays] at tail
    exact tail.thrifty housed.homes named h.bygone fun k spent => Or.inr (h.below k spent)
  · rw [if_neg stays] at tail
    obtain ⟨bygone, spent⟩ := h.bygone.remove housed.homes named log.read.file
    have homes := (Disk.remove_through (P := fun _ => True) (k := log.read.file) housed.homes named
      (fun _ _ _ => id) trivial).1.homes
    refine tail.thrifty homes named bygone fun k gone => ?_
    rcases spent k gone with before | rfl
    · exact Or.inr (h.below k before)
    · exact Or.inl (Nat.lt_of_le_of_ne (Position.file_le ordered.read_le_next) (Ne.symm stays))

/-- The segment that is set aside lies before the one at which reading goes on. -/
theorem Thrifty.quarantine : log.quarantine.Thrifty dir := by
  have path : log.segmentPath log.read.file = log.config.path (.segment log.read.file) := rfl
  obtain ⟨told, tail⟩ := log.quarantine_outcome
  rw [path, named.path_quarantined] at tail
  obtain ⟨bygone, spent⟩ := h.bygone.rename housed.homes named log.read.file
  have homes := (Disk.rename_through (P := fun _ => True) (k := log.read.file) housed.homes named
    (fun _ _ _ => id) trivial).1.homes
  refine tail.thrifty homes named bygone fun k gone => ?_
  rcases spent k gone with before | rfl
  · refine Or.inr (Nat.lt_of_lt_of_le (h.below k before) ?_)
    simp only
    split
    · exact Nat.le_succ _
    · exact Nat.le_refl _
  · exact Or.inl (Nat.lt_succ_self _)

theorem Thrifty.skip : log.skip.2.Thrifty dir := by
  obtain ⟨told, eq⟩ := log.skip_outcome
  rw [eq]
  exact thrifty_fresh housed.homes named h.bygone fun k spent => Or.inr (h.below k spent)

theorem Thrifty.deleteAll : log.deleteAll.2.Thrifty dir := by
  have path : log.recordPath = log.config.path .record := rfl
  obtain ⟨told, eq⟩ := log.deleteAll_outcome
  obtain ⟨swept, swept_eq⟩ : ∃ swept : Log, swept = { log.fresh with disk := log.swept } := ⟨_, rfl⟩
  have thrifty : swept.Thrifty dir := by
    rw [swept_eq]
    exact thrifty_fresh housed.homes named h.bygone fun k spent => Or.inr (h.below k spent)
  have housed' : swept.Housed dir := by
    rw [swept_eq]
    exact (housed.afresh (P := fun _ => True) named (fun _ _ _ => id) trivial).toGoes.housed
  have named' : swept.config.Named := by
    rw [swept_eq]
    exact named
  obtain ⟨through, came, -⟩ := Record.remove_through housed'.homes named' thrifty.bygone.lacks
    thrifty.bygone.lacks
  have removed : swept.disk.Makes (fun a => a.call.Avoids swept.config)
      (Record.remove swept.disk (swept.config.path .record)).2 := by
    refine Record.remove_calls fun k => ⟨id, fun same => ?_⟩
    cases ((Config.path_eq_iff named'.noSlash named'.noSlash rfl).1 same).2
  have done : Thrifty { swept with
      disk := (Record.remove swept.disk (swept.config.path .record)).2, journal := told } dir := by
    refine thrifty.calls (housed'.goes through rfl (Or.inl rfl))
      (removed.mono fun _ avoids => avoids.keepsTo) ?_ (Nat.le_refl _)
    rw [Log.stock]
    rcases came with stock | stock
    · rw [stock]
      exact thrifty.bygone.lacks
    · rw [stock]
      exact thrifty.bygone.lacks
  rw [eq, path]
  rw [swept_eq] at done
  exact done

/-- **No request uses a number that is spent.** -/
theorem Thrifty.serve (poised : log.Poised) (r : Request) : (log.serve r).Thrifty dir := by
  cases r with
  | append m => exact h.append housed named poised m
  | read => exact h.readFrame housed
  | commit => exact h.commit housed named poised.toInOrder
  | quarantine => exact h.quarantine housed named
  | skip => exact h.skip housed named
  | deleteAll => exact h.deleteAll housed named
  | sync => exact h.sync housed named
  | requestSync | closeFiles => exact h.of_eq rfl rfl (Nat.le_refl _)

theorem Thrifty.leads (poised : log.Poised) (lead : log.Leads log') :
    log'.Thrifty dir ∧ log'.Poised := by
  induction lead with
  | refl => exact ⟨h, poised⟩
  | serve lead r ih =>
    obtain ⟨thrifty, poised'⟩ := ih
    exact ⟨thrifty.serve (housed.leads named lead) (lead.config_eq ▸ named) poised' r,
      poised'.serve r⟩
  | tell lead n ih =>
    obtain ⟨thrifty, poised'⟩ := ih
    exact ⟨thrifty.of_eq rfl rfl (Nat.le_refl _), poised'.toInOrder.of_eq rfl rfl rfl rfl, poised'.writer⟩

end Requests

/-- A log that takes up a record goes on after all that is spent if the record does. -/
theorem thrifty_ofRecord {c : Config} {d : Disk} {r : Record} (homes : d.tree.Homes c dir)
    (named : c.Named) (bygone : Bygone c dir d.tree d.history)
    (below : ∀ k, Spent c d.history k → k < r.write.file) : (ofRecord c d r).Thrifty dir := by
  obtain ⟨-, told, eq⟩ | ⟨-, depth, sync, told, resets, eq, -⟩ := ofRecord_outcome c d r
  · rw [eq]
    exact thrifty_fresh homes named bygone fun k spent => Or.inr (below k spent)
  · rw [eq]
    exact ⟨bygone, below⟩

end Log

end DurableQueue
