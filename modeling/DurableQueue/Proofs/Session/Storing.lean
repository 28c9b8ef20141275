import DurableQueue.Proofs.Session.Reach

/-!
# What a session stores

On an event a session may write to a segment, remove segments or store its record, and any of that may
fail. `step_through` says of what holds of the directory at every moment of it: a push may make the
segment at the write cursor, a clear may take the record away, and otherwise segments go and records
are stored, each of which is the session's own after some of the rounds of its settling.

Once an event is served, the stored record is the session's own, or the event is left for the next sync
to store and counted toward it, or a sync has failed (`Advances`, `advances_step`).

The same is said of how a session begins (`opening_through`) and of how it ends (`finish_through`).
-/

namespace DurableQueue

open FileSystem

namespace Session

variable {s t : Session} {e : Event} {dir : Location} {P : Stock → Prop}

/-! ### Settling -/

/-- The stored record is the session's own, and no sync is asked for. -/
structure Landed (t : Session) (dir : Location) : Prop where
  record : (t.log.stock dir).record = some (Text.encode t.log.record.text)
  needSync : t.log.needSync = false

/-- No sync was due, and nothing has changed from `s` to `t` that a record or a count says. -/
structure Quiet (s t : Session) (dir : Location) : Prop where
  not_due : ¬s.Due
  stored : (t.log.stock dir).record = (s.log.stock dir).record
  record : t.log.record = s.log.record
  needSync : t.log.needSync = s.log.needSync
  dirty : t.dirty = s.dirty
  corruptions : t.corruptions = s.corruptions
  resets : t.log.tailResets = s.log.tailResets

/-- A flush that is due stores the record, or tells that it did not. -/
theorem flush_through (h : s.log.Housed dir) (named : s.log.config.Named) (now : P (s.log.stock dir))
    (after : P { s.log.stock dir with record := some (Text.encode s.log.record.text) }) :
    Log.Goes dir P s.log s.flush.log ∧ P (s.flush.log.stock dir) ∧
      (s.flush.Landed dir ∨ s.Quiet s.flush dir ∨ .syncFailed ∈ s.flush.log.journal) := by
  by_cases due : s.Due
  case neg =>
    rw [flush_of_not_due due]
    exact ⟨h.refl, now, Or.inr (Or.inl ⟨due, rfl, rfl, rfl, rfl, rfl, rfl⟩)⟩
  have asked : Log.Goes dir P s.log s.log.requestSync := h.goes (.refl h.homes) rfl (Or.inl rfl)
  obtain ⟨synced, lands⟩ := asked.housed.sync (P := P) named now after
  obtain ⟨d, sync, told, w, rest⟩ := Log.sync_rest s.log.requestSync
  rw [flush_of_due due]
  revert synced lands rest
  cases s.log.requestSync.sync with
  | mk result log =>
    rintro synced lands rfl
    have goes := asked.trans synced
    cases result with
    | ok u =>
      rcases lands with ⟨-, calm, stock⟩ | ⟨⟨e, no⟩, -⟩
      · exact ⟨goes, stock ▸ after, Or.inl ⟨by rw [stock]; rfl, calm⟩⟩
      · cases no
    | error e =>
      have told := goes.trans (goes.housed.tell .syncFailed)
      rcases lands with ⟨no, -⟩ | ⟨-, stock⟩
      · cases no
      · exact ⟨told, stock ▸ now, Or.inr (Or.inr List.mem_cons_self)⟩

theorem giveUp_through {log : Log} (h : log.Housed dir) (named : log.config.Named) (down : Hereditary P)
    (now : P (log.stock dir)) :
    Log.Goes dir P log (s.giveUp log).log ∧ P ((s.giveUp log).log.stock dir) := by
  have told : Log.Goes dir P log (log.tell .frameUnreadable) := h.tell .frameUnreadable
  have sheds := told.housed.quarantine (P := P) named down now
  exact ⟨told.trans sheds.toGoes, down sheds.le now⟩

/-- The moments of the flush and of the reading that begin a round. -/
theorem round_through {result : Except Error Bytes} {log : Log} (h : s.log.Housed dir)
    (named : s.log.config.Named) (now : P (s.log.stock dir))
    (after : P { s.log.stock dir with record := some (Text.encode s.log.record.text) })
    (read : s.flush.log.readFrame = (result, log)) :
    Log.Goes dir P s.log log ∧ log.stock dir = s.flush.log.stock dir ∧ P (log.stock dir) := by
  obtain ⟨flushed, now', -⟩ := flush_through h named now after
  obtain ⟨reads, same⟩ := flushed.housed.readFrame now'
  rw [read] at reads same
  exact ⟨flushed.trans reads, same, same ▸ now'⟩

/-- **At every moment of settling a record is stored only if it is the session's own after some of the
rounds.** -/
theorem Settles.through (settles : s.Settles t) (h : s.log.Housed dir) (named : s.log.config.Named)
    (down : Hereditary P) (now : P (s.log.stock dir))
    (stores : ∀ n, s.log.Leads (s.settleWithin n).log → (s.settleWithin n).log.Leads t.log →
      P ((s.settleWithin n).log.stock dir) → P { (s.settleWithin n).log.stock dir with
        record := some (Text.encode (s.settleWithin n).log.record.text) }) :
    Log.Goes dir P s.log t.log ∧ P (t.log.stock dir) := by
  induction settles with
  | @wait s nothing =>
    obtain ⟨flushed, now', -⟩ := flush_through h named now (stores 0 .refl s.leads_flush now)
    exact ⟨flushed, now'⟩
  | @stage s m log idle read =>
    have settles : s.Settles { s.flush with log, staged := some m } := .stage idle read
    obtain ⟨reads, -, now'⟩ := round_through h named now (stores 0 .refl settles.leads now) read
    exact ⟨reads, now'⟩
  | @again s t e log idle read rest ih =>
    have settles : s.Settles t := .again idle read rest
    obtain ⟨reads, -, now'⟩ := round_through h named now (stores 0 .refl settles.leads now) read
    obtain ⟨gone, now''⟩ := giveUp_through (s := s.flush) reads.housed (reads.config_eq ▸ named) down now'
    have first := reads.trans gone
    have next := fun n => settleWithin_giveUp n idle read
    obtain ⟨later, last⟩ := ih first.housed (first.config_eq ▸ named) now'' fun n before after here => by
      rw [← next] at before after here ⊢
      exact stores (n + 1) ((leads_giveUp read).trans before) after here
    exact ⟨first.trans later, last⟩

/-- **Settling stores the record, unless nothing was due or a sync failed.** -/
theorem Settles.outcome (settles : s.Settles t) (h : s.log.Housed dir) (named : s.log.config.Named) :
    t.Landed dir ∨ s.Quiet t dir ∨ .syncFailed ∈ t.log.journal := by
  induction settles with
  | @wait s nothing => exact (flush_through (P := fun _ => True) h named trivial trivial).2.2
  | @stage s m log idle read =>
    obtain ⟨-, -, outcome⟩ := flush_through (P := fun _ => True) h named trivial trivial
    obtain ⟨-, same, -⟩ := round_through (P := fun _ => True) h named trivial trivial read
    have rest : ∃ d next r, log = { s.flush.log with disk := d, next, reader := r } := by
      obtain ⟨m', d, r, eq, -⟩ | ⟨e', d, r, eq, -⟩ := s.flush.log.readFrame_outcome
      · rw [read] at eq
        cases eq
        exact ⟨d, _, r, rfl⟩
      · rw [read] at eq
        cases eq
    obtain ⟨d, next, r, eq⟩ := rest
    rcases outcome with landed | quiet | failed
    · refine Or.inl ⟨?_, by rw [eq]; exact landed.needSync⟩
      rw [show Session.log { s.flush with log, staged := some m } = log from rfl, same,
        landed.record, eq]
      rfl
    · refine Or.inr (Or.inl ⟨quiet.not_due, ?_, ?_, ?_, quiet.dirty, quiet.corruptions, ?_⟩)
      · exact (congrArg Stock.record same).trans quiet.stored
      · rw [eq]
        exact quiet.record
      · rw [eq]
        exact quiet.needSync
      · rw [eq]
        exact quiet.resets
    · refine Or.inr (Or.inr ?_)
      rw [eq]
      exact failed
  | @again s t e log idle read rest ih =>
    obtain ⟨reads, -, -⟩ := round_through (P := fun _ => True) h named trivial trivial read
    obtain ⟨gone, -⟩ := giveUp_through (P := fun _ => True) (s := s.flush) reads.housed
      (reads.config_eq ▸ named) (fun _ _ _ => id) trivial
    have first := reads.trans gone
    rcases ih first.housed (first.config_eq ▸ named) with landed | quiet | failed
    · exact Or.inl landed
    · exact absurd (Or.inl (Log.needSync_quarantine _)) quiet.not_due
    · exact Or.inr (Or.inr failed)

/-! ### Events -/

/-- What is done on an event before the session settles: only a push makes a segment, the one at the
write cursor, and stores a record, and only a clear takes the record away. -/
theorem handle_through (h : s.log.Housed dir) (named : s.log.config.Named) (down : Hereditary P)
    (now : P (s.log.stock dir))
    (pushes : ∀ m, e = .push m → P ((s.log.stock dir).insert s.log.write.file) ∧
      P { (s.log.stock dir).insert s.log.write.file with
        record := some (Text.encode (s.handle e).log.record.text) })
    (clears : e = .clear → P { s.log.swept.tree.stock s.log.config dir with record := none }) :
    Log.Goes dir P s.log (s.handle e).log ∧ P ((s.handle e).log.stock dir) := by
  cases e with
  | push m =>
    obtain ⟨may, after⟩ := pushes m rfl
    obtain ⟨goes, leaves⟩ := h.append named down m may after
    refine ⟨goes, ?_⟩
    rcases leaves with ⟨le, -, -⟩ | ⟨le, -⟩ | ⟨le, -⟩
    · exact down le may
    · exact down le after
    · exact down le may
  | deliver =>
    have sheds := h.commit named down now
    unfold handle
    revert sheds
    cases s.log.commit with
    | mk reset log =>
      intro sheds
      cases reset with
      | true => exact ⟨sheds.toGoes.trans (sheds.housed.tell .tailReset), down sheds.le now⟩
      | false => exact ⟨sheds.toGoes, down sheds.le now⟩
  | clear =>
    have deletes := h.deleteAll named down now (clears rfl)
    unfold handle
    revert deletes
    generalize s.log.deleteAll.2 = log
    rintro ⟨goes, now'⟩
    have asked : Log.Goes dir P log log.requestSync :=
      goes.housed.goes (.refl goes.housed.homes) rfl (Or.inl rfl)
    exact ⟨goes.trans (asked.trans (asked.housed.tell .cleared)), now'⟩
  | tick =>
    unfold handle
    simp only
    split
    · exact ⟨h.goes (.refl h.homes) rfl (Or.inl rfl), now⟩
    · exact ⟨h.refl, now⟩

/-- **At every moment of an event `P` holds of the directory**, if it is not lost when segments go, when
a push makes the segment at the write cursor, when a clear takes the record away, and when the session
stores its record after some of the rounds. -/
theorem step_through (h : s.log.Housed dir) (named : s.log.config.Named) (down : Hereditary P)
    (now : P (s.log.stock dir))
    (pushes : ∀ m, e = .push m → P ((s.log.stock dir).insert s.log.write.file) ∧
      P { (s.log.stock dir).insert s.log.write.file with
        record := some (Text.encode (s.handle e).log.record.text) })
    (clears : e = .clear → P { s.log.swept.tree.stock s.log.config dir with record := none })
    (stores : ∀ n, s.log.Leads ((s.handle e).settleWithin n).log →
      ((s.handle e).settleWithin n).log.Leads (s.step e).2.log →
      P (((s.handle e).settleWithin n).log.stock dir) →
      P { ((s.handle e).settleWithin n).log.stock dir with
        record := some (Text.encode ((s.handle e).settleWithin n).log.record.text) }) :
    Log.Goes dir P s.log (s.step e).2.log := by
  rw [step_eq] at stores ⊢
  split
  · exact h.refl
  · next serves =>
    obtain ⟨handled, now'⟩ := handle_through h named down now pushes clears
    rw [if_neg serves] at stores
    have settled := (settles_settle (s.handle e)).through handled.housed (handled.config_eq ▸ named)
      down now' fun n before => stores n ((s.leads_handle e).trans before)
    exact handled.trans settled.1

/-- Whether an event counts toward the next sync. -/
def counts (s : Session) : Event → Bool
  | .push _ => true
  | .deliver => s.staged.isSome
  | .clear | .tick => false

/-- An event is left for the next sync to store. -/
structure Deferred (s : Session) (e : Event) (dir : Location) (t : Session) : Prop where
  not_clear : e ≠ .clear
  stored : (t.log.stock dir).record = (s.log.stock dir).record
  needSync : t.log.needSync = s.log.needSync
  dirty : t.dirty = s.dirty + (s.counts e).toNat
  same : s.counts e = false → t.log.record = s.log.record
  write : t.log.write.file = s.log.write.file
  corruptions : t.corruptions = s.corruptions
  resets : t.log.tailResets = s.log.tailResets

/-- What has become of an event: it is stored with all before it, it is left to the next sync, or a sync
has failed. -/
inductive Advances (s : Session) (e : Event) (dir : Location) (t : Session) : Prop where
  | landed (landed : t.Landed dir)
  | deferred (deferred : s.Deferred e dir t)
  | failed (told : ¬t.log.NoSyncFailed)

/-- What has become of an event before the session settles; besides, a sync may be asked for. -/
theorem advances_handle (h : s.log.Housed dir) (named : s.log.config.Named) (serves : ¬s.Passes e) :
    (s.handle e).log.needSync = true ∨ s.Advances e dir (s.handle e) := by
  have everything : Hereditary fun _ => True := fun _ _ _ => id
  cases e with
  | push m =>
    obtain ⟨d, write, depth, sync, told, w, rest⟩ := s.log.append_rest m
    have resets : (s.log.append m).2.tailResets = s.log.tailResets := by rw [rest]
    refine Or.inr ?_
    rcases (h.append named everything m trivial trivial).2 with
      ⟨le, file, sync⟩ | ⟨le, sync⟩ | ⟨-, failed⟩
    · exact .deferred ⟨nofun, le.1, sync, rfl, nofun, file, rfl, resets⟩
    · exact .landed ⟨le.1, sync⟩
    · exact .failed fun none => none.2 failed
  | deliver =>
    have on_offer : s.staged.isSome = true := by
      rcases Option.eq_none_or_eq_some s.staged with vacant | ⟨m, staged⟩
      · exact absurd ⟨rfl, vacant⟩ serves
      · rw [staged]
        rfl
    have asks := s.log.commit_asks
    unfold handle
    revert asks
    cases s.log.commit with
    | mk reset log =>
      intro asks
      rcases asks with asks | rfl
      · refine Or.inl ?_
        cases reset with
        | true => exact asks
        | false => exact asks
      · refine Or.inr (.deferred ?_)
        have counts : s.counts .deliver = true := on_offer
        have dirty : s.dirty + 1 = s.dirty + (s.counts .deliver).toNat := by rw [counts]; rfl
        have same : s.counts .deliver ≠ false := by rw [counts]; nofun
        cases reset with
        | true => exact ⟨nofun, rfl, rfl, dirty, fun no => absurd no same, rfl, rfl, rfl⟩
        | false => exact ⟨nofun, rfl, rfl, dirty, fun no => absurd no same, rfl, rfl, rfl⟩
  | clear => exact Or.inl rfl
  | tick =>
    unfold handle
    simp only
    split
    · exact Or.inl rfl
    · exact Or.inr (.deferred ⟨nofun, rfl, rfl, rfl, fun _ => rfl, rfl, rfl, rfl⟩)

/-- **An event is stored with all before it, or is left to the next sync and counted, or a sync has
failed.** -/
theorem advances_step (h : s.log.Housed dir) (named : s.log.config.Named) :
    s.Advances e dir (s.step e).2 := by
  rw [step_eq]
  by_cases passes : s.Passes e
  case pos =>
    have nothing : s.counts e = false := by
      rw [passes.1, counts, passes.2]
      rfl
    rw [if_pos passes]
    refine .deferred ⟨?_, rfl, rfl, by rw [nothing]; rfl, fun _ => rfl, rfl, rfl, rfl⟩
    rw [passes.1]
    nofun
  rw [if_neg passes]
  have handled : Log.Goes dir (fun _ => True) s.log (s.handle e).log :=
    (handle_through h named (fun _ _ _ => id) trivial (fun _ _ => ⟨trivial, trivial⟩) fun _ =>
      trivial).1
  have settles := settles_settle (s.handle e)
  have tells := settles.leads.tells
  rcases settles.outcome handled.housed (handled.config_eq ▸ named) with landed | quiet | failed
  · exact .landed landed
  · rcases advances_handle h named passes with asked | landed | deferred | failed
    · exact absurd (Or.inl asked) quiet.not_due
    · refine .landed ⟨?_, quiet.needSync.trans landed.needSync⟩
      rw [quiet.stored, quiet.record, landed.record]
    · refine .deferred ⟨deferred.not_clear, quiet.stored.trans deferred.stored,
        quiet.needSync.trans deferred.needSync, quiet.dirty.trans deferred.dirty,
        fun none => quiet.record.trans (deferred.same none), ?_,
        quiet.corruptions.trans deferred.corruptions, quiet.resets.trans deferred.resets⟩
      have write := congrArg Record.write quiet.record
      exact (congrArg Position.file write).trans deferred.write
    · exact .failed fun none => failed (none.before tells)
  · exact .failed fun none => none.1 failed

/-! ### Beginning and end -/

/-- What a session does before its first event, once it has taken up its record: it settles. -/
def opening (c : Config) (d : Disk) (r : Record) : Session :=
  { log := ((Log.ofRecord c d r).tell .opening).tell .loopStarted }

theorem takingUp_eq (c : Config) (d : Disk) (r : Record) : takingUp c d r = (opening c d r).settle := rfl

/-- A session that begins has removed segments at most. -/
theorem opening_through {c : Config} {d : Disk} (r : Record) (homes : d.tree.Homes c dir)
    (named : c.Named) (down : Hereditary P) (now : P (d.tree.stock c dir)) :
    Disk.Through c dir P d (opening c d r).log.disk ∧ (opening c d r).log.Housed dir ∧
      (opening c d r).log.stock dir ≤ d.tree.stock c dir := by
  obtain ⟨found, found_eq⟩ : ∃ found : Log, found =
      { config := c, disk := d, read := r.read, next := r.read, write := r.write, depth := r.length } :=
    ⟨_, rfl⟩
  have config : found.config = c := by rw [found_eq]
  have disk : found.disk = d := by rw [found_eq]
  have housed : found.Housed dir := ⟨by rw [disk, config]; exact homes, by rw [found_eq]; nofun⟩
  have stock : found.stock dir = d.tree.stock c dir := by rw [Log.stock, disk, config]
  have taken : Log.Goes dir P found (Log.ofRecord c d r) ∧
      (Log.ofRecord c d r).stock dir ≤ found.stock dir := by
    have outcome := Log.ofRecord_outcome c d r
    rw [← found_eq] at outcome
    obtain ⟨-, told, eq⟩ | ⟨-, depth, sync, told, resets, eq, -⟩ := outcome
    · rw [eq]
      have sheds : Log.Sheds dir P found { found.fresh with
          disk := found.swept, needSync := true, journal := told, tailResets := 1 } :=
        housed.afresh (config ▸ named) down (stock ▸ now)
      exact ⟨sheds.toGoes, sheds.le⟩
    · rw [eq]
      exact ⟨housed.goes (.refl housed.homes) rfl (Or.inl rfl), Stock.le_refl _⟩
  obtain ⟨goes, le⟩ := taken
  have told := goes.trans (goes.housed.tell .opening)
  have begun : Log.Goes dir P found (opening c d r).log := told.trans (told.housed.tell .loopStarted)
  refine ⟨?_, begun.housed, ?_⟩
  · have through := begun.toThrough
    rw [config, disk] at through
    exact through
  · rw [← stock]
    exact le

/-- The last moments of a session: one that closes stores its record, one that deletes everything takes
it away. -/
theorem finish_through (h : s.log.Housed dir) (named : s.log.config.Named) (down : Hereditary P)
    (now : P (s.log.stock dir)) {mode : ExitMode}
    (closes : mode = .close → P { s.log.stock dir with record := some (Text.encode s.log.record.text) })
    (deletes : mode = .delete → P { s.log.swept.tree.stock s.log.config dir with record := none }) :
    Log.Goes dir P s.log (s.finish mode).2.log := by
  have closed : ∀ {log : Log} (n : Notice), Log.Goes dir P s.log log →
      Log.Goes dir P s.log (log.closeFiles.tell n) := by
    intro log n goes
    have shut : Log.Goes dir P log log.closeFiles :=
      goes.housed.goes (.refl goes.housed.homes) rfl (Or.inr rfl)
    exact goes.trans (shut.trans (shut.housed.tell n))
  obtain ⟨told, ⟨close, -, eq⟩ | ⟨delete, -, eq⟩⟩ := s.finish_cases mode
  · rw [eq]
    exact closed told (h.sync named now (closes close)).1
  · rw [eq]
    exact closed told (h.deleteAll named down now (deletes delete)).1

end Session

end DurableQueue
