import DurableQueue.Proofs.Log.Housed

/-!
# Where requests lead

`Log.Leads` relates a log to those that requests lead to, in any order and whatever fails. What one
request keeps, any number of them keep: what was told stays told (`Tells`), so that a log which has
not told of a failed sync never had one (`NoSyncFailed`); the cursors are in order and go on; what goes
into the record fits the words there (`Fits`); and the queue's files stay its own, with none left
behind if nothing fails (`Leads.housed`, `Leads.tight`).

What changes the cursors otherwise than a push or a delivery does asks for a sync (`commit_asks`,
`needSync_quarantine`, `ofRecord_asks`).
-/

namespace DurableQueue

open FileSystem

namespace Log

/-- What `log` has told `log'` has told before anything else. -/
def Tells (log log' : Log) : Prop := log.journal <:+ log'.journal

/-- No sync of the log has failed. -/
def NoSyncFailed (log : Log) : Prop := .syncFailed ∉ log.journal ∧ .rollSyncFailed ∉ log.journal

/-- Requests and what is told between them lead from a log to another. -/
inductive Leads (log : Log) : Log → Prop where
  | refl : Leads log log
  | serve {log' : Log} (lead : Leads log log') (r : Request) : Leads log (log'.serve r)
  | tell {log' : Log} (lead : Leads log log') (n : Notice) : Leads log (log'.tell n)

variable {log log' log'' : Log} {dir : Location} {m : Bytes} {r : Request}

theorem Leads.trans (first : log.Leads log') (second : log'.Leads log'') : log.Leads log'' := by
  induction second with
  | refl => exact first
  | serve lead r ih => exact .serve ih r
  | tell lead n ih => exact .tell ih n

theorem leads_serve (log : Log) (r : Request) : log.Leads (log.serve r) := .serve .refl r

/-! ### What is told stays told -/

theorem Tells.trans (first : log.Tells log') (second : log'.Tells log'') : log.Tells log'' :=
  List.IsSuffix.trans first second

theorem Tells.of_eq (same : log'.journal = log.journal) : log.Tells log' := ⟨[], same.symm⟩

theorem tells_tell (log : Log) (n : Notice) : log.Tells (log.tell n) := List.suffix_cons _ _

/-- A sync that failed is not forgotten. -/
theorem NoSyncFailed.before (none : log'.NoSyncFailed) (tells : log.Tells log') : log.NoSyncFailed :=
  ⟨fun told => none.1 (tells.subset told), fun told => none.2 (tells.subset told)⟩

theorem tells_storeRecord (log : Log) : log.Tells log.storeRecord.2 := by
  unfold storeRecord
  split
  · exact log.tells_tell _
  · split
    · exact log.tells_tell _
    · exact .of_eq rfl

theorem tells_sync (log : Log) : log.Tells log.sync.2 := by
  unfold sync
  split
  · exact log.tells_storeRecord
  · next h _ =>
    cases log.disk.sync h with
    | mk result d =>
      cases result with
      | error e => exact .of_eq rfl
      | ok u => exact Tells.trans (.of_eq rfl) (tells_storeRecord { log with disk := d })

theorem tells_roll (log : Log) : log.Tells log.roll := by
  by_cases full : log.config.maxBytesPerFile < log.write.offset
  case neg =>
    rw [log.roll_of_room full]
    exact .of_eq rfl
  have left : log.Tells log.rolled := List.suffix_cons _ _
  have ended := left.trans log.rolled.tells_sync
  rcases synced : log.rolled.sync with ⟨e | u, log'⟩
  · rw [synced] at ended
    rw [roll_of_unsynced full synced]
    exact ended.trans (log'.tells_tell .rollSyncFailed)
  · rw [synced] at ended
    rw [roll_of_synced full synced]
    exact ended

theorem tells_place (log : Log) (m : Bytes) : log.Tells (log.place m).2 := by
  unfold place
  simp only
  split
  · exact .of_eq rfl
  · obtain ⟨d, rest⟩ := openWriter_rest log
    revert rest
    cases log.openWriter with
    | mk result log' =>
      rintro rfl
      cases result with
      | error e => exact .of_eq rfl
      | ok h =>
        simp only
        cases d.write h (Frame.encode m) with
        | mk result d' =>
          cases result with
          | error e => exact .of_eq rfl
          | ok h' => exact .of_eq rfl

theorem tells_append (log : Log) (m : Bytes) : log.Tells (log.append m).2 := by
  have placed := log.tells_place m
  rw [append_eq]
  revert placed
  cases log.place m with
  | mk result log' =>
    intro placed
    cases result with
    | error e => exact placed
    | ok u => exact placed.trans log'.tells_roll

theorem tells_skip (log : Log) : log.Tells log.skip.2 := List.suffix_append _ _

theorem tells_heal (log : Log) : log.Tells log.heal := by
  have skipped := log.tells_skip
  unfold heal
  revert skipped
  cases log.skip with
  | mk result log' =>
    intro skipped
    cases result with
    | ok u => exact skipped
    | error e => exact skipped.trans (log'.tells_tell .healingIncomplete)

theorem needSync_heal (log : Log) : log.heal.needSync = true := by
  obtain ⟨told, eq⟩ := log.heal_outcome
  rw [eq]

/-- A look at the tail that changes something asks for a sync. -/
theorem checkTail_asks (log : Log) (length : Int) : (log.checkTail length).2 = log ∨
    log.Tells (log.checkTail length).2 ∧ (log.checkTail length).2.needSync = true := by
  unfold checkTail
  split
  · exact Or.inl rfl
  · obtain ⟨found, found_eq⟩ : ∃ found : Log, found = if length ≠ 0 then
        { log.tell .depthReset with depth := 0, needSync := true } else log := ⟨_, rfl⟩
    obtain ⟨put, put_eq⟩ : ∃ put : Log, put = if found.read ≠ found.write then
        (found.tell .cursorPassed).heal else found := ⟨_, rfl⟩
    have wrong : length ≠ 0 → log.Tells found ∧ found.needSync = true := by
      intro wrong
      rw [found_eq, if_pos wrong]
      exact ⟨log.tells_tell .depthReset, rfl⟩
    have first : log.Tells found := by
      by_cases right : length = 0
      · exact .of_eq (by rw [found_eq, if_neg (not_not.2 right)])
      · exact (wrong right).1
    simp only [← found_eq, ← put_eq]
    split
    · next changes =>
      have changed : log.Tells put ∧ put.needSync = true := by
        rw [put_eq]
        split
        · have healed := (found.tells_tell .cursorPassed).trans (tells_heal _)
          exact ⟨first.trans healed, needSync_heal _⟩
        · next met => exact wrong (changes.resolve_right met)
      exact Or.inr changed
    · next fine =>
      obtain ⟨right, met⟩ := not_or.1 fine
      rw [put_eq, if_neg met, found_eq, if_neg right]
      exact Or.inl rfl

theorem tells_checkTail (log : Log) (length : Int) : log.Tells (log.checkTail length).2 := by
  rcases log.checkTail_asks length with same | ⟨tells, -⟩
  · exact .of_eq (by rw [same])
  · exact tells

/-- A commit moves the read cursor on and looks at the tail; it asks for a sync if the cursor leaves its
segment. -/
theorem commit_moves_on (log : Log) : ∃ moved length, log.commit.2 = (moved.checkTail length).2 ∧
    log.Tells moved ∧ (moved.needSync = true ∨
      moved = { log with read := log.next, depth := Word.wrap (log.depth - 1) }) := by
  unfold commit
  simp only
  split
  · exact ⟨_, _, rfl, .of_eq rfl, Or.inr rfl⟩
  · cases log.disk.remove (segmentPath { log with
        read := log.next, depth := Word.wrap (log.depth - 1) } log.read.file) with
    | mk result d =>
      cases result with
      | error e => exact ⟨_, _, rfl, List.suffix_cons _ _, Or.inl rfl⟩
      | ok u => exact ⟨_, _, rfl, List.suffix_cons _ _, Or.inl rfl⟩

/-- Setting a segment aside asks for a sync and looks at the tail. -/
theorem quarantine_moves_on (log : Log) : ∃ moved length,
    log.quarantine = (moved.checkTail length).2 ∧ log.Tells moved ∧ moved.needSync = true := by
  obtain ⟨left, left_eq⟩ : ∃ left : Log, left = if log.read.file = log.write.file then
      { log with reader := none, writer := none, write := log.write.nextFile }
    else { log with reader := none } := ⟨_, rfl⟩
  have told : ∀ n, log.journal <:+ n :: left.journal := by
    intro n
    rw [left_eq]
    split
    · exact List.suffix_cons _ _
    · exact List.suffix_cons _ _
  unfold quarantine
  simp only [← left_eq]
  cases left.disk.rename (left.segmentPath left.read.file)
      (Naming.quarantinePath (left.segmentPath left.read.file)) with
  | mk result d =>
    cases result with
    | error e => exact ⟨_, _, rfl, told .quarantineFailed, rfl⟩
    | ok u => exact ⟨_, _, rfl, told .quarantined, rfl⟩

theorem tells_commit (log : Log) : log.Tells log.commit.2 := by
  obtain ⟨moved, length, eq, tells, -⟩ := log.commit_moves_on
  rw [eq]
  exact tells.trans (moved.tells_checkTail length)

theorem tells_quarantine (log : Log) : log.Tells log.quarantine := by
  obtain ⟨moved, length, eq, tells, -⟩ := log.quarantine_moves_on
  rw [eq]
  exact tells.trans (moved.tells_checkTail length)

theorem tells_deleteAll (log : Log) : log.Tells log.deleteAll.2 := by
  have skipped := log.tells_skip
  unfold deleteAll
  revert skipped
  cases log.skip with
  | mk result log' =>
    intro skipped
    simp only
    cases Record.remove log'.disk log'.recordPath with
    | mk removed d =>
      cases removed with
      | ok u => exact skipped
      | error e => exact skipped.trans (List.suffix_cons _ _)

theorem tells_readFrame (log : Log) : log.Tells log.readFrame.2 := by
  obtain ⟨m, d, reader, eq, -⟩ | ⟨e, d, reader, eq, -⟩ := log.readFrame_outcome
  · rw [eq]
    exact .of_eq rfl
  · rw [eq]
    exact .of_eq rfl

/-- **No request takes back what was told.** -/
theorem tells_serve (log : Log) (r : Request) : log.Tells (log.serve r) := by
  cases r with
  | append m => exact log.tells_append m
  | read => exact log.tells_readFrame
  | commit => exact log.tells_commit
  | quarantine => exact log.tells_quarantine
  | skip => exact log.tells_skip
  | deleteAll => exact log.tells_deleteAll
  | sync => exact log.tells_sync
  | requestSync | closeFiles => exact .of_eq rfl

theorem Leads.tells (lead : log.Leads log') : log.Tells log' := by
  induction lead with
  | refl => exact .of_eq rfl
  | serve lead r ih => exact ih.trans (tells_serve _ r)
  | tell lead n ih => exact ih.trans (tells_tell _ n)

/-! ### The cursors -/

theorem InOrder.leads (h : log.InOrder) (lead : log.Leads log') : log'.InOrder ∧ log.Onward log' := by
  induction lead with
  | refl => exact ⟨h, .refl log⟩
  | serve lead r ih =>
    obtain ⟨ordered, onward⟩ := ih
    obtain ⟨next, further⟩ := ordered.serve r
    exact ⟨next, onward.trans further⟩
  | tell lead n ih =>
    obtain ⟨ordered, onward⟩ := ih
    exact ⟨ordered.of_eq rfl rfl rfl rfl, onward.trans ⟨Position.le_refl _, Position.le_refl _⟩⟩

/-- What goes into the record fits the words there, but for the numbers of the segments. -/
structure Fits (log : Log) : Prop where
  read : log.read.offset < Word.limit
  next : log.next.offset < Word.limit
  write : log.write.offset < Word.limit
  low : -(Word.signedLimit : Int) ≤ log.depth
  high : log.depth < Word.signedLimit

/-- A log whose segments are not too many stores a record that can be read back. -/
theorem Fits.inWords (fits : log.Fits) (ordered : log.InOrder) (small : log.write.file < Word.limit) :
    log.record.InWords where
  low := fits.low
  high := fits.high
  read := ⟨Nat.lt_of_le_of_lt (Position.file_le ordered.read_le_write) small, fits.read⟩
  write := ⟨small, fits.write⟩

theorem zero_fits : 0 < Word.limit ∧ -(Word.signedLimit : Int) ≤ 0 ∧ (0 : Int) < Word.signedLimit := by
  decide

theorem fits_fresh (log : Log) {d : Disk} {sync : Bool} {told : List Notice} {resets : Nat} :
    Fits { log.fresh with disk := d, needSync := sync, journal := told, tailResets := resets } :=
  ⟨zero_fits.1, zero_fits.1, zero_fits.1, zero_fits.2.1, zero_fits.2.2⟩

theorem Tail.fits (tail : log.Tail log') (fits : log.Fits) : log'.Fits := by
  cases tail with
  | unread behind => exact fits
  | met meet sync told resets => exact ⟨fits.read, fits.next, fits.write, zero_fits.2.1, zero_fits.2.2⟩
  | crossed past told resets => exact log.fits_fresh

/-- The depth is a word of its own, and an offset above the limit leaves its segment. -/
theorem Fits.serve (fits : log.Fits) (limit : log.config.maxBytesPerFile < Word.limit) (r : Request) :
    (log.serve r).Fits := by
  have past : ∀ (p : Position) (size : Nat),
      (p.past log.config.maxBytesPerFile size).offset < Word.limit := by
    intro p size
    rcases Position.past_cases log.config.maxBytesPerFile p size with ⟨e, room⟩ | ⟨e, -⟩
    · rw [e]
      exact Nat.lt_of_le_of_lt room limit
    · rw [e]
      exact zero_fits.1
  cases r with
  | append m =>
    have outcome := log.append_outcome m
    rw [Log.serve]
    revert outcome
    generalize log.append m = out
    intro outcome
    cases outcome with
    | refused rejected => exact fits
    | closed path e d opens => exact ⟨fits.read, fits.next, fits.write, fits.low, fits.high⟩
    | failed x e d tree by_ opens => exact ⟨fits.read, fits.next, fits.write, fits.low, fits.high⟩
    | made x d d' tree sync told within by_ opens rolls =>
      obtain ⟨low, high⟩ := Word.wrap_fits (log.depth + 1)
      exact ⟨fits.read, fits.next, past _ _, low, high⟩
  | read =>
    rw [Log.serve]
    obtain ⟨m, d, reader, eq, -⟩ | ⟨e, d, reader, eq, -⟩ := log.readFrame_outcome
    · rw [eq]
      exact ⟨fits.read, past _ _, fits.write, fits.low, fits.high⟩
    · rw [eq]
      exact ⟨fits.read, fits.next, fits.write, fits.low, fits.high⟩
  | commit =>
    obtain ⟨sync, told, tail⟩ := log.commit_outcome
    obtain ⟨low, high⟩ := Word.wrap_fits (log.depth - 1)
    exact tail.fits ⟨fits.next, fits.next, fits.write, low, high⟩
  | quarantine =>
    obtain ⟨told, tail⟩ := log.quarantine_outcome
    refine tail.fits ⟨zero_fits.1, zero_fits.1, ?_, fits.low, fits.high⟩
    simp only
    split
    · exact zero_fits.1
    · exact fits.write
  | skip =>
    obtain ⟨told, eq⟩ := log.skip_outcome
    rw [Log.serve, eq]
    exact log.fits_fresh
  | deleteAll =>
    obtain ⟨told, eq⟩ := log.deleteAll_outcome
    rw [Log.serve, eq]
    exact log.fits_fresh
  | sync =>
    obtain ⟨d, sync, told, w, eq⟩ := log.sync_rest
    rw [Log.serve, eq]
    exact ⟨fits.read, fits.next, fits.write, fits.low, fits.high⟩
  | requestSync | closeFiles => exact ⟨fits.read, fits.next, fits.write, fits.low, fits.high⟩

theorem Tail.config_eq (tail : log.Tail log') : log'.config = log.config := by
  cases tail with
  | unread behind => rfl
  | met meet sync told resets => rfl
  | crossed past told resets => rfl

theorem config_serve (log : Log) (r : Request) : (log.serve r).config = log.config := by
  cases r with
  | append m =>
    obtain ⟨d, write, depth, sync, told, w, eq⟩ := log.append_rest m
    rw [Log.serve, eq]
  | read =>
    rw [Log.serve]
    obtain ⟨m, d, reader, eq, -⟩ | ⟨e, d, reader, eq, -⟩ := log.readFrame_outcome
    · rw [eq]
    · rw [eq]
  | commit =>
    obtain ⟨sync, told, tail⟩ := log.commit_outcome
    exact tail.config_eq
  | quarantine =>
    obtain ⟨told, tail⟩ := log.quarantine_outcome
    exact tail.config_eq
  | skip => rfl
  | deleteAll =>
    obtain ⟨told, eq⟩ := log.deleteAll_outcome
    rw [Log.serve, eq]
    rfl
  | sync =>
    obtain ⟨d, sync, told, w, eq⟩ := log.sync_rest
    rw [Log.serve, eq]
  | requestSync | closeFiles => rfl

theorem Leads.config_eq (lead : log.Leads log') : log'.config = log.config := by
  induction lead with
  | refl => rfl
  | serve lead r ih => exact (config_serve _ r).trans ih
  | tell lead n ih => exact ih

theorem Fits.leads (fits : log.Fits) (lead : log.Leads log')
    (limit : log.config.maxBytesPerFile < Word.limit) : log'.Fits := by
  induction lead with
  | refl => exact fits
  | serve lead r ih => exact ih.serve (lead.config_eq ▸ limit) r
  | tell lead n ih => exact ⟨ih.read, ih.next, ih.write, ih.low, ih.high⟩

/-- What a record says fits the log that takes it up. -/
theorem fits_ofRecord (c : Config) (d : Disk) {r : Record} (words : r.InWords) :
    (ofRecord c d r).Fits := by
  unfold ofRecord
  simp only
  split
  · obtain ⟨told, eq⟩ := heal_outcome (tell { config := c, disk := d, read := r.read, next := r.read
                                              write := r.write, depth := r.length } .cursorsCrossed)
    rw [eq]
    exact ⟨zero_fits.1, zero_fits.1, zero_fits.1, zero_fits.2.1, zero_fits.2.2⟩
  · split
    · exact ⟨words.read.2, words.read.2, words.write.2, zero_fits.2.1, zero_fits.2.2⟩
    · exact ⟨words.read.2, words.read.2, words.write.2, words.low, words.high⟩

/-- What a record says on the way to a log whose segments are not too many can be read back. -/
theorem Fits.inWords_between (fits : log.Fits) (ordered : log.InOrder)
    (limit : log.config.maxBytesPerFile < Word.limit) (lead : log.Leads log')
    (further : log'.Leads log'') (small : log''.write.file < Word.limit) : log'.record.InWords := by
  have between := (ordered.leads lead).1
  have onward := Position.file_le (between.leads further).2.write
  exact (fits.leads lead limit).inWords between (Nat.lt_of_le_of_lt onward small)

/-! ### What asks for a sync -/

/-- **A delivery that leaves a segment or puts something right asks for a sync.** -/
theorem commit_asks (log : Log) : log.commit.2.needSync = true ∨
    log.commit.2 = { log with read := log.next, depth := Word.wrap (log.depth - 1) } := by
  obtain ⟨moved, length, eq, -, asks⟩ := log.commit_moves_on
  rw [eq]
  rcases moved.checkTail_asks length with same | ⟨-, asked⟩
  · rw [same]
    exact asks
  · exact Or.inl asked

/-- Setting a segment aside asks for a sync. -/
theorem needSync_quarantine (log : Log) : log.quarantine.needSync = true := by
  obtain ⟨moved, length, eq, -, asks⟩ := log.quarantine_moves_on
  rw [eq]
  rcases moved.checkTail_asks length with same | ⟨-, asked⟩
  · rw [same]
    exact asks
  · exact asked

/-- A record that cannot be right is put right, and then a sync is asked for. -/
theorem ofRecord_asks (c : Config) (d : Disk) (r : Record) :
    (ofRecord c d r).needSync = true ∨ ((ofRecord c d r).record = r ∧ (ofRecord c d r).disk = d) := by
  unfold ofRecord
  simp only
  split
  · exact Or.inl (needSync_heal _)
  · split
    · exact Or.inl rfl
    · exact Or.inr ⟨rfl, rfl⟩

/-! ### The directory -/

theorem Housed.serve (h : log.Housed dir) (named : log.config.Named) (r : Request) :
    (log.serve r).Housed dir := by
  have everything : Hereditary fun _ => True := fun _ _ _ => id
  cases r with
  | append m => exact (h.append named everything m trivial trivial).1.housed
  | read => exact (h.readFrame (P := fun _ => True) trivial).1.housed
  | commit => exact (h.commit named everything trivial).toGoes.housed
  | quarantine => exact (h.quarantine named everything trivial).toGoes.housed
  | skip =>
    obtain ⟨told, eq⟩ := log.skip_outcome
    rw [Log.serve, eq]
    exact (h.afresh named everything trivial).toGoes.housed
  | deleteAll => exact (h.deleteAll named everything trivial trivial).1.housed
  | sync => exact (h.sync (P := fun _ => True) named trivial trivial).1.housed
  | requestSync => exact ⟨h.homes, h.writer⟩
  | closeFiles => exact ⟨h.homes, fun w open_ => by cases open_⟩

theorem Housed.leads (h : log.Housed dir) (named : log.config.Named) (lead : log.Leads log') :
    log'.Housed dir := by
  induction lead with
  | refl => exact h
  | serve lead r ih => exact ih.serve (lead.config_eq ▸ named) r
  | tell lead n ih => exact ⟨ih.homes, ih.writer⟩

/-- Without faults no request leaves a segment outside the cursors. -/
theorem Tight.serve (tight : log.Tight dir) (h : log.Housed dir) (sound : log.config.Sound)
    (ordered : log.InOrder) (small : (log.serve r).write.file < Word.limit) :
    (log.serve r).Tight dir := by
  have everything : Hereditary fun _ => True := fun _ _ _ => id
  have named := sound.named
  have first : log.write.file < Word.limit :=
    Nat.lt_of_le_of_lt (Position.file_le (ordered.serve r).2.write) small
  cases r with
  | append m => exact tight.append h named ordered m
  | read => exact tight.readFrame h
  | commit => exact (h.commit named everything trivial).tight sound small tight
  | quarantine => exact (h.quarantine named everything trivial).tight sound small tight
  | skip =>
    obtain ⟨told, eq⟩ := log.skip_outcome
    rw [Log.serve, eq] at small ⊢
    exact (h.afresh named everything trivial).tight sound small tight
  | deleteAll => exact (tight.deleteAll h named sound ordered.read_le_write first).2.1
  | sync => exact tight.sync h named
  | requestSync | closeFiles => exact ⟨tight.faultless, tight.within, tight.next_le⟩

theorem Tight.leads (tight : log.Tight dir) (h : log.Housed dir) (sound : log.config.Sound)
    (ordered : log.InOrder) (lead : log.Leads log') (small : log'.write.file < Word.limit) :
    log'.Tight dir := by
  induction lead with
  | refl => exact tight
  | @serve log' lead r ih =>
    have before : log'.write.file < Word.limit := Nat.lt_of_le_of_lt
      (Position.file_le ((ordered.leads lead).1.serve r).2.write) small
    exact (ih before).serve (h.leads sound.named lead) (lead.config_eq ▸ sound)
      (ordered.leads lead).1 small
  | tell lead n ih =>
    have same := ih small
    exact ⟨same.faultless, same.within, same.next_le⟩

end Log

end DurableQueue
