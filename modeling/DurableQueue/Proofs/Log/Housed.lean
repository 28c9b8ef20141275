import DurableQueue.Proofs.Log.Ordering
import DurableQueue.Proofs.Record.Replacing

/-!
# What a log leaves in its directory

A log is `Housed` if the queue's files are its own and what it has open for writing is no record.
Whatever fails, it stays so, and of each operation it is told what the directory holds at every moment
of it and in the end: reading changes nothing, a sync stores the record or leaves it
(`Housed.sync`), an append may make the segment at the write cursor and store the record when that is
left (`Housed.append`), and what moves the cursors on only removes segments (`Log.Sheds`).

Without faults nothing is left behind: as long as no segment lies outside the cursors (`Log.Tight`),
none will.
-/

namespace DurableQueue

open FileSystem

namespace Log

/-- What the directory of a log holds. -/
def stock (log : Log) (dir : Location) : Stock := log.disk.tree.stock log.config dir

/-- The log's files are its own, and what it has open for writing is no record. -/
structure Housed (log : Log) (dir : Location) : Prop where
  homes : log.disk.tree.Homes log.config dir
  writer : ∀ h ∈ log.writer, ∃ number, h.node = .file number ∧
    log.disk.tree.Aside log.config dir number

/-- An operation leads from a housed log to `log'`; at every moment of it the stock satisfies `P`. -/
structure Goes (dir : Location) (P : Stock → Prop) (log log' : Log) : Prop
    extends Disk.Through log.config dir P log.disk log'.disk where
  config_eq : log'.config = log.config
  writer : ∀ h ∈ log'.writer, ∃ number, h.node = .file number ∧
    log'.disk.tree.Aside log.config dir number

variable {log log' log'' : Log} {dir : Location} {P : Stock → Prop} {m : Bytes}

theorem Goes.housed (h : Goes dir P log log') : log'.Housed dir where
  homes := h.config_eq ▸ h.homes
  writer := h.config_eq ▸ h.writer

theorem Goes.trans (first : Goes dir P log log') (second : Goes dir P log' log'') :
    Goes dir P log log'' := by
  have through := second.toThrough
  have writer := second.writer
  rw [first.config_eq] at through writer
  exact { first.toThrough.trans through with
    config_eq := second.config_eq.trans first.config_eq, writer }

/-- At every moment of an operation the stock satisfies `P`. -/
theorem Goes.since (h : Goes dir P log log') (housed : log.Housed dir) (now : P (log.stock dir)) :
    ∀ t ∈ log'.disk.since log.disk, t.Stocks log.config dir P := h.toThrough.since ⟨housed.homes, now⟩

theorem Housed.refl (h : log.Housed dir) : Goes dir P log log :=
  { Disk.Through.refl h.homes with config_eq := rfl, writer := h.writer }

/-- An operation that opens nothing for writing goes on as the disk does. -/
theorem Housed.goes (h : log.Housed dir)
    (through : Disk.Through log.config dir P log.disk log'.disk) (config : log'.config = log.config)
    (writer : log'.writer = log.writer ∨ log'.writer = none) : Goes dir P log log' := by
  refine { through with config_eq := config, writer := fun w open_ => ?_ }
  rcases writer with same | closed
  · obtain ⟨number, node, aside⟩ := h.writer w (same ▸ open_)
    exact ⟨number, node, through.aside number aside⟩
  · rw [closed] at open_
    cases open_

theorem Housed.tell (h : log.Housed dir) (n : Notice) : Goes dir P log (log.tell n) :=
  h.goes (.refl h.homes) rfl (Or.inl rfl)

/-! ### Reading -/

/-- Reading changes nothing. -/
theorem Housed.readFrame (h : log.Housed dir) (now : P (log.stock dir)) :
    Goes dir P log log.readFrame.2 ∧ log.readFrame.2.stock dir = log.stock dir := by
  obtain ⟨m, d, reader, eq, looks⟩ | ⟨e, d, reader, eq, looks⟩ := log.readFrame_outcome
  · rw [eq]
    exact ⟨h.goes (looks.through h.homes now) rfl (Or.inl rfl), by rw [stock, looks.tree_eq]; rfl⟩
  · rw [eq]
    exact ⟨h.goes (looks.through h.homes now) rfl (Or.inl rfl), by rw [stock, looks.tree_eq]; rfl⟩

/-! ### Syncing -/

/-- What became of the record: it is there and nothing more is to be synced, or the last one is still
there. -/
def Lands (log : Log) (dir : Location) (result : Except Error Unit) (log' : Log) : Prop :=
  result = .ok () ∧ log'.needSync = false ∧
      log'.stock dir = { log.stock dir with record := some (Text.encode log.record.text) } ∨
    (∃ e, result = .error e) ∧ log'.stock dir = log.stock dir

section Syncing

variable (h : log.Housed dir) (named : log.config.Named) (now : P (log.stock dir))
include h named now

theorem Housed.storeRecord
    (after : P { log.stock dir with record := some (Text.encode log.record.text) }) :
    Goes dir P log log.storeRecord.2 ∧ log.Lands dir log.storeRecord.1 log.storeRecord.2 := by
  have path : log.recordPath = log.config.path .record := rfl
  obtain ⟨through, outcome⟩ := Record.store_through h.homes named now log.record after
  unfold Log.storeRecord
  rw [path]
  revert through outcome
  cases log.record.store log.disk (log.config.path .record) with
  | mk result disk leftover =>
    intro through outcome
    cases result with
    | ok u =>
      refine ⟨h.goes through rfl (Or.inl rfl), Or.inl ⟨rfl, rfl, ?_⟩⟩
      rcases outcome with ⟨-, stock⟩ | ⟨⟨e, no⟩, -⟩
      · exact stock
      · cases no
    | error e =>
      have kept : disk.tree.stock log.config dir = log.stock dir := by
        rcases outcome with ⟨no, -⟩ | ⟨-, stock⟩
        · cases no
        · exact stock
      cases leftover with
      | false => exact ⟨h.goes through rfl (Or.inl rfl), Or.inr ⟨⟨e, rfl⟩, kept⟩⟩
      | true => exact ⟨h.goes through rfl (Or.inl rfl), Or.inr ⟨⟨e, rfl⟩, kept⟩⟩

/-- **A sync stores the record, or says that it did not.** -/
theorem Housed.sync
    (after : P { log.stock dir with record := some (Text.encode log.record.text) }) :
    Goes dir P log log.sync.2 ∧ log.Lands dir log.sync.1 log.sync.2 := by
  rcases Option.eq_none_or_eq_some log.writer with closed | ⟨w, writing⟩
  · have eq : log.sync = log.storeRecord := by simp only [Log.sync, closed]
    rw [eq]
    exact h.storeRecord named now after
  · obtain ⟨number, node, aside⟩ := h.writer w writing
    obtain ⟨first, same⟩ := Disk.sync_through h.homes now w node aside.small (aside.apart .record trivial)
    rcases synced : log.disk.sync w with ⟨e | u, d⟩
    · have eq : log.sync = (.error (.syncSegment w.path e), { log with disk := d, writer := none }) := by
        simp only [Log.sync, writing, synced]
      rw [synced] at first same
      rw [eq]
      exact ⟨h.goes first rfl (Or.inr rfl), Or.inr ⟨⟨_, rfl⟩, same⟩⟩
    · have eq : log.sync = ({ log with disk := d } : Log).storeRecord := by
        simp only [Log.sync, writing, synced]
      rw [synced] at first same
      have brought : Goes dir P log { log with disk := d } := h.goes first rfl (Or.inl rfl)
      have stock : Log.stock { log with disk := d } dir = log.stock dir := same
      obtain ⟨second, lands⟩ := Housed.storeRecord (P := P) brought.housed named
        (by rw [stock]; exact now) (by rw [stock]; exact after)
      rw [Lands, stock] at lands
      rw [eq]
      exact ⟨brought.trans second, lands⟩

end Syncing

/-! ### Appending -/

section Appending

variable (h : log.Housed dir) (named : log.config.Named) (down : Hereditary P)
include h named down

theorem Housed.openWriter (may : P ((log.stock dir).insert log.write.file)) :
    ∃ d, log.openWriter.2 = { log with disk := d } ∧ Disk.Through log.config dir P log.disk d ∧
      d.tree.stock log.config dir ≤ (log.stock dir).insert log.write.file ∧
      ∀ w, log.openWriter.1 = .ok w → ∃ number, w.node = .file number ∧
        d.tree.Aside log.config dir number := by
  have now : P (log.stock dir) := down (Stock.le_insert _ _) may
  rcases Option.eq_none_or_eq_some log.writer with closed | ⟨w, writing⟩
  case inr =>
    have eq : log.openWriter = (.ok w, log) := by simp only [Log.openWriter, writing]
    rw [eq]
    refine ⟨log.disk, rfl, .refl h.homes, Stock.le_insert _ _, fun w' ok => ?_⟩
    cases ok
    exact h.writer w writing
  have path : log.segmentPath log.write.file = log.config.path (.segment log.write.file) := rfl
  obtain ⟨opened, most, made⟩ := Disk.openWrite_through h.homes named down may
  have start := fun w => @Disk.openWrite_ok log.disk w (log.config.path (.segment log.write.file))
  unfold Log.openWriter
  rw [closed]
  simp only [path]
  revert opened most made start
  cases log.disk.openWrite (log.config.path (.segment log.write.file)) with
  | mk result d =>
    intro opened most made start
    cases result with
    | error e => exact ⟨d, rfl, opened, most, fun w ok => by cases ok⟩
    | ok w =>
      obtain ⟨number, node, aside⟩ := made w rfl
      have looks := Disk.looks_seek (d := d) w log.write.offset
      have placed := fun w' => @Disk.seek_ok d w w' log.write.offset (start w rfl).2
      have sought : Disk.Through log.config dir P d (d.seek w log.write.offset).2 :=
        looks.through opened.homes (down most may)
      have same := looks.tree_eq
      simp only
      revert sought same placed
      cases d.seek w log.write.offset with
      | mk result d' =>
        intro placed sought same
        have most' : d'.tree.stock log.config dir ≤ (log.stock dir).insert log.write.file := by
          rw [same]
          exact most
        cases result with
        | error e => exact ⟨d', rfl, opened.trans sought, most', fun w ok => by cases ok⟩
        | ok w' =>
          refine ⟨d', rfl, opened.trans sought, most', fun x ok => ?_⟩
          cases ok
          refine ⟨number, ?_, sought.aside number aside⟩
          rw [placed w' rfl]
          exact node

/-- An append up to the moment at which the segment may be left: its frame is there or it is not,
and no more has become of the stock than that the segment may have been made. -/
theorem Housed.place (m : Bytes) (may : P ((log.stock dir).insert log.write.file)) :
    Goes dir P log (log.place m).2 ∧
      (log.place m).2.stock dir ≤ (log.stock dir).insert log.write.file ∧
      ((∃ e d w, log.place m = (.error e, { log with disk := d, writer := w })) ∨
        ∃ d w, log.place m = (.ok (), { log with
          disk := d, write := ⟨log.write.file, log.write.offset + Frame.diskSize m.length⟩
          writer := w, depth := Word.wrap (log.depth + 1) })) := by
  unfold Log.place
  simp only
  split
  · exact ⟨h.refl, Stock.le_insert _ _, Or.inl ⟨_, log.disk, log.writer, rfl⟩⟩
  obtain ⟨d, rest, first, most, opened⟩ := h.openWriter named down may
  revert rest opened
  cases log.openWriter with
  | mk result log' =>
    rintro rfl opened
    cases result with
    | error e =>
      exact ⟨h.goes first rfl (Or.inl rfl), most, Or.inl ⟨e, d, log.writer, rfl⟩⟩
    | ok w =>
      obtain ⟨number, node, aside⟩ := opened w rfl
      obtain ⟨second, same⟩ := Disk.write_through (P := P) first.homes (down most may) w node
        aside.small (aside.apart .record trivial) (Frame.encode m)
      have moved : ∀ w', (d.write w (Frame.encode m)).1 = .ok w' → w'.node = .file number := by
        intro w' ok
        obtain ⟨e, tree, eq⟩ | ⟨tree, eq⟩ := d.write_outcome w (Frame.encode m)
        · rw [eq] at ok
          cases ok
        · rw [eq] at ok
          cases ok
          exact node
      simp only
      revert second same moved
      cases d.write w (Frame.encode m) with
      | mk result d' =>
        intro second same moved
        have most' : d'.tree.stock log.config dir ≤ (log.stock dir).insert log.write.file := by
          rw [same]
          exact most
        cases result with
        | error e =>
          exact ⟨h.goes (first.trans second) rfl (Or.inr rfl), most', Or.inl ⟨_, d', none, rfl⟩⟩
        | ok w' =>
          refine ⟨{ first.trans second with config_eq := rfl, writer := fun x open_ => ?_ }, most',
            Or.inr ⟨d', some w', rfl⟩⟩
          cases open_
          exact ⟨number, moved w' rfl, second.aside number aside⟩

omit h named down in
theorem record_roll (log : Log) (full : log.config.maxBytesPerFile < log.write.offset) :
    log.rolled.record = log.roll.record := by
  obtain ⟨told, rolled⟩ := log.roll_of_full full
  obtain ⟨d, sync, told', w, rest, -, -⟩ := log.rolled.sync_outcome
  rw [rolled, rest]
  rfl

omit down in
/-- A segment that is left is closed, and the record is stored; if it is not, that is told. -/
theorem Housed.roll (now : P (log.stock dir)) (full : log.config.maxBytesPerFile < log.write.offset)
    (after : P { log.stock dir with record := some (Text.encode log.rolled.record.text) }) :
    Goes dir P log log.roll ∧
      (log.roll.needSync = false ∧ log.roll.stock dir =
          { log.stock dir with record := some (Text.encode log.roll.record.text) } ∨
        .rollSyncFailed ∈ log.roll.journal ∧ log.roll.stock dir = log.stock dir) := by
  have left : Goes dir P log log.rolled := h.goes (.refl h.homes) rfl (Or.inl rfl)
  obtain ⟨synced, lands⟩ := left.housed.sync (P := P) named now after
  obtain ⟨d, sync, told, w, rest, -, -⟩ := log.rolled.sync_outcome
  rcases result : log.rolled.sync with ⟨e | u, log'⟩
  · rw [result] at synced lands rest
    rw [roll_of_unsynced full result]
    subst rest
    refine ⟨left.trans (synced.trans (synced.housed.goes (.refl synced.homes) rfl (Or.inr rfl))),
      Or.inr ⟨List.mem_cons_self, ?_⟩⟩
    rcases lands with ⟨no, -⟩ | ⟨-, stock⟩
    · cases no
    · exact stock
  · rw [result] at synced lands rest
    rw [roll_of_synced full result]
    subst rest
    refine ⟨left.trans (synced.trans (synced.housed.goes (.refl synced.homes) rfl (Or.inr rfl))),
      Or.inl ?_⟩
    rcases lands with ⟨-, calm, stock⟩ | ⟨⟨e, no⟩, -⟩
    · exact ⟨calm, stock⟩
    · cases no

/-- What an append leaves: no more than the segment at the write cursor is new, and if the cursor has
left that, the record is the log's, or a sync has failed. -/
inductive Leaves (log : Log) (dir : Location) (log' : Log) : Prop where
  | within (le : log'.stock dir ≤ (log.stock dir).insert log.write.file)
    (write : log'.write.file = log.write.file) (sync : log'.needSync = log.needSync)
  | stored (le : log'.stock dir ≤ { (log.stock dir).insert log.write.file with
      record := some (Text.encode log'.record.text) }) (sync : log'.needSync = false)
  | unstored (le : log'.stock dir ≤ (log.stock dir).insert log.write.file)
    (failed : .rollSyncFailed ∈ log'.journal)

theorem Housed.append (m : Bytes) (may : P ((log.stock dir).insert log.write.file))
    (after : P { (log.stock dir).insert log.write.file with
      record := some (Text.encode (log.append m).2.record.text) }) :
    Goes dir P log (log.append m).2 ∧ log.Leaves dir (log.append m).2 := by
  obtain ⟨placed, most, ⟨e, d, w, eq⟩ | ⟨d, w, eq⟩⟩ := h.place named down m may
  · rw [append_eq, eq]
    rw [eq] at placed most
    exact ⟨placed, .within most rfl rfl⟩
  · obtain ⟨framed, framed_eq⟩ : ∃ framed : Log, framed = { log with
        disk := d, write := ⟨log.write.file, log.write.offset + Frame.diskSize m.length⟩
        writer := w, depth := Word.wrap (log.depth + 1) } := ⟨_, rfl⟩
    rw [← framed_eq] at eq
    have appended : (log.append m).2 = framed.roll := by rw [append_eq, eq]
    rw [eq] at placed most
    rw [appended]
    by_cases full : log.config.maxBytesPerFile < log.write.offset + Frame.diskSize m.length
    · have above : framed.config.maxBytesPerFile < framed.write.offset := by
        rw [framed_eq]
        exact full
      rw [appended, ← framed.record_roll above] at after
      obtain ⟨rolled, outcome⟩ := placed.housed.roll (P := P) (placed.config_eq ▸ named)
        (down most may) above (down (Stock.record_mono most _) after)
      refine ⟨placed.trans rolled, ?_⟩
      rcases outcome with ⟨sync, stock⟩ | ⟨failed, stock⟩
      · exact .stored (stock ▸ Stock.record_mono most _) sync
      · exact .unstored (stock ▸ most) failed
    · have room : framed.roll = framed := roll_of_room _ (by rw [framed_eq]; exact full)
      rw [room]
      exact ⟨placed, .within most (by rw [framed_eq]) (by rw [framed_eq])⟩

end Appending

/-! ### Moving on -/

/-- Nothing fails, and no segment lies outside the cursors. -/
structure Tight (log : Log) (dir : Location) : Prop where
  faultless : log.disk.Faultless
  within : ∀ k, (log.stock dir).segments k → log.read.file ≤ k ∧ k ≤ log.write.file
  next_le : log.next.file ≤ log.read.file + 1

/-- An operation that at most removes segments, and none too few. -/
structure Sheds (dir : Location) (P : Stock → Prop) (log log' : Log) : Prop
    extends Goes dir P log log' where
  le : log'.stock dir ≤ log.stock dir
  tight : log.config.Sound → log'.write.file < Word.limit → log.Tight dir → log'.Tight dir

theorem removeEach_through {c : Config} {d : Disk} (named : c.Named) (down : Hereditary P)
    (homes : d.tree.Homes c dir) (now : P (d.tree.stock c dir)) (ks : List Nat) :
    Disk.Through c dir P d (d.removeEach (ks.map fun k => c.path (.segment k))).2 ∧
      (d.removeEach (ks.map fun k => c.path (.segment k))).2.tree.stock c dir ≤
        d.tree.stock c dir ∧
      (d.Faultless → ∀ k ∈ ks, c.isLong (.segment k) = false →
        ¬((d.removeEach (ks.map fun k => c.path (.segment k))).2.tree.stock c dir).segments k) ∧
      (d.Faultless → (∀ k ∈ ks, c.isLong (.segment k) = false) →
        (d.removeEach (ks.map fun k => c.path (.segment k))).1 = []) := by
  induction ks generalizing d with
  | nil => exact ⟨.refl homes, Stock.le_refl _, fun _ => nofun, fun _ _ => rfl⟩
  | cons k ks ih =>
    obtain ⟨first, le, exactly⟩ := Disk.remove_through (k := k) homes named down now
    rw [List.map_cons, Disk.removeEach]
    revert first le exactly
    cases d.remove (c.path (.segment k)) with
    | mk result d' =>
      intro first le exactly
      obtain ⟨rest, le', gone, none_⟩ := ih first.homes (down le now)
      -- what is gone after the first removal is still gone after the others
      have all_gone : d.Faultless → ∀ j ∈ k :: ks, c.isLong (.segment j) = false →
          ¬((d'.removeEach (ks.map fun k => c.path (.segment k))).2.tree.stock c dir).segments j := by
        intro faultless j hj short
        rcases List.mem_cons.1 hj with rfl | later
        · exact fun there => ((exactly faultless short).1.2 j (le'.2 j there)).2 rfl
        · exact gone (first.faultless faultless) j later short
      have others : d.Faultless → (∀ j ∈ k :: ks, c.isLong (.segment j) = false) →
          (d'.removeEach (ks.map fun k => c.path (.segment k))).1 = [] := fun faultless short =>
        none_ (first.faultless faultless) fun j hj => short j (List.mem_cons_of_mem _ hj)
      cases result with
      | error e =>
        refine ⟨first.trans rest, Stock.le_trans le' le, all_gone, fun faultless short => ?_⟩
        rcases (exactly faultless (short k List.mem_cons_self)).2 with no | missing
        · cases no
        · cases missing
          exact others faultless short
      | ok u => exact ⟨first.trans rest, Stock.le_trans le' le, all_gone, others⟩

section Shedding

variable (h : log.Housed dir) (named : log.config.Named) (down : Hereditary P)
  (now : P (log.stock dir))
include h named down now

/-- Sweeping leaves no segment between the cursors, unless a removal fails. -/
theorem Housed.swept : Disk.Through log.config dir P log.disk log.swept ∧
    log.swept.tree.stock log.config dir ≤ log.stock dir ∧
    (log.disk.Faultless → ∀ k ∈ log.span, log.config.isLong (.segment k) = false →
      ¬(log.swept.tree.stock log.config dir).segments k) ∧
    (log.disk.Faultless → (∀ k ∈ log.span, log.config.isLong (.segment k) = false) →
      log.skip.1 = .ok ()) := by
  have paths : log.span.map log.segmentPath =
      log.span.map fun k => log.config.path (.segment k) := rfl
  obtain ⟨through, le, gone, all⟩ := removeEach_through named down h.homes now log.span
  refine ⟨through, le, gone, fun faultless short => ?_⟩
  have none_failed : (log.disk.removeEach ((List.range' (min log.read.file log.write.file)
      (max log.read.file log.write.file + 1 - min log.read.file log.write.file)).map
        log.segmentPath)).1 = [] := all faultless short
  simp only [Log.skip, none_failed, List.getLast?_nil]

/-- No segment is left of a log that starts afresh. -/
theorem Housed.none_swept (sound : log.config.Sound) (small : log.write.file < Word.limit)
    (tight : log.Tight dir) (k : Nat) : ¬(log.swept.tree.stock log.config dir).segments k := by
  intro there
  obtain ⟨-, le, gone, -⟩ := h.swept named down now
  obtain ⟨low, high⟩ := tight.within k (le.2 k there)
  have numbered : (QueueFile.segment k).Numbered := Nat.lt_of_le_of_lt high small
  refine gone tight.faultless k ?_ (sound.isLong_eq numbered) there
  rw [mem_span]
  omega

/-- A log that starts afresh has removed all segments between the cursors. -/
theorem Housed.afresh {sync : Bool} {told : List Notice} {resets : Nat} :
    Sheds dir P log { log.fresh with
      disk := log.swept, needSync := sync, journal := told, tailResets := resets } := by
  obtain ⟨through, le, -⟩ := h.swept named down now
  have goes : Goes dir P log { log.fresh with
      disk := log.swept, needSync := sync, journal := told, tailResets := resets } :=
    h.goes through rfl (Or.inr rfl)
  refine { goes with le := le, tight := fun sound small tight => ?_ }
  have first : log.write.file < Word.limit := by
    simp only [fresh] at small
    omega
  exact ⟨through.faultless tight.faultless,
    fun k there => absurd there (h.none_swept named down now sound first tight k), Nat.le_succ _⟩

/-- A look at the tail removes segments only if the cursors crossed, and then all between them. -/
theorem Tail.sheds (tail : log.Tail log') : Sheds dir P log log' := by
  cases tail with
  | unread behind => exact { h.refl with le := Stock.le_refl _, tight := fun _ _ => id }
  | met meet sync told resets =>
    have goes : Goes dir P log { log with
        depth := 0, needSync := sync, journal := told, tailResets := resets } :=
      h.goes (.refl h.homes) rfl (Or.inl rfl)
    exact { goes with
      le := Stock.le_refl _
      tight := fun _ _ tight => ⟨tight.faultless, tight.within, tight.next_le⟩ }
  | crossed past told resets => exact h.afresh named down now

/-- Committing removes the segment that the read cursor leaves. -/
theorem Housed.commit : Sheds dir P log log.commit.2 := by
  have path : log.segmentPath log.read.file = log.config.path (.segment log.read.file) := rfl
  obtain ⟨sync, told, tail⟩ := log.commit_outcome
  obtain ⟨d, d_eq⟩ : ∃ d, d = if log.next.file = log.read.file then log.disk
    else (log.disk.remove (log.segmentPath log.read.file)).2 := ⟨_, rfl⟩
  rw [← d_eq] at tail
  obtain ⟨through, le, exactly⟩ : Disk.Through log.config dir P log.disk d ∧
      d.tree.stock log.config dir ≤ log.stock dir ∧
      (log.disk.Faultless → log.config.isLong (.segment log.read.file) = false →
        log.next.file ≠ log.read.file →
          d.tree.stock log.config dir ≤ (log.stock dir).erase log.read.file) := by
    rw [d_eq, path]
    split
    · next same => exact ⟨.refl h.homes, Stock.le_refl _, fun _ _ left => absurd same left⟩
    · obtain ⟨through, le, exactly⟩ := Disk.remove_through (k := log.read.file) h.homes named down now
      exact ⟨through, le, fun faultless short _ => (exactly faultless short).1⟩
  obtain ⟨moved, moved_eq⟩ : ∃ moved : Log, moved = { log with
    read := log.next, depth := Word.wrap (log.depth - 1), disk := d, needSync := sync, journal := told } :=
    ⟨_, rfl⟩
  rw [← moved_eq] at tail
  have goes : Goes dir P log moved := by
    rw [moved_eq]
    exact h.goes through rfl (Or.inl rfl)
  have stock : moved.stock dir = d.tree.stock log.config dir := by rw [moved_eq]; rfl
  have sheds := tail.sheds goes.housed (goes.config_eq ▸ named) down (stock ▸ down le now)
  refine { goes.trans sheds.toGoes with
    le := Stock.le_trans sheds.le (stock ▸ le), tight := fun sound small tight => ?_ }
  refine sheds.tight (goes.config_eq ▸ sound) small ?_
  have first : log.write.file < Word.limit := by
    have onward := Position.file_le tail.onward.write
    rw [moved_eq] at onward
    exact Nat.lt_of_le_of_lt onward small
  refine ⟨goes.faultless tight.faultless, fun k there => ?_, by rw [moved_eq]; exact Nat.le_succ _⟩
  rw [stock] at there
  obtain ⟨low, high⟩ := tight.within k (le.2 k there)
  rw [moved_eq]
  refine ⟨?_, high⟩
  have next := tight.next_le
  by_cases left : log.next.file = log.read.file
  · exact left ▸ low
  · have numbered : (QueueFile.segment log.read.file).Numbered :=
      Nat.lt_of_le_of_lt (Nat.le_trans low high) first
    have apart := (exactly tight.faultless (sound.isLong_eq numbered) left).2 k there
    have other : k ≠ log.read.file := apart.2
    simp only
    omega

/-- Setting a segment aside takes it away from the read cursor, which leaves it. -/
theorem Housed.quarantine : Sheds dir P log log.quarantine := by
  have path : Naming.quarantinePath (log.segmentPath log.read.file) =
      log.config.path (.quarantined log.read.file) := named.path_quarantined log.read.file
  have path' : log.segmentPath log.read.file = log.config.path (.segment log.read.file) := rfl
  obtain ⟨told, tail⟩ := log.quarantine_outcome
  rw [path, path'] at tail
  obtain ⟨through, le, exactly⟩ := Disk.rename_through (k := log.read.file) h.homes named down now
  revert tail through le exactly
  generalize (log.disk.rename (log.config.path (.segment log.read.file))
    (log.config.path (.quarantined log.read.file))).2 = d
  intro tail through le exactly
  obtain ⟨moved, moved_eq⟩ : ∃ moved : Log, moved = { log with
      read := log.read.nextFile, next := log.read.nextFile
      write := if log.read.file = log.write.file then log.write.nextFile else log.write
      disk := d, needSync := true, journal := told, reader := none
      writer := if log.read.file = log.write.file then none else log.writer } := ⟨_, rfl⟩
  rw [← moved_eq] at tail
  have goes : Goes dir P log moved := by
    rw [moved_eq]
    refine h.goes through rfl ?_
    by_cases here : log.read.file = log.write.file
    · exact Or.inr (if_pos here)
    · exact Or.inl (if_neg here)
  have stock : moved.stock dir = d.tree.stock log.config dir := by rw [moved_eq]; rfl
  have sheds := tail.sheds goes.housed (goes.config_eq ▸ named) down (stock ▸ down le now)
  refine { goes.trans sheds.toGoes with
    le := Stock.le_trans sheds.le (stock ▸ le), tight := fun sound small tight => ?_ }
  refine sheds.tight (goes.config_eq ▸ sound) small ?_
  have onward := Position.file_le tail.onward.write
  rw [moved_eq] at onward
  refine ⟨goes.faultless tight.faultless, fun k there => ?_, by rw [moved_eq]; exact Nat.le_succ _⟩
  rw [stock] at there
  obtain ⟨low, high⟩ := tight.within k (le.2 k there)
  have numbered : log.read.file < Word.limit := by
    simp only at onward
    split at onward
    · simp only [Position.nextFile] at onward
      omega
    · omega
  have apart : k ≠ log.read.file :=
    ((exactly tight.faultless (sound.isLong_eq (f := .segment log.read.file) numbered)
      (sound.isLong_eq (f := .quarantined log.read.file) numbered)).2 k there).2
  rw [moved_eq]
  simp only
  split
  · simp only [Position.nextFile]
    omega
  · simp only [Position.nextFile]
    omega

/-- Deleting removes segments and then the record, or leaves that. -/
theorem Housed.deleteAll (after : P { log.swept.tree.stock log.config dir with record := none }) :
    Goes dir P log log.deleteAll.2 ∧ P (log.deleteAll.2.stock dir) := by
  have path : log.recordPath = log.config.path .record := rfl
  obtain ⟨told, eq⟩ := log.deleteAll_outcome
  obtain ⟨first, le, -⟩ := h.swept named down now
  obtain ⟨second, came, -⟩ := Record.remove_through first.homes named (down le now) after
  rw [eq, path]
  refine ⟨h.goes (first.trans second) rfl (Or.inr rfl), ?_⟩
  rw [Log.stock]
  simp only [fresh]
  rcases came with stock | stock
  · rw [stock]
    exact after
  · rw [stock]
    exact down le now

omit down now in
/-- **Without faults deleting leaves nothing.** -/
theorem Tight.deleteAll (tight : log.Tight dir) (sound : log.config.Sound)
    (ordered : log.read ≤ log.write) (small : log.write.file < Word.limit) :
    log.deleteAll.1 = .ok () ∧ log.deleteAll.2.Tight dir ∧
      (∀ k, ¬(log.deleteAll.2.stock dir).segments k) ∧
      (log.deleteAll.2.stock dir).record = none := by
  have path : log.recordPath = log.config.path .record := rfl
  have everything : Hereditary fun _ => True := fun _ _ _ => id
  obtain ⟨told, eq⟩ := log.deleteAll_outcome
  obtain ⟨first, -, -, skipped⟩ := h.swept named everything trivial
  obtain ⟨second, -, exactly⟩ := Record.remove_through (P := fun _ => True) first.homes named trivial
    trivial
  obtain ⟨removed, stock⟩ := exactly (first.faultless tight.faultless)
    (sound.isLong_eq QueueFile.numbered_record)
  have done : log.skip.1 = .ok () := by
    refine skipped tight.faultless fun k there => sound.isLong_eq (f := .segment k) ?_
    have between := Position.file_le ordered
    rw [mem_span] at there
    exact Nat.lt_of_le_of_lt (by omega) small
  have left : log.deleteAll.2.stock dir =
      { log.swept.tree.stock log.config dir with record := none } := by
    rw [eq, Log.stock, path]
    exact stock
  have gone : ∀ k, ¬(log.deleteAll.2.stock dir).segments k := by
    intro k there
    rw [left] at there
    exact h.none_swept named everything trivial sound small tight k there
  refine ⟨?_, ⟨?_, fun k there => absurd there (gone k), ?_⟩, gone, by rw [left]⟩
  · rw [eq, path, removed]
    exact done
  · rw [eq, path]
    exact (first.trans second).faultless tight.faultless
  · rw [eq]
    exact Nat.le_succ _

end Shedding

/-! ### Nothing is left behind -/

section Tight

variable (tight : log.Tight dir) (h : log.Housed dir)
include tight h

/-- Reading takes `next` no further than to the next segment. -/
theorem Tight.readFrame : log.readFrame.2.Tight dir := by
  obtain ⟨goes, stock⟩ := h.readFrame (P := fun _ => True) trivial
  have faultless := goes.faultless tight.faultless
  have within := tight.within
  rw [← stock] at within
  obtain ⟨m, d, reader, eq, -⟩ | ⟨e, d, reader, eq, -⟩ := log.readFrame_outcome
  · rw [eq] at faultless within ⊢
    refine ⟨faultless, within, ?_⟩
    rcases Position.past_cases log.config.maxBytesPerFile log.read m.length with ⟨e, -⟩ | ⟨e, -⟩
    · simp only [e]
      exact Nat.le_succ _
    · simp only [e]
      exact Nat.le_refl _
  · rw [eq] at faultless within ⊢
    exact ⟨faultless, within, tight.next_le⟩

theorem Tight.sync (named : log.config.Named) : log.sync.2.Tight dir := by
  obtain ⟨goes, lands⟩ := h.sync (P := fun _ => True) named trivial trivial
  have faultless := goes.faultless tight.faultless
  have segments : (log.sync.2.stock dir).segments = (log.stock dir).segments := by
    rcases lands with ⟨-, -, stock⟩ | ⟨-, stock⟩
    · rw [stock]
    · rw [stock]
  obtain ⟨d, sync, told, w, eq, -, -⟩ := log.sync_outcome
  have within := tight.within
  rw [← segments] at within
  rw [eq] at faultless within ⊢
  exact ⟨faultless, within, tight.next_le⟩

/-- The segment that an append makes is the one at the write cursor. -/
theorem Tight.append (named : log.config.Named) (ordered : log.InOrder) (m : Bytes) :
    (log.append m).2.Tight dir := by
  obtain ⟨goes, leaves⟩ := h.append (P := fun _ => True) named (fun _ _ _ => id) m trivial trivial
  have faultless := goes.faultless tight.faultless
  have onward := Position.file_le (ordered.append (m := m)).2.write
  have between := Position.file_le ordered.read_le_write
  have segments : ∀ k, ((log.append m).2.stock dir).segments k →
      k = log.write.file ∨ (log.stock dir).segments k := by
    rcases leaves with ⟨le, -, -⟩ | ⟨le, -⟩ | ⟨le, -⟩
    · exact le.2
    · exact le.2
    · exact le.2
  have within : ∀ k, ((log.append m).2.stock dir).segments k →
      log.read.file ≤ k ∧ k ≤ (log.append m).2.write.file := by
    intro k there
    rcases segments k there with rfl | old
    · exact ⟨between, onward⟩
    · obtain ⟨low, high⟩ := tight.within k old
      exact ⟨low, Nat.le_trans high onward⟩
  obtain ⟨d, write, depth, sync, told, w, eq⟩ := log.append_rest m
  rw [eq] at faultless within ⊢
  exact ⟨faultless, within, tight.next_le⟩

end Tight

end Log

end DurableQueue
