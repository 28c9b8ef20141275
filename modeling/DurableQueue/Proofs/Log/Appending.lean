import DurableQueue.Proofs.Log.Syncing

/-!
# Appending

Appending puts a frame at the write cursor and moves the cursor past it (`append_spec`); what was
unread before stays so, and the new message comes after it. The one thing that this needs of a
reader that was kept is that its bytes still are those of the segment afterwards (`Log.Agrees`).
-/

namespace DurableQueue

open FileSystem

namespace Bytes

variable {old new kept : Bytes} {pos n : Nat}

/-- What was written is found where it was written. -/
theorem prefix_overwrite (some : new ≠ []) : new <+: (overwrite old pos new).drop pos := by
  have front : (old.take pos ++ List.replicate (pos - old.length) 0).length = pos := by
    simp only [List.length_append, List.length_take, List.length_replicate]
    omega
  rw [overwrite, if_neg (by simpa using some), List.append_assoc, List.drop_left' front]
  exact List.prefix_append ..

theorem take_overwrite_of_le (low : n ≤ pos) (within : n ≤ old.length) :
    (overwrite old pos new).take n = old.take n := by
  cases new with
  | nil => rfl
  | cons b bs =>
    rw [overwrite, if_neg (by simp), List.append_assoc, List.append_assoc,
      List.take_append_of_le_length (by simp only [List.length_take]; omega), List.take_take,
      Nat.min_eq_left low]

theorem prefix_of_take_eq (held : kept <+: old.drop n)
    (same : new.take (n + kept.length) = old.take (n + kept.length)) : kept <+: new.drop n := by
  rw [List.prefix_iff_eq_take] at held ⊢
  rw [List.take_drop, same, ← List.take_drop]
  exact held

/-- Bytes that end before the place of writing stay. -/
theorem prefix_overwrite_of_le (held : kept <+: old.drop n) (low : n + kept.length ≤ pos) :
    kept <+: (overwrite old pos new).drop n := by
  cases kept with
  | nil => exact List.nil_prefix
  | cons b bs =>
    have within := held.length_le
    simp only [List.length_drop, List.length_cons] at within
    exact prefix_of_take_eq held (take_overwrite_of_le low (by simp only [List.length_cons]; omega))

end Bytes

/-- What the directory shows once the frame of `m` stands at `p`. -/
def View.withFrame (v : View) (p : Position) (m : Bytes) : View :=
  { v with
    segments := Function.update v.segments p.file
      (some (Bytes.overwrite ((v.segments p.file).getD []) p.offset (Frame.encode m))) }

/-- What the directory shows once segment `k` is there, if only as an empty file. -/
def View.opened (v : View) (k : Nat) : View :=
  { v with segments := Function.update v.segments k (some ((v.segments k).getD [])) }

/-- Segment `k` is file `number`, made anew if it was missing; nothing else changed. -/
structure Opened (s s' : Shelf) (k number : Nat) (inode : Inode) : Prop where
  found : s' (.segment k) = some (number, inode)
  contents : inode.contents = ((View.of s).segments k).getD []
  others : ∀ f, f ≠ .segment k → s' f = s f
  number_eq : ∀ {n i}, s (.segment k) = some (n, i) → n = number

theorem Opened.view {s s' : Shelf} {k number : Nat} {inode : Inode}
    (opened : Opened s s' k number inode) (bs : Inode) :
    View.of (Function.update s' (.segment k) (some (number, bs))) =
      { View.of s with segments := Function.update (View.of s).segments k (some bs.contents) } := by
  have record : (View.of s').record = (View.of s).record := by
    simp only [View.of, opened.others .record (by simp)]
  rw [View.of_update_segment]
  refine View.ext (funext fun n => ?_) record
  show Function.update _ _ _ n = Function.update _ _ _ n
  by_cases e : n = k
  · subst e
    simp
  · rw [Function.update_of_ne e, Function.update_of_ne e]
    simp only [View.of, opened.others (.segment n) (by simpa using e)]

namespace Log

/-- An append up to the moment at which the segment may be left. -/
def place (log : Log) (message : Bytes) : Except Error Unit × Log :=
  let least := log.config.minMsgSize
  let most := log.config.maxMsgSize
  if message.length < least ∨ most < message.length then
    (.error (.invalidMessageSize message.length least most), log)
  else
    match log.openWriter with
    | (.error e, log) => (.error e, log)
    | (.ok h, log) =>
      match log.disk.write h (Frame.encode message) with
      | (.error e, disk) => (.error (.writeSegment h.path e), { log with disk, writer := none })
      | (.ok h, disk) =>
        let write := ⟨log.write.file, log.write.offset + Frame.diskSize message.length⟩
        (.ok (), { log with disk, write, writer := some h, depth := Word.wrap (log.depth + 1) })

/-- The log once its write segment is left, before that is synced. -/
def rolled (log : Log) : Log := { log.tell .rolled with write := log.write.nextFile }

theorem append_eq (log : Log) (m : Bytes) :
    log.append m =
      match log.place m with
      | (.ok (), log) => (.ok (), log.roll)
      | (.error e, log) => (.error e, log) := by
  unfold append place
  simp only
  split
  · rfl
  · cases log.openWriter with
    | mk result log' =>
      cases result with
      | error e => rfl
      | ok h =>
        simp only
        cases log'.disk.write h (Frame.encode m) with
        | mk result d => cases result <;> rfl

/-- A segment that is left is closed once it is synced. -/
theorem roll_of_synced {log log' : Log} (full : log.config.maxBytesPerFile < log.write.offset)
    (synced : log.rolled.sync = (.ok (), log')) : log.roll = { log' with writer := none } := by
  have synced' : Log.sync { log.tell .rolled with write := log.write.nextFile } = (.ok (), log') :=
    synced
  simp only [roll, if_pos full, synced']

/-- It is closed as well if the sync fails, and that is told. -/
theorem roll_of_unsynced {log log' : Log} {e : Error}
    (full : log.config.maxBytesPerFile < log.write.offset)
    (failed : log.rolled.sync = (.error e, log')) :
    log.roll = { log'.tell .rollSyncFailed with writer := none } := by
  have failed' : Log.sync { log.tell .rolled with write := log.write.nextFile } = (.error e, log') :=
    failed
  simp only [roll, if_pos full, failed']

/-- A segment that is left is synced and closed. -/
theorem roll_of_full (log : Log) (full : log.config.maxBytesPerFile < log.write.offset) :
    ∃ told, log.roll = { log.rolled.sync.2 with journal := told, writer := none } := by
  rcases synced : log.rolled.sync with ⟨e | u, log'⟩
  · exact ⟨.rollSyncFailed :: log'.journal, roll_of_unsynced full synced⟩
  · exact ⟨log'.journal, roll_of_synced full synced⟩

theorem roll_of_room (log : Log) (room : ¬log.config.maxBytesPerFile < log.write.offset) :
    log.roll = log := if_neg room

section Appending

variable {log : Log} {dir : Location} {P : View → Prop} {s s' : Shelf} {staged : Option Bytes}
  {m : Bytes} {ms : List Bytes} {d : Disk} {number : Nat} {inode : Inode}

/-- The log that an append leads to, as far as it does not depend on the disk. -/
def appended (log : Log) (m : Bytes) : Log :=
  { log with
    write := log.write.past log.config.maxBytesPerFile m.length, depth := Word.wrap (log.depth + 1) }

/-- `P` holds at every moment of an append. -/
structure ShownAppending (log : Log) (P : View → Prop) (v : View) (m : Bytes) : Prop where
  before : P v
  opened : P (v.opened log.write.file)
  written : P (v.withFrame log.write m)
  stored : log.config.maxBytesPerFile < log.write.offset + Frame.diskSize m.length →
    P { v.withFrame log.write m with record := some (Text.encode (log.appended m).record.text) }

/-- The kept bytes of a reader of the write segment are those that the frame of `m` leaves
there. -/
def Agrees (log : Log) (v : View) (m : Bytes) : Prop :=
  ∀ r ∈ log.reader, log.next.file = log.write.file →
    r.ahead <+: (Bytes.overwrite ((v.segments log.write.file).getD []) log.write.offset
      (Frame.encode m)).drop log.next.offset

theorem openWriter_spec (h : log.Reads dir s staged ms) (sound : log.config.Sound)
    (fits : log.write.Fits) (before : P (.of s)) (opened : P ((View.of s).opened log.write.file)) :
    ∃ d s₁ number inode,
      log.openWriter = (.ok ⟨log.config.path (.segment log.write.file), .file number,
        log.write.offset⟩, { log with disk := d }) ∧
      Opened s s₁ log.write.file number inode ∧ Disk.Reaches log.config dir P log.disk d s₁ := by
  have path : log.segmentPath log.write.file = log.config.path (.segment log.write.file) := rfl
  have num : (QueueFile.segment log.write.file).Numbered := fits.1
  rcases Option.eq_none_or_eq_some log.writer with closed | ⟨w, writing⟩
  · rcases Option.eq_none_or_eq_some (s (.segment log.write.file)) with missing | ⟨⟨number, inode⟩, found⟩
    · have new : (View.of s).segments log.write.file = none := by simp [View.of, missing]
      obtain ⟨number, d₁, created, first⟩ := h.serves.openWrite_none (P := P) sound num missing
        (fun number => by
          rw [View.opened, new] at opened
          simpa using opened)
      obtain ⟨d₂, sought, second⟩ := first.seek (P := P)
        ⟨log.config.path (.segment log.write.file), .file number, 0⟩ rfl fits.2
        (by rw [View.opened, new] at opened; simpa using opened)
      refine ⟨d₂, _, number, {}, ?_, ⟨Function.update_self .., ?_, ?_, ?_⟩, first.trans second⟩
      · simp only [openWriter, closed, path, created, sought]
      · rw [new]
        rfl
      · intro f other
        exact Function.update_of_ne other ..
      · intro n i there
        rw [missing] at there
        cases there
    · obtain ⟨d₁, reopened, first⟩ := h.serves.openWrite (P := P) sound num found before
      obtain ⟨d₂, sought, second⟩ := first.seek (P := P)
        ⟨log.config.path (.segment log.write.file), .file number, 0⟩ rfl fits.2 before
      refine ⟨d₂, s, number, inode, ?_, ⟨found, ?_, fun _ _ => rfl, ?_⟩, first.trans second⟩
      · simp only [openWriter, closed, path, reopened, sought]
      · rw [View.segments_of_some found]
        rfl
      · intro n i there
        rw [found] at there
        cases there
        rfl
  · obtain ⟨number, inode, found, eq⟩ := h.writer w writing
    refine ⟨log.disk, s, number, inode, ?_, ⟨found, ?_, fun _ _ => rfl, ?_⟩, h.serves.refl⟩
    · have ready : log.openWriter = (.ok w, log) := by simp only [openWriter, writing]
      rw [ready, eq]
    · rw [View.segments_of_some found]
      rfl
    · intro n i there
      rw [found] at there
      cases there
      rfl

/-- Once the frame of `m` stands at the write cursor, `m` comes after what was unread. -/
theorem Reads.written (h : log.Reads dir s staged ms) (fits : log.write.Fits)
    (admitted : log.config.Admits m) (agrees : log.Agrees (.of s) m)
    (opened : Opened s s' log.write.file number inode)
    (bs : Inode) (contents : bs.contents = inode.contents.overwrite log.write.offset (Frame.encode m))
    {w : Option Handle}
    (ready : ∀ x ∈ w, (log.appended m).write.file = log.write.file ∧
      x = ⟨log.config.path (.segment log.write.file), .file number, (log.appended m).write.offset⟩)
    (serves : d.Serves log.config dir (Function.update s' (.segment log.write.file) (some (number, bs)))) :
    { log.appended m with disk := d, writer := w }.Reads dir
      (Function.update s' (.segment log.write.file) (some (number, bs))) staged (ms ++ [m]) := by
  obtain ⟨s₂, s₂_eq⟩ : ∃ s₂, s₂ = Function.update s' (.segment log.write.file) (some (number, bs)) :=
    ⟨_, rfl⟩
  rw [← s₂_eq] at serves ⊢
  have here : s₂ (.segment log.write.file) = some (number, bs) := by
    rw [s₂_eq, Function.update_self]
  have there : (View.of s₂).segments log.write.file = some bs.contents := View.segments_of_some here
  have elsewhere : ∀ k, k ≠ log.write.file → s₂ (.segment k) = s (.segment k) := by
    intro k other
    have ne : QueueFile.segment k ≠ .segment log.write.file := by simpa using other
    rw [s₂_eq, Function.update_of_ne ne, opened.others _ ne]
  rw [opened.contents] at contents
  have trail : Trail log.config (View.of s₂).segments log.read ms log.write := by
    apply h.trail.congr
    intro k old _ _ found
    by_cases e : k = log.write.file
    · subst e
      refine ⟨bs.contents, there, ?_⟩
      intro n low within
      rw [contents, found, Option.getD_some]
      exact Bytes.take_overwrite_of_le (by simp only [Position.le_iff] at low; omega) within
    · refine ⟨old, ?_, fun _ _ _ => rfl⟩
      rw [← found]
      simp only [View.of, elsewhere k e]
  refine ⟨serves, ?_, h.staged_first.trans (List.prefix_append ..), h.next_eq, ?_, ?_⟩
  · refine trail.snoc fits admitted there ?_
    rw [contents]
    exact Bytes.prefix_overwrite (Frame.encode_ne_nil m)
  · intro r kept
    obtain ⟨at_read, n, i, found, offers⟩ := h.reader r kept
    refine ⟨at_read, ?_⟩
    by_cases e : log.next.file = log.write.file
    · have same : n = number := by
        rw [e] at found
        exact opened.number_eq found
      refine ⟨number, bs, ?_, ?_⟩
      · show s₂ (.segment log.next.file) = _
        rw [e]
        exact here
      · refine Reader.offers_of_kept (same ▸ offers.node) offers.offset_eq ?_
        rw [contents]
        exact agrees r kept e
    · refine ⟨n, i, ?_, offers⟩
      show s₂ (.segment log.next.file) = _
      rw [elsewhere _ e]
      exact found
  · intro x open_
    obtain ⟨same, eq⟩ := ready x open_
    refine ⟨number, bs, ?_, ?_⟩
    · show s₂ (.segment (log.appended m).write.file) = _
      rw [same]
      exact here
    · show x = ⟨log.config.path (.segment (log.appended m).write.file), .file number,
        (log.appended m).write.offset⟩
      rw [same]
      exact eq

/-- What an append came to. The record is touched only when the segment is left. -/
structure Appended (log : Log) (m : Bytes) (s s' : Shelf) (log' : Log) : Prop where
  rest : ∃ d sync told w,
    log' = { log.appended m with disk := d, needSync := sync, journal := told, writer := w }
  segments : (View.of s').segments = ((View.of s).withFrame log.write m).segments
  tidy : Tidy s → Tidy s'
  record : (log'.write.file = log.write.file ∧ (View.of s').record = (View.of s).record) ∨
    (View.of s').record = some (Text.encode log'.record.text) ∨
    ((View.of s').record = (View.of s).record ∧ ¬Tidy s)

/-- Leaving a segment stores the record; whether or not that succeeds, the writer is closed. -/
theorem roll_spec (log₂ : Log) (serves : log₂.disk.Serves log₂.config dir s) (sound : log₂.config.Sound)
    (full : log₂.config.maxBytesPerFile < log₂.write.offset)
    (writes : log₂.Writes s)
    (before : P (.of s))
    (after : P { View.of s with record := some (Text.encode log₂.rolled.record.text) }) :
    ∃ s' d sync told,
      log₂.roll = { log₂ with
        write := log₂.write.nextFile, disk := d, needSync := sync, journal := told, writer := none } ∧
      Alike s s' ∧ (Tidy s → Tidy s') ∧
      ((View.of s').record = some (Text.encode log₂.roll.record.text) ∨
        ((View.of s').record = (View.of s).record ∧ ¬Tidy s)) ∧
      Disk.Reaches log₂.config dir P log₂.disk d s' := by
  obtain ⟨s', done, reached⟩ := sync_spec (P := P) log₂.rolled serves sound writes before after
  obtain ⟨told, rolled⟩ := log₂.roll_of_full full
  obtain ⟨d, sync, told', rest⟩ := done.rest
  rw [rest] at rolled reached
  refine ⟨s', d, sync, told, rolled, done.alike, done.tidy, ?_, reached⟩
  rcases done.outcome with ⟨-, stored⟩ | ⟨-, kept⟩
  · refine Or.inl ?_
    rw [rolled]
    exact stored
  · exact Or.inr kept

/-- The log with the frame of `m` at its old write cursor, in file `number`. -/
def framed (log : Log) (d : Disk) (number : Nat) (m : Bytes) : Log :=
  { log with
    disk := d
    write := ⟨log.write.file, log.write.offset + Frame.diskSize m.length⟩
    writer := some ⟨log.config.path (.segment log.write.file), .file number,
      log.write.offset + Frame.diskSize m.length⟩
    depth := Word.wrap (log.depth + 1) }

/-- The frame of an accepted message is written as a whole. -/
theorem place_spec (h : log.Reads dir s staged ms) (sound : log.config.Sound)
    (fits : log.write.Fits) (admitted : log.config.Admits m)
    (shown : log.ShownAppending P (.of s) m) :
    ∃ d s₁ number inode bs, log.place m = (.ok (), log.framed d number m) ∧
      Opened s s₁ log.write.file number inode ∧
      bs.contents = inode.contents.overwrite log.write.offset (Frame.encode m) ∧
      View.of (Function.update s₁ (.segment log.write.file) (some (number, bs))) =
        (View.of s).withFrame log.write m ∧
      (Tidy s → Tidy (Function.update s₁ (.segment log.write.file) (some (number, bs)))) ∧
      Disk.Reaches log.config dir P log.disk d
        (Function.update s₁ (.segment log.write.file) (some (number, bs))) := by
  obtain ⟨d₁, s₁, number, inode, ready, opened, first⟩ :=
    openWriter_spec h sound fits shown.before shown.opened
  obtain ⟨bs, bs_eq⟩ : ∃ bs, bs = Disk.written inode log.write.offset (Frame.encode m) := ⟨_, rfl⟩
  have contents : bs.contents = inode.contents.overwrite log.write.offset (Frame.encode m) := by
    rw [bs_eq]
    rfl
  have view : View.of (Function.update s₁ (.segment log.write.file) (some (number, bs))) =
      (View.of s).withFrame log.write m := by
    rw [opened.view, contents, opened.contents]
    rfl
  obtain ⟨d₂, wrote, second⟩ := first.write (P := P)
    ⟨log.config.path (.segment log.write.file), .file number, log.write.offset⟩ rfl
    opened.found (Frame.encode m) (by rw [← bs_eq, view]; exact shown.written)
  rw [← bs_eq] at second
  rw [Frame.length_encode] at wrote
  refine ⟨d₂, s₁, number, inode, bs, ?_, opened, contents, view, fun tidy tag => ?_,
    first.trans second⟩
  · have within : ¬(m.length < log.config.minMsgSize ∨ log.config.maxMsgSize < m.length) := by
      have bounds := admitted
      simp only [Config.Admits] at bounds
      omega
    simp only [place, if_neg within, ready, wrote, framed]
  · rw [Function.update_of_ne (by simp), opened.others _ (by simp)]
    exact tidy tag

/-- **An append puts its message after all that are unread.** -/
theorem append_spec (h : log.Reads dir s staged ms) (sound : log.config.Sound)
    (fits : log.write.Fits) (admitted : log.config.Admits m) (agrees : log.Agrees (.of s) m)
    (shown : log.ShownAppending P (.of s) m) :
    ∃ s' log', log.append m = (.ok (), log') ∧ Appended log m s s' log' ∧
      log'.Reads dir s' staged (ms ++ [m]) ∧
      Disk.Reaches log.config dir P log.disk log'.disk s' := by
  obtain ⟨d, s₁, number, inode, bs, placed, opened, contents, view, tidy, first⟩ :=
    place_spec h sound fits admitted shown
  obtain ⟨s₂, s₂_eq⟩ : ∃ s₂, s₂ = Function.update s₁ (.segment log.write.file) (some (number, bs)) :=
    ⟨_, rfl⟩
  rw [← s₂_eq] at view tidy first
  have appending : log.append m = (.ok (), (log.framed d number m).roll) := by
    simp only [append_eq, placed]
  rcases Position.past_cases log.config.maxBytesPerFile log.write m.length with
    ⟨stay, room⟩ | ⟨leave, full⟩
  · have same : log.framed d number m = { log.appended m with
        disk := d, writer := some ⟨log.config.path (.segment log.write.file), .file number,
          (log.appended m).write.offset⟩ } := by
      simp only [framed, appended, stay]
    rw [roll_of_room _ (Nat.not_lt.2 room)] at appending
    refine ⟨s₂, log.framed d number m, appending, ⟨⟨d, log.needSync, log.journal, _, same⟩,
      by rw [view], tidy, Or.inl ⟨rfl, by rw [view]; rfl⟩⟩, ?_, first⟩
    rw [same, s₂_eq]
    refine h.written fits admitted agrees opened bs contents ?_ (s₂_eq ▸ first.toServes)
    intro x is
    cases is
    exact ⟨by rw [appended, stay], rfl⟩
  · have reads : { log.appended m with disk := d, writer := none }.Reads dir s₂ staged (ms ++ [m]) := by
      rw [s₂_eq]
      exact h.written fits admitted agrees opened bs contents nofun (s₂_eq ▸ first.toServes)
    have writes : (log.framed d number m).Writes s₂ := by
      intro x is
      cases is
      exact ⟨log.write.file, number, bs, by rw [s₂_eq, Function.update_self], rfl⟩
    have record : (log.framed d number m).rolled.record = (log.appended m).record := by
      simp only [Log.record, appended, leave]
      rfl
    obtain ⟨s', d', sync, told, rolled, alike, tidy', stored, second⟩ :=
      roll_spec (P := P) (log.framed d number m) first.toServes sound full writes
        (by rw [view]; exact shown.written) (by rw [view, record]; exact shown.stored full)
    have same : (log.framed d number m).roll = { log.appended m with
        disk := d', needSync := sync, journal := told, writer := none } := by
      rw [rolled]
      simp only [appended, leave]
      rfl
    have moved := reads.alike alike second.toServes
    refine ⟨s', (log.framed d number m).roll, appending, ⟨⟨d', sync, told, none, same⟩,
      by rw [alike.segments, view], fun t => tidy' (tidy t), ?_⟩, ?_, ?_⟩
    · rcases stored with stored | ⟨kept, messy⟩
      · exact Or.inr (Or.inl stored)
      · exact Or.inr (Or.inr ⟨kept.trans (by rw [view]; rfl), fun t => messy (tidy t)⟩)
    · rw [same]
      exact ⟨moved.serves, moved.trail, moved.staged_first, moved.next_eq, moved.reader, nofun⟩
    · rw [same]
      exact first.trans second

/-- A message outside the bounds is refused, and nothing is touched. -/
theorem append_refused (refused : ¬log.config.Admits m) :
    log.append m = (.error (.invalidMessageSize m.length log.config.minMsgSize log.config.maxMsgSize),
      log) := by
  rw [append]
  simp only
  rw [if_pos]
  simp only [Config.Admits] at refused
  omega

end Appending

/-! ### Whatever fails -/

theorem roll_rest (log : Log) : ∃ d write sync told w,
    log.roll = { log with disk := d, write, needSync := sync, journal := told, writer := w } := by
  by_cases full : log.config.maxBytesPerFile < log.write.offset
  · obtain ⟨told, rolled⟩ := log.roll_of_full full
    obtain ⟨d, sync, told', w, eq⟩ := sync_rest log.rolled
    rw [rolled, eq]
    exact ⟨_, _, _, _, _, rfl⟩
  · rw [log.roll_of_room full]
    exact ⟨_, _, _, _, _, rfl⟩

theorem openWriter_rest (log : Log) : ∃ d, log.openWriter.2 = { log with disk := d } := by
  unfold openWriter
  split
  · exact ⟨_, rfl⟩
  · simp only
    cases log.disk.openWrite (log.segmentPath log.write.file) with
    | mk result d =>
      cases result with
      | error e => exact ⟨_, rfl⟩
      | ok h =>
        simp only
        cases d.seek h log.write.offset with
        | mk result d' => cases result <;> exact ⟨_, rfl⟩

/-- Whatever fails, an append leaves alone all that reading depends on. -/
theorem append_rest (log : Log) (m : Bytes) : ∃ d write depth sync told w, (log.append m).2 = { log with
    disk := d, write, depth, needSync := sync, journal := told, writer := w } := by
  unfold append
  simp only
  split
  · exact ⟨_, _, _, _, _, _, rfl⟩
  obtain ⟨d, eq⟩ := openWriter_rest log
  revert eq
  cases log.openWriter with
  | mk result log' =>
    rintro rfl
    cases result with
    | error e => exact ⟨_, _, _, _, _, _, rfl⟩
    | ok h =>
      simp only
      cases d.write h (Frame.encode m) with
      | mk result d' =>
        cases result with
        | error e => exact ⟨_, _, _, _, _, _, rfl⟩
        | ok h' =>
          obtain ⟨d'', write, sync, told, w, eq⟩ := roll_rest { log with
            disk := d', write := ⟨log.write.file, log.write.offset + Frame.diskSize m.length⟩,
            writer := some h', depth := Word.wrap (log.depth + 1) }
          exact ⟨d'', write, _, sync, told, w, eq⟩

end Log

end DurableQueue
