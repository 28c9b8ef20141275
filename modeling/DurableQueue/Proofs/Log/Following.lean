import DurableQueue.Proofs.Log.Appending
import DurableQueue.Proofs.Log.Moving
import DurableQueue.Proofs.Log.Steady

/-!
# Logs do what their outlines do

On a disk on which only syncs fail, each operation of a steady log answers what it answers in the
outline of the log, and leads to a steady log with the outline that it leads to there
(`Steady.commit`, `Steady.quarantine`, `Steady.append`, `Steady.deleteAll`). A writer that a sync has
closed is opened again where the last one stood.
-/

namespace DurableQueue

open FileSystem

variable {c : Config} {dir : Location} {d : Disk} {s s' : Shelf}

namespace Log

variable {log : Log}

/-! ### Starting afresh -/

theorem segment_ending (number : Nat) : (QueueFile.segment number).ending.getLast? ≠ some 'p' := by
  simp [QueueFile.ending]

/-- Segments are removed unless their names are too long, and only those removals fail. -/
theorem removeEach_calm (calm : d.Calm c dir s) (named : c.Named) (numbers : List Nat) :
    ∃ d', d.removeEach (numbers.map fun k => c.path (.segment k)) =
        ((numbers.filter fun k => c.isLong (.segment k)).map fun k =>
          (c.path (.segment k), .invalidName), d') ∧
      d'.Calm c dir (without s (numbers.filter fun k => !c.isLong (.segment k))) := by
  induction numbers generalizing d s with
  | nil => exact ⟨d, rfl, calm⟩
  | cons k numbers ih =>
    obtain ⟨d₁, removed, calm₁⟩ := calm.remove named (segment_ending k)
    obtain ⟨d₂, others, calm₂⟩ := ih calm₁
    refine ⟨d₂, ?_, ?_⟩
    · rw [List.map_cons, Disk.removeEach, removed]
      cases long : c.isLong (.segment k) with
      | true => simp [long, others]
      | false => cases s (.segment k) <;> simp [long, others]
    · cases long : c.isLong (.segment k) with
      | true => simpa [long] using calm₂
      | false => simpa [long, without] using calm₂

/-- Removing segments removes them from the outline. -/
theorem outline_without (log : Log) (numbers : List Nat) :
    log.outline (without s (numbers.filter fun k => !c.isLong (.segment k))) =
      { log.outline s with segments := Outline.without c (log.outline s).segments numbers } := by
  have segments : (View.of (without s (numbers.filter fun k => !c.isLong (.segment k)))).segments =
      Outline.without c (View.of s).segments numbers := by
    funext k
    have gone : (∃ j ∈ numbers.filter fun k => !c.isLong (.segment k),
        QueueFile.segment k = .segment j) ↔ k ∈ numbers ∧ c.isLong (.segment k) = false := by
      simp [List.mem_filter]
    show (without s _ (.segment k)).map (·.2.contents) = _
    rw [without_eq, Outline.without]
    by_cases removed : k ∈ numbers ∧ c.isLong (.segment k) = false
    · rw [if_pos removed, if_pos (gone.2 removed)]
      rfl
    · rw [if_neg removed, if_neg (mt gone.1 removed)]
      rfl
  have aside : (fun k => ((without s (numbers.filter fun k => !c.isLong (.segment k)))
      (.quarantined k)).map (·.2.contents)) = fun k => (s (.quarantined k)).map (·.2.contents) :=
    funext fun k => by rw [without_other (by simp)]
  rw [outline, segments, aside]
  rfl

section Afresh

variable (log : Log)
  (config : ∃ every timeout, log.config = { c with syncEvery := every, syncTimeout := timeout })
  (calm : log.disk.Calm c dir s) (named : c.Named)
include config calm named

/-- The segments between the cursors are removed, whatever is open. -/
theorem swept_calm : log.swept.Calm c dir
      (without s (log.span.filter fun k => !c.isLong (.segment k))) ∧
    log.skip.1 =
      match (log.span.filter fun k => c.isLong (.segment k)).getLast? with
      | none => .ok ()
      | some k => .error (.removeFile (c.path (.segment k)) .invalidName) := by
  have paths : log.span.map log.segmentPath = log.span.map fun k => c.path (.segment k) :=
    List.map_congr_left fun k _ => log.segmentPath_of_config config k
  obtain ⟨d', removed, calm'⟩ := removeEach_calm calm named log.span
  refine ⟨?_, ?_⟩
  · rw [swept, paths, removed]
    exact calm'
  · have skipped : log.skip.1 =
        (log.disk.removeEach (log.span.map log.segmentPath)).1.getLast?.elim (.ok ()) fun failed =>
          .error (.removeFile failed.1 failed.2) := by
      simp only [skip, span]
      generalize log.disk.removeEach _ = out
      cases out.1.getLast? <;> rfl
    rw [skipped, paths, removed, List.getLast?_map]
    cases (log.span.filter fun k => c.isLong (.segment k)).getLast? <;> rfl

omit calm named in
/-- A log that starts afresh is steady. -/
theorem steady_fresh (calm' : d.Calm c dir s') (sync : Bool) (told : List Notice) (resets : Nat) :
    { log.fresh with disk := d, needSync := sync, journal := told, tailResets := resets }.Steady c dir
      s' :=
  ⟨config, calm', Position.le_refl _, nofun, nofun⟩

end Afresh

/-- A log that starts afresh does so in the outline. -/
theorem outline_fresh (log : Log) (s : Shelf) :
    log.fresh.outline (without s (log.span.filter fun k => !c.isLong (.segment k))) =
      (log.outline s).fresh c := log.fresh.outline_without log.span

/-- Everything but the record may be looked at before it is removed. -/
theorem removeRecord_calm (calm : d.Calm c dir s) (named : c.Named) :
    (Record.remove d (c.path .record)).1 =
        (if c.isLong .record then .error .invalidName else .ok ()) ∧
      ∃ s', (Record.remove d (c.path .record)).2.Calm c dir s' ∧ Undisturbed s s' := by
  obtain ⟨d', removed, calm'⟩ := calm.remove (f := .record) named (by simp [QueueFile.ending])
  rw [Record.remove, removed]
  cases long : c.isLong .record with
  | true =>
    rw [long, if_pos rfl] at calm'
    exact ⟨rfl, s, calm', .refl s⟩
  | false =>
    rw [long, if_neg Bool.false_ne_true] at calm'
    cases s .record with
    | none => exact ⟨rfl, _, calm', .update_record none⟩
    | some entry => exact ⟨rfl, _, calm', .update_record none⟩

/-- **Deleting starts afresh in the outline, and answers what it answers there.** -/
theorem Steady.deleteAll (h : log.Steady c dir s) (named : c.Named) :
    log.deleteAll.1 = ((log.outline s).deleteAll c).1 ∧ ∃ s', log.deleteAll.2.Steady c dir s' ∧
      log.deleteAll.2.outline s' = ((log.outline s).deleteAll c).2 := by
  obtain ⟨calm, skipped⟩ := swept_calm log h.config h.calm named
  obtain ⟨result, s', calm', same⟩ := removeRecord_calm calm named
  obtain ⟨told, eq⟩ := log.deleteAll_outcome
  rw [eq, log.recordPath_of_config h.config]
  refine ⟨?_, s', steady_fresh log h.config calm' log.needSync told log.tailResets, ?_⟩
  · rw [Outline.deleteAll, result, skipped]
    cases c.isLong .record <;> rfl
  · show log.fresh.outline s' = (log.outline s).fresh c
    rw [outline_eq_of_undisturbed _ same, outline_fresh]

/-! ### Looking at the tail -/

/-- What a look at the tail leaves steady: any log but for its open segments if its cursors
crossed. -/
theorem Tail.steady {log' : Log} (tail : log.Tail log')
    (config : ∃ every timeout, log.config = { c with syncEvery := every, syncTimeout := timeout })
    (calm : log.disk.Calm c dir s) (named : c.Named)
    (steady : log.read ≤ log.write → log.Steady c dir s) :
    ∃ s', log'.Steady c dir s' ∧ log'.outline s' = (log.outline s).checkTail c := by
  have read : (log.outline s).read = log.read := rfl
  have write : (log.outline s).write = log.write := rfl
  rw [Outline.checkTail, read, write]
  cases tail with
  | unread behind =>
    rw [if_pos behind]
    exact ⟨s, steady (Position.le_of_lt behind), rfl⟩
  | met meet sync told resets =>
    have h := steady (meet ▸ Position.le_refl _)
    rw [if_neg (meet ▸ Position.lt_irrefl), if_pos meet]
    exact ⟨s, ⟨h.config, h.calm, h.ordered, h.reader, h.writer⟩, rfl⟩
  | crossed past told resets =>
    have behind : ¬log.read < log.write := fun less =>
      Position.lt_irrefl (Position.lt_of_le_of_lt (Position.le_of_lt less) past)
    have meet : log.read ≠ log.write := fun same => Position.lt_irrefl (same ▸ past)
    rw [if_neg behind, if_neg meet]
    obtain ⟨swept, -⟩ := swept_calm log config calm named
    refine ⟨_, steady_fresh log config swept true told resets, ?_⟩
    exact outline_fresh log s

/-- **Committing does what it does in the outline.** -/
theorem Steady.commit (h : log.Steady c dir s) (named : c.Named) :
    ∃ s', log.commit.2.Steady c dir s' ∧ log.commit.2.outline s' = (log.outline s).commit c := by
  obtain ⟨sync, told, tail⟩ := log.commit_outcome
  by_cases same : log.next.file = log.read.file
  · simp only [if_pos same] at tail
    obtain ⟨s', steady, eq⟩ := tail.steady h.config h.calm named fun _ =>
      ⟨h.config, h.calm, Position.le_refl _, fun r reading => ⟨rfl, same ▸ (h.reader r reading).2⟩,
        h.writer⟩
    refine ⟨s', steady, eq.trans ?_⟩
    have inside : (log.outline s).next.file = (log.outline s).read.file := same
    rw [Outline.commit, if_pos inside]
    rfl
  · simp only [if_neg same, h.segmentPath] at tail
    obtain ⟨d, removed, calm⟩ := h.calm.remove named (segment_ending log.read.file)
    simp only [removed] at tail
    have gone : (if c.isLong (.segment log.read.file) then s
        else Function.update s (.segment log.read.file) none) =
          without s ([log.read.file].filter fun k => !c.isLong (.segment k)) := by
      cases long : c.isLong (.segment log.read.file) <;> simp [without, long]
    rw [gone] at calm
    have away : log.read.file < log.next.file := by
      have := Position.file_le h.ordered
      omega
    obtain ⟨s', steady, eq⟩ := tail.steady h.config calm named fun le => by
      refine ⟨h.config, calm, Position.le_refl _, fun r reading => ?_, fun x writing => ?_⟩
      · exact absurd (h.reader r reading).1 same
      · obtain ⟨short, number, inode, found, eq⟩ := h.writer x writing
        refine ⟨short, number, inode, ?_, eq⟩
        have behind : log.next.file ≤ log.write.file := Position.file_le le
        rw [without_eq, if_neg]
        · exact found
        · rintro ⟨k, here, e⟩
          have : log.write.file = k := QueueFile.segment.inj e
          have : k = log.read.file := List.mem_singleton.1 (List.mem_filter.1 here).1
          omega
    refine ⟨s', steady, eq.trans ?_⟩
    have outside : ¬(log.outline s).next.file = (log.outline s).read.file := same
    rw [Outline.commit, if_neg outside, outline_without]
    rfl

/-! ### Setting aside -/

/-- A segment that gets another name is set aside in the outline. -/
theorem outline_moved (log : Log) (n : Nat) :
    log.outline (Function.update (Function.update s (.segment n) none) (.quarantined n)
        (s (.segment n))) =
      { log.outline s with
        segments := Function.update (log.outline s).segments n none
        aside := Function.update (log.outline s).aside n ((log.outline s).segments n) } := by
  have aside : (fun k => (Function.update (Function.update s (.segment n) none) (.quarantined n)
        (s (.segment n)) (.quarantined k)).map (·.2.contents)) =
      Function.update (log.outline s).aside n ((log.outline s).segments n) := by
    funext k
    by_cases e : k = n
    · rw [e, Function.update_self, Function.update_self]
      rfl
    · rw [Function.update_of_ne (by simpa using e), Function.update_of_ne (by simp),
        Function.update_of_ne e]
      rfl
  rw [outline, View.of_update_quarantined, View.of_update_segment, aside]
  rfl

/-- A log that has passed the segment at its read cursor is steady whatever became of that segment. -/
theorem Steady.past_segment (h : log.Steady c dir s) (calm : d.Calm c dir s') (told : List Notice)
    (others : ∀ k, k ≠ log.read.file → s' (.segment k) = s (.segment k)) :
    ({ log with
        read := log.read.nextFile, next := log.read.nextFile
        write := if log.read.file = log.write.file then log.write.nextFile else log.write
        disk := d, needSync := true, journal := told, reader := none
        writer := if log.read.file = log.write.file then none else log.writer } : Log).Steady c dir
      s' := by
  refine ⟨h.config, calm, Position.le_refl _, nofun, fun x writing => ?_⟩
  by_cases here : log.read.file = log.write.file
  · simp only [if_pos here] at writing
    cases writing
  · simp only [if_neg here] at writing ⊢
    obtain ⟨short, number, inode, found, eq⟩ := h.writer x writing
    exact ⟨short, number, inode, (others _ (Ne.symm here)).trans found, eq⟩

/-- **Setting a segment aside does what it does in the outline.** -/
theorem Steady.quarantine (h : log.Steady c dir s) (named : c.Named) :
    ∃ s', log.quarantine.Steady c dir s' ∧ log.quarantine.outline s' =
      (log.outline s).quarantine c := by
  obtain ⟨told, tail⟩ := log.quarantine_outcome
  rw [h.segmentPath, named.path_quarantined] at tail
  obtain ⟨result, d, renamed, calm⟩ := h.calm.rename (g := .quarantined log.read.file) named
    (segment_ending log.read.file) nofun
  rw [renamed] at tail
  have read : (log.outline s).read = log.read := rfl
  have missing : ((log.outline s).segments log.read.file).isNone =
      (s (.segment log.read.file)).isNone := Option.isNone_map
  rw [Outline.quarantine, read, missing]
  cases stuck : (c.isLong (.segment log.read.file) || c.isLong (.quarantined log.read.file) ||
      (s (.segment log.read.file)).isNone) with
  | true =>
    rw [stuck, if_pos rfl] at calm
    obtain ⟨s', steady, eq⟩ := tail.steady h.config calm named fun _ =>
      h.past_segment calm told fun _ _ => rfl
    exact ⟨s', steady, eq.trans rfl⟩
  | false =>
    rw [stuck, if_neg Bool.false_ne_true] at calm
    obtain ⟨s', steady, eq⟩ := tail.steady h.config calm named fun _ =>
      h.past_segment calm told fun k ne => by
        rw [Function.update_of_ne (by simp), Function.update_of_ne (by simpa using ne)]
    refine ⟨s', steady, eq.trans ?_⟩
    rw [outline_moved]
    rfl

/-! ### Appending -/

/-- The segment at the write cursor is opened for writing unless its name is too long or its end out
of reach; it is there then in any case but the first. -/
theorem Steady.openWriter (h : log.Steady c dir s) (named : c.Named)
    (reach : log.writer.isSome → log.write.offset < Word.signedLimit) :
    c.isLong (.segment log.write.file) = true ∧
      (∃ d, log.openWriter = (.error (.openSegment (c.path (.segment log.write.file)) .invalidName),
        { log with disk := d }) ∧ d.Calm c dir s) ∨
    c.isLong (.segment log.write.file) = false ∧ ∃ d s' number inode,
      log.openWriter = (if log.write.offset < Word.signedLimit then
        .ok ⟨c.path (.segment log.write.file), .file number, log.write.offset⟩
        else .error (.openSegment (c.path (.segment log.write.file)) .invalidInput),
        { log with disk := d }) ∧
      d.Calm c dir s' ∧ Opened s s' log.write.file number inode := by
  rcases Option.eq_none_or_eq_some log.writer with closed | ⟨x, writing⟩
  · unfold Log.openWriter
    simp only [closed, h.segmentPath]
    cases long : c.isLong (.segment log.write.file) with
    | true =>
      obtain ⟨d, failed, calm⟩ := h.calm.openWrite_fails named long
      simp only [failed]
      exact Or.inl ⟨trivial, d, rfl, calm⟩
    | false =>
      obtain ⟨number, inode, d₁, s', opened, calm₁, s'_eq, before⟩ := h.calm.openWrite named long
      obtain ⟨d₂, sought, calm₂⟩ := calm₁.seek
        ⟨c.path (.segment log.write.file), .file number, 0⟩ log.write.offset rfl
      simp only [opened, sought]
      refine Or.inr ⟨trivial, d₂, s', number, inode, ?_, calm₂, ?_⟩
      · by_cases low : log.write.offset < Word.signedLimit
        · simp only [if_pos low]
        · simp only [if_neg low]
      · rcases before with found | ⟨missing, fresh⟩
        · rw [s'_eq, ← found, Function.update_eq_self]
          exact ⟨found, by rw [View.segments_of_some found]; rfl, fun _ _ => rfl, fun there => by
            rw [found] at there
            cases there
            rfl⟩
        · subst s'_eq
          refine ⟨Function.update_self .., ?_, fun f other => Function.update_of_ne other .., ?_⟩
          · have none : (View.of s).segments log.write.file = none := by simp [View.of, missing]
            rw [none, fresh]
            rfl
          · intro n i there
            rw [missing] at there
            cases there
  · obtain ⟨short, number, inode, found, x_eq⟩ := h.writer x writing
    have ready : log.openWriter = (.ok x, log) := by simp only [Log.openWriter, writing]
    refine Or.inr ⟨short, log.disk, s, number, inode, ?_, h.calm, found, ?_, fun _ _ => rfl, ?_⟩
    · rw [ready, x_eq, if_pos (reach (by rw [writing]; rfl))]
    · rw [View.segments_of_some found]
      rfl
    · intro n i there
      rw [found] at there
      cases there
      rfl

section Written

variable {number : Nat} {inode bs : Inode}

/-- The contents of the opened segment are the one thing that changed in the outline. -/
theorem outline_opened {k : Nat} (opened : Opened s s' k number inode) (log : Log) :
    log.outline (Function.update s' (.segment k) (some (number, bs))) =
      { log.outline s with
        segments := Function.update (log.outline s).segments k (some bs.contents) } := by
  have aside : (fun j => (Function.update s' (.segment k) (some (number, bs))
      (.quarantined j)).map (·.2.contents)) = fun j => (s (.quarantined j)).map (·.2.contents) :=
    funext fun j => by rw [Function.update_of_ne (by simp), opened.others _ (by simp)]
  rw [Log.outline, aside, opened.view]
  rfl

/-- A segment that is opened for writing, or written to, stays the file that a reader is on. -/
theorem Steady.reader_opened (h : log.Steady c dir s)
    (opened : Opened s s' log.write.file number inode) (bs : Inode) :
    ∀ r ∈ log.reader, log.next.file = log.read.file ∧ ∃ n i,
      Function.update s' (.segment log.write.file) (some (number, bs)) (.segment log.read.file) =
        some (n, i) ∧ r.handle.node = .file n := by
  intro r reading
  obtain ⟨inside, n, i, found, node⟩ := h.reader r reading
  refine ⟨inside, n, ?_⟩
  by_cases here : log.read.file = log.write.file
  · rw [here] at found ⊢
    obtain rfl := opened.number_eq found
    exact ⟨bs, Function.update_self .., node⟩
  · rw [Function.update_of_ne (by simpa using here), opened.others _ (by simpa using here)]
    exact ⟨i, found, node⟩

/-- A log that has written a frame is steady, whether or not it leaves the segment then. -/
theorem Steady.roll_written (h : log.Steady c dir s) (named : c.Named)
    (short : c.isLong (.segment log.write.file) = false)
    (opened : Opened s s' log.write.file number inode)
    (calm : d.Calm c dir (Function.update s' (.segment log.write.file) (some (number, bs))))
    (size : Nat) (depth : Int) :
    let written : Log := { log with
      disk := d, write := ⟨log.write.file, log.write.offset + Frame.diskSize size⟩, depth
      writer := some ⟨c.path (.segment log.write.file), .file number,
        log.write.offset + Frame.diskSize size⟩ }
    ∃ s₁, written.roll.Steady c dir s₁ ∧ written.roll.outline s₁ = { log.outline s with
      segments := Function.update (log.outline s).segments log.write.file (some bs.contents)
      write := log.write.past c.maxBytesPerFile size, depth } := by
  intro written
  obtain ⟨s₂, s₂_eq⟩ : ∃ s₂, s₂ = Function.update s' (.segment log.write.file) (some (number, bs)) :=
    ⟨_, rfl⟩
  have found : s₂ (.segment log.write.file) = some (number, bs) := by
    rw [s₂_eq, Function.update_self]
  have reader := h.reader_opened opened bs
  rw [← s₂_eq] at calm reader
  obtain ⟨-, -, limit⟩ := written.limits_of_config h.config
  have segments : ∀ write, { written with write }.outline s₂ = { log.outline s with
      segments := Function.update (log.outline s).segments log.write.file (some bs.contents)
      write, depth } := by
    intro write
    rw [s₂_eq]
    exact outline_opened opened _
  rcases Position.past_cases c.maxBytesPerFile log.write size with ⟨stay, room⟩ | ⟨leave, full⟩
  · have rolled : written.roll = written := written.roll_of_room (by
      rw [limit]
      exact Nat.not_lt.2 room)
    rw [rolled, stay]
    refine ⟨s₂, ⟨h.config, calm, h.ordered, reader, fun x writing => ?_⟩, segments _⟩
    cases writing
    exact ⟨short, number, bs, found, rfl⟩
  · obtain ⟨told, rolled⟩ := written.roll_of_full (by rw [limit]; exact full)
    obtain ⟨d', s₃, sync, told', w, synced, -, calm', same⟩ :=
      sync_calm written.rolled h.config calm named fun x writing => by
        cases writing
        exact ⟨log.write.file, number, bs, found, rfl⟩
    rw [rolled, synced, leave]
    have left : { written.rolled with writer := none }.Steady c dir s₂ :=
      ⟨h.config, calm, h.ordered, reader, nofun⟩
    refine ⟨s₃, left.undisturbed calm' same (Or.inr rfl) sync told, ?_⟩
    exact (Log.outline_eq_of_undisturbed _ same).trans (segments log.write.nextFile)

end Written

/-- **An append puts its frame where it is put in the outline, and is answered as it is there.** -/
theorem Steady.append (h : log.Steady c dir s) (named : c.Named)
    (reach : log.writer.isSome → log.write.offset < Word.signedLimit) (m : Bytes) :
    (log.append m).1 = ((log.outline s).append c m).1 ∧ ∃ s', (log.append m).2.Steady c dir s' ∧
      (log.append m).2.outline s' = ((log.outline s).append c m).2 := by
  obtain ⟨least, most, -⟩ := log.limits_of_config h.config
  have write : (log.outline s).write = log.write := rfl
  rw [Outline.append, append_eq, place, least, most, write]
  by_cases size : m.length < c.minMsgSize ∨ c.maxMsgSize < m.length
  · simp only [if_pos size]
    exact ⟨trivial, s, h, rfl⟩
  simp only [if_neg size]
  obtain ⟨long, d, failed, calm⟩ | ⟨short, d, s₁, number, inode, opens, calm, opened⟩ :=
    h.openWriter named reach
  · simp only [failed, if_pos long]
    exact ⟨trivial, s, ⟨h.config, calm, h.ordered, h.reader, h.writer⟩, rfl⟩
  simp only [opens, short, Bool.false_eq_true, if_false]
  by_cases low : log.write.offset < Word.signedLimit
  · simp only [if_pos low, if_neg (Nat.not_le.2 low)]
    obtain ⟨d', wrote, calm'⟩ := calm.write
      ⟨c.path (.segment log.write.file), .file number, log.write.offset⟩ rfl opened.found rfl
      (segment_ending _) (Frame.encode m)
    simp only [wrote, Frame.length_encode]
    obtain ⟨s', steady, eq⟩ :=
      h.roll_written named short opened calm' m.length (Word.wrap (log.depth + 1))
    refine ⟨trivial, s', steady, eq.trans ?_⟩
    rw [Disk.written, opened.contents]
    rfl
  · simp only [if_neg low, if_pos (Nat.le_of_not_lt low)]
    have same : Function.update s₁ (.segment log.write.file) (some (number, inode)) = s₁ := by
      rw [← opened.found, Function.update_eq_self]
    have reader := h.reader_opened opened inode
    rw [same] at reader
    have outline := @outline_opened s s₁ number inode inode log.write.file opened log
    rw [same, opened.contents] at outline
    exact ⟨trivial, s₁, ⟨h.config, calm, h.ordered, reader,
      fun x writing => absurd (reach (by rw [writing]; rfl)) low⟩, outline⟩

/-! ### Taking up a record -/

/-- **A log takes up a record as its outline does.** -/
theorem steady_ofRecord (calm : d.Calm c dir s) (named : c.Named) (r : Record)
    (every timeout : Nat) :
    ∃ s', (ofRecord { c with syncEvery := every, syncTimeout := timeout } d r).Steady c dir s' ∧
      (ofRecord { c with syncEvery := every, syncTimeout := timeout } d r).outline s' =
        Outline.ofRecord c (View.of s).segments
          (fun k => (s (.quarantined k)).map (·.2.contents)) r := by
  obtain ⟨found, found_eq⟩ : ∃ found : Log, found = {
    config := { c with syncEvery := every, syncTimeout := timeout }, disk := d
    read := r.read, next := r.read, write := r.write, depth := r.length } := ⟨_, rfl⟩
  have config : ∃ every timeout,
      found.config = { c with syncEvery := every, syncTimeout := timeout } := by
    rw [found_eq]
    exact ⟨every, timeout, rfl⟩
  have outline : found.outline s = {
      segments := (View.of s).segments, aside := fun k => (s (.quarantined k)).map (·.2.contents)
      read := r.read, next := r.read, write := r.write, depth := r.length, reader := none } := by
    rw [found_eq]
    rfl
  unfold ofRecord
  rw [Outline.ofRecord, ← outline]
  simp only [← found_eq]
  by_cases crossed : r.write < r.read
  · rw [if_pos crossed, if_pos crossed]
    obtain ⟨told, healed⟩ := heal_outcome (found.tell .cursorsCrossed)
    obtain ⟨swept, -⟩ := swept_calm found config (by rw [found_eq]; exact calm) named
    rw [healed]
    exact ⟨_, steady_fresh found config swept true told _, outline_fresh found s⟩
  · have steady : found.Steady c dir s := by
      refine ⟨config, ?_, ?_, ?_, ?_⟩
      all_goals rw [found_eq]
      · exact calm
      · exact Position.le_refl _
      · exact nofun
      · exact nofun
    rw [if_neg crossed, if_neg crossed]
    split
    · exact ⟨s, ⟨config, steady.calm, steady.ordered, steady.reader, steady.writer⟩, rfl⟩
    · exact ⟨s, steady, rfl⟩

end Log

end DurableQueue
