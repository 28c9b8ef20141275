import DurableQueue.Proofs.Log.Ordering

/-!
# The frames that are written

`Log.frames` are the writes to segments that succeeded, as the disk has noted them. As long as a log
is poised, that is, its cursors are in order and what is open for writing is the segment at the write
cursor (`Log.Poised`), an append that succeeds writes one frame at the write cursor and no other
operation writes any (`Poised.append`, `Log.Quiet`), whatever fails.
-/

namespace DurableQueue

open FileSystem

namespace FileSystem.Access

/-- What a call put into a segment, and where. Segments are the files that are written to under
their own names. -/
def frame? (a : Access) : Option (String × Nat × Bytes) :=
  match a.call, a.error with
  | .write path offset bytes, none =>
    if (Naming.dropBack? ".dat".toList path.toList).isSome then some (path, offset, bytes) else none
  | _, _ => none

variable {a : Access}

theorem frame?_of_looks (looks : a.call.Looks) : a.frame? = none := by
  obtain ⟨call, error, after⟩ := a
  cases call <;> first | rfl | cases looks

theorem frame?_of_opens {path : String} (opens : a.call.Opens path) : a.frame? = none := by
  obtain ⟨call, error, after⟩ := a
  cases call <;> first | rfl | cases opens

theorem frame?_of_removes (removes : a.call.Removes) : a.frame? = none := by
  obtain ⟨call, error, after⟩ := a
  cases call <;> first | rfl | cases removes

/-- A record is written under a temporary name. -/
theorem frame?_of_stores {record : String} (stores : a.call.Stores record) : a.frame? = none := by
  obtain ⟨call, error, after⟩ := a
  cases call with
  | write path offset bytes =>
    obtain ⟨tag, rfl⟩ := stores
    cases error with
    | some e => rfl
    | none =>
      refine if_neg fun named => ?_
      rw [Option.isSome_iff_exists] at named
      obtain ⟨rest, named⟩ := named
      have last := congrArg List.getLast? (Naming.dropBack?_eq_some_iff.1 named)
      simp [Naming.temporaryPath, List.getLast?_cons, List.getLast?_append] at last
  | openRead _ | openWrite _ | createNew _ | seek _ _ | read _ _ _ | sync _ | rename _ _ | remove _
  | makeDirectory _ | list _ => rfl

/-- A failed write put nothing anywhere. -/
theorem frame?_of_failed {call : Call} {e : FileError} {after : Tree} :
    frame? ⟨call, some e, after⟩ = none := by
  cases call <;> rfl

/-- A segment's path ends as its name does. -/
theorem frame?_segment (dir queue : String) (number offset : Nat) (bytes : Bytes) (after : Tree) :
    frame? ⟨.write (Naming.segmentPath dir queue number) offset bytes, none, after⟩ =
      some (Naming.segmentPath dir queue number, offset, bytes) := by
  obtain ⟨front, joined⟩ : ∃ front : List Char,
      (Naming.segmentPath dir queue number).toList = front ++ ".dat".toList := by
    have named : (Naming.segmentName queue number).toList = queue.toList ++
        (".queue.".toList ++ Text.Decimal.writePadded 6 number) ++ ".dat".toList := by
      simp [Naming.segmentName]
    rw [Naming.segmentPath, Path.join]
    split
    · exact ⟨_, named⟩
    · split
      · rw [String.toList_append, named, ← List.append_assoc]
        exact ⟨_, rfl⟩
      · rw [String.toList_append, named, ← List.append_assoc]
        exact ⟨_, rfl⟩
  refine if_pos ?_
  rw [Naming.dropBack?_eq_some_iff.2 joined]
  rfl

end FileSystem.Access

namespace Log

/-- The writes to segments that succeeded, the earliest first. -/
def frames (log : Log) : List (String × Nat × Bytes) := log.disk.chosen Access.frame?

/-- The frame of a message at the write cursor. -/
def frameOf (log : Log) (m : Bytes) : String × Nat × Bytes :=
  (log.segmentPath log.write.file, log.write.offset, Frame.encode m)

/-- The cursors are in order, and what is open for writing is the segment at the write cursor. -/
structure Poised (log : Log) : Prop extends log.InOrder where
  writer : ∀ h ∈ log.writer, h.path = log.segmentPath log.write.file ∧ h.offset = log.write.offset

/-- `log'` is what became of `log` without a frame being written. -/
structure Quiet (log log' : Log) : Prop where
  config : log'.config = log.config
  onward : log.Onward log'
  frames : log'.frames = log.frames
  poised : log'.Poised

variable {log log' log'' : Log} {m : Bytes} {d : Disk}

theorem Poised.quiet (h : log.Poised) : log.Quiet log := ⟨rfl, .refl log, rfl, h⟩

theorem Quiet.trans (first : log.Quiet log') (second : log'.Quiet log'') : log.Quiet log'' :=
  ⟨second.config.trans first.config, first.onward.trans second.onward,
    second.frames.trans first.frames, second.poised⟩

/-- What an operation leaves alone as far as a poised log is concerned. -/
theorem Poised.going (h : log.Poised) (config : log'.config = log.config)
    (read : log'.read = log.read) (next : log'.next = log.next) (write : log'.write = log.write)
    (depth : log'.depth = log.depth) (writer : ∀ x ∈ log'.writer, x ∈ log.writer)
    (frames : log'.frames = log.frames) : log.Quiet log' where
  config := config
  onward := ⟨read ▸ Position.le_refl _, write ▸ Position.le_refl _⟩
  frames := frames
  poised := by
    refine ⟨h.toInOrder.of_eq read next write depth, fun x writing => ?_⟩
    obtain ⟨path, offset⟩ := h.writer x (writer x writing)
    rw [path, offset, segmentPath, segmentPath, config, write]
    exact ⟨rfl, rfl⟩

theorem poised_fresh (log : Log) {d : Disk} {sync : Bool} {told : List Notice} {resets : Nat} :
    Poised { log.fresh with disk := d, needSync := sync, journal := told, tailResets := resets } :=
  ⟨log.inOrder_fresh, nofun⟩

/-- Starting afresh writes no frame. -/
theorem quiet_fresh (log : Log) {sync : Bool} {told : List Notice} {resets : Nat}
    (removes : log.disk.Makes (fun a => a.call.Removes) d) :
    log.Quiet { log.fresh with disk := d, needSync := sync, journal := told, tailResets := resets } where
  config := rfl
  onward := log.onward_fresh
  frames := removes.chosen_eq fun _ => Access.frame?_of_removes
  poised := log.poised_fresh

theorem Tail.quiet (tail : log.Tail log') (ahead : log.read ≤ log.next)
    (writer : ∀ h ∈ log.writer, h.path = log.segmentPath log.write.file ∧
      h.offset = log.write.offset) : log.Quiet log' := by
  have ordered := tail.inOrder ahead
  cases tail with
  | unread behind => exact Poised.quiet ⟨ordered, writer⟩
  | met meet sync told resets =>
    exact ⟨rfl, ⟨Position.le_refl _, Position.le_refl _⟩, rfl, ordered, writer⟩
  | crossed past told resets => exact log.quiet_fresh log.swept_makes

theorem Poised.sync (h : log.Poised) : log.Quiet log.sync.2 := by
  obtain ⟨d, sync, told, w, eq, kept, makes⟩ := log.sync_outcome
  rw [eq]
  refine h.going rfl rfl rfl rfl rfl ?_ (makes.chosen_eq fun _ => Access.frame?_of_stores)
  rcases kept with rfl | rfl
  · exact fun _ writing => writing
  · exact nofun

theorem quiet_deleteAll (log : Log) : log.Quiet log.deleteAll.2 := by
  obtain ⟨told, eq⟩ := log.deleteAll_outcome
  rw [eq]
  exact log.quiet_fresh (log.swept_makes.trans Record.remove_makes)

/-- Reading takes `next` past the read cursor. -/
theorem Poised.readFrame (h : log.Poised) :
    log.Quiet log.readFrame.2 ∧
      ∀ m, log.readFrame.1 = .ok m → log.readFrame.2.read < log.readFrame.2.next := by
  obtain ⟨m, d, reader, eq, looks⟩ | ⟨e, d, reader, eq, looks⟩ := log.readFrame_outcome
  · rw [eq]
    refine ⟨⟨rfl, ⟨Position.le_refl _, Position.le_refl _⟩,
      looks.makes.chosen_eq fun _ => Access.frame?_of_looks,
      ⟨h.read_le_write, Position.le_of_lt Position.lt_past, h.meet⟩, h.writer⟩, fun _ _ => ?_⟩
    exact Position.lt_past
  · rw [eq]
    exact ⟨h.going rfl rfl rfl rfl rfl (fun _ writing => writing)
      (looks.makes.chosen_eq fun _ => Access.frame?_of_looks), nofun⟩

/-- Committing takes the read cursor as far as `next` at least. -/
theorem Poised.commit (h : log.Poised) :
    log.Quiet log.commit.2 ∧ log.next ≤ log.commit.2.read := by
  obtain ⟨sync, told, tail⟩ := log.commit_outcome
  have quiet := tail.quiet (Position.le_refl _) h.writer
  refine ⟨⟨quiet.config, ⟨Position.le_trans h.read_le_next quiet.onward.read, quiet.onward.write⟩,
    quiet.frames.trans ?_, quiet.poised⟩, quiet.onward.read⟩
  have removes : log.disk.Makes (fun a => a.call.Removes)
      (log.disk.remove (log.segmentPath log.read.file)).2 := Disk.makes_remove trivial
  rw [frames]
  simp only
  split
  · rfl
  · exact removes.chosen_eq fun _ => Access.frame?_of_removes

theorem Poised.quarantine (h : log.Poised) : log.Quiet log.quarantine := by
  obtain ⟨told, tail⟩ := log.quarantine_outcome
  have renames : log.disk.Makes (fun a => a.frame? = none)
      (log.disk.rename (log.segmentPath log.read.file)
        (Naming.quarantinePath (log.segmentPath log.read.file))).2 := Disk.makes_perform (fun _ _ => rfl) _
  have quiet := tail.quiet (Position.le_refl _) (by
    intro x writing
    by_cases here : log.read.file = log.write.file
    · simp only [if_pos here] at writing
      cases writing
    · simp only [if_neg here] at writing ⊢
      exact h.writer x writing)
  refine ⟨quiet.config, ⟨Position.le_trans (Position.le_of_lt (Position.lt_nextFile _))
    quiet.onward.read, Position.le_trans ?_ quiet.onward.write⟩, quiet.frames.trans ?_, quiet.poised⟩
  · simp only
    split
    · exact Position.le_of_lt (Position.lt_nextFile _)
    · exact Position.le_refl _
  · exact renames.chosen_eq fun _ same => same

/-- **An append that succeeds writes one frame at the write cursor; one that fails writes none.** -/
theorem Poised.append (h : log.Poised) (m : Bytes) :
    (∃ log', log.append m = (.ok (), log') ∧ log'.config = log.config ∧ log.Onward log' ∧
      log.write < log'.write ∧ log'.frames = log.frames ++ [log.frameOf m] ∧ log'.Poised ∧
      log'.read = log.read ∧ log'.next = log.next) ∨
    ∃ e log', log.append m = (.error e, log') ∧ log.Quiet log' ∧ (∀ name, e ≠ .exited name) ∧
      log'.read = log.read ∧ log'.next = log.next := by
  have outcome := log.append_outcome m
  have ordered := @InOrder.append log m h.toInOrder
  revert outcome ordered
  generalize log.append m = out
  intro outcome ordered
  cases outcome with
  | refused rejected => exact Or.inr ⟨_, log, rfl, h.quiet, nofun, rfl, rfl⟩
  | closed path e d opens =>
    refine Or.inr ⟨_, _, rfl, h.going rfl rfl rfl rfl rfl (fun _ writing => writing) ?_, nofun, rfl,
      rfl⟩
    exact opens.chosen_eq fun _ => Access.frame?_of_opens
  | failed x e d tree by_ opens =>
    refine Or.inr ⟨_, _, rfl, h.going rfl rfl rfl rfl rfl nofun ?_, nofun, rfl, rfl⟩
    have failed : d.Makes (fun a => a.frame? = none)
        (d.noted (.write x.path x.offset (Frame.encode m)) (some e) tree) :=
      Disk.makes_noted Access.frame?_of_failed
    exact (failed.chosen_eq fun _ same => same).trans
      (opens.chosen_eq fun _ => Access.frame?_of_opens)
  | made x d d' tree sync told within by_ opens rolls =>
    obtain ⟨path, offset⟩ : x.path = log.segmentPath log.write.file ∧ x.offset = log.write.offset := by
      rcases by_ with writing | ⟨-, opened⟩
      · exact h.writer x writing
      · exact opened
    refine Or.inl ⟨_, rfl, rfl, ordered.2, Position.lt_past, ?_, ⟨ordered.1, ?_⟩, rfl, rfl⟩
    · have before : d.chosen Access.frame? = log.frames :=
        opens.chosen_eq fun _ => Access.frame?_of_opens
      show d'.chosen Access.frame? = _
      rw [rolls.chosen_eq fun _ => Access.frame?_of_stores, Disk.chosen_noted, before, path, offset,
        segmentPath, Access.frame?_segment]
      rfl
    · intro y writing
      rcases Position.past_cases log.config.maxBytesPerFile log.write m.length with
        ⟨stay, room⟩ | ⟨leave, full⟩
      · rw [if_neg (by omega)] at writing
        cases writing
        simp only [appended, stay]
        exact ⟨path, by rw [offset]⟩
      · rw [if_pos full] at writing
        cases writing

/-- **A poised log stays poised, whatever is asked of it.** -/
theorem Poised.serve (h : log.Poised) (r : Request) : (log.serve r).Poised := by
  cases r with
  | append m =>
    rw [Log.serve]
    rcases h.append m with ⟨log', eq, -, -, -, -, poised, -⟩ | ⟨e, log', eq, quiet, -⟩
    · rw [eq]
      exact poised
    · rw [eq]
      exact quiet.poised
  | read => exact h.readFrame.1.poised
  | commit => exact h.commit.1.poised
  | quarantine => exact h.quarantine.poised
  | skip =>
    obtain ⟨told, eq⟩ := log.skip_outcome
    rw [Log.serve, eq]
    exact log.poised_fresh
  | deleteAll => exact log.quiet_deleteAll.poised
  | sync => exact h.sync.poised
  | requestSync => exact ⟨h.toInOrder.of_eq rfl rfl rfl rfl, h.writer⟩
  | closeFiles => exact ⟨h.toInOrder.of_eq rfl rfl rfl rfl, fun _ writing => by cases writing⟩

end Log

end DurableQueue
