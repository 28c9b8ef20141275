import DurableQueue.Proofs.Log.Watched
import DurableQueue.Proofs.Queue.Opening

/-!
# What a sync publishes

A sync stores a record, and with it publishes the frames between its cursors. Of these it covers the
ones in the segment that is open for writing, and no others (`Firm.covered_iff`). A frame is
stranded if it was never covered and its segment is not open any more; a sync that succeeds covers
what it publishes exactly if it publishes no stranded frame (`sync_covers_iff`), and none is ever
stranded as long as a segment is closed only when it is synced (`Guarded.serve`). A sync that fails
closes the segment, so the next one, which finds nothing to sync, publishes what that one could not
cover (`uncovered_after_failed_sync`).
-/

namespace DurableQueue

open FileSystem

theorem eq_ok_of_isOk {ε : Type} {result : Except ε Unit} (ok : result.isOk = true) :
    result = .ok () := by
  cases result with
  | error e => cases ok
  | ok u => rfl

namespace Log

/-- Whether the next sync closes the write segment because it cannot bring it to the medium. -/
def losesWriter (log : Log) : Bool :=
  match log.writer with
  | none => false
  | some h => !(log.disk.sync h).1.isOk

/-- Whether an append closes the write segment because it cannot write its frame. -/
def breaksOff (log : Log) (message : Bytes) : Bool :=
  match (log.place message).1 with
  | .error (.writeSegment ..) => true
  | _ => false

end Log

namespace Written

/-- The frame lies between the cursors of a record. -/
def Published (f : Written) (r : Record) : Prop := r.read ≤ f.place ∧ f.place < r.write

instance (f : Written) (r : Record) : Decidable (f.Published r) :=
  inferInstanceAs (Decidable (_ ∧ _))

/-- The segment of the frame is open for writing. -/
def HeldOpen (f : Written) (log : Log) (dir : Location) : Prop :=
  ∃ h ∈ log.writer, ∃ number inode,
    log.disk.tree.shelf log.config dir (.segment f.place.file) = some (number, inode) ∧
      h.node = .file number

/-- The frame is to be published, was not covered since it was written, and is in no segment that a
sync would cover. -/
def Stranded (f : Written) (log : Log) (dir : Location) : Prop :=
  f.Published log.record ∧ ¬f.Covered log.disk.tree log.config dir ∧ ¬f.HeldOpen log dir

end Written

namespace Watched

open Log (Request)

variable {w l : Watched} {c : Config} {dir : Location} {log : Log} {r : Request} {f : Written}
  {m : Bytes}

/-- A request closes the write segment, and it is not certain that the frames in it are covered. -/
def Lapses (w : Watched) (dir : Location) : Request → Prop
  | .append m => w.log.breaksOff m = true ∨ ∃ l ∈ w.syncs (.append m), l.log.losesWriter = true
  | .sync => w.log.losesWriter = true
  | .closeFiles =>
    ∃ f ∈ w.frames, w.log.read ≤ f.place ∧ ¬f.Covered w.log.disk.tree w.log.config dir
  | .read | .commit | .quarantine | .skip | .deleteAll | .requestSync => False

/-- None of the requests lapses. -/
def Careful (w : Watched) (dir : Location) : List Request → Prop
  | [] => True
  | r :: requests => ¬w.Lapses dir r ∧ (w.serve r).Careful dir requests

/-- Every frame from the read cursor on is covered, or in the segment that is open for writing. -/
def Guarded (w : Watched) (dir : Location) : Prop :=
  ∀ f ∈ w.frames, w.log.read ≤ f.place →
    f.Covered w.log.disk.tree w.log.config dir ∨ f.HeldOpen w.log dir

/-- A sync that does not fail at the segment covers the frames in it, and no others. -/
theorem Firm.covered_iff (h : w.Firm c dir) (sound : c.Sound) (kept : w.log.losesWriter = false)
    (hf : f ∈ w.frames) (live : w.log.read ≤ f.place) :
    f.Covered w.log.sync.2.disk.tree c dir ↔
      f.Covered w.log.disk.tree c dir ∨ f.HeldOpen w.log dir := by
  have syncs := h.sync sound
  have here := h.present f hf live
  obtain rfl := h.config
  obtain ⟨number, inode, found⟩ := here.found
  rw [Written.present_iff found] at here
  by_cases brings : w.log.Brings number
  · have after := syncs.brought _ _ _ found brings
    obtain ⟨x, writing, node, -⟩ := brings
    rw [Written.covered_iff after]
    exact iff_of_true here (Or.inr ⟨x, writing, number, inode, found, node⟩)
  · have after := syncs.left _ _ _ found brings
    rw [Written.covered_iff after, Written.covered_iff found, or_iff_left]
    rintro ⟨x, writing, n, i, found', node⟩
    rw [found] at found'
    cases found'
    refine brings ⟨x, writing, node, eq_ok_of_isOk ?_⟩
    rw [Option.mem_def] at writing
    simp only [Log.losesWriter, writing, Bool.not_eq_false'] at kept
    exact kept

/-- A sync that succeeds did not fail at the segment. -/
theorem Firm.losesWriter (h : w.Firm c dir) (sound : c.Sound) (ok : w.log.sync.1 = .ok ()) :
    w.log.losesWriter = false := by
  have synced := (h.sync sound).synced ok
  unfold Log.losesWriter
  split
  · rfl
  · next x writing =>
    rw [synced x writing]
    rfl

theorem Firm.covered_of_guarded (h : w.Firm c dir) (sound : c.Sound) (guarded : w.Guarded dir)
    (kept : w.log.losesWriter = false) :
    ∀ f ∈ w.frames, w.log.read ≤ f.place → f.Covered w.log.sync.2.disk.tree c dir := by
  intro f hf live
  rw [h.covered_iff sound kept hf live, ← h.config]
  exact guarded f hf live

/-! ### What keeps frames from being stranded -/

/-- Nothing is left to guard once the read cursor is past all frames. -/
theorem Sane.guarded_of_later (h : w.Sane c dir) (later : w.log.write.file < log.read.file) :
    Guarded { w with log } dir := by
  intro f hf live
  have behind := h.behind f hf
  have after := Position.file_le live
  simp only at after
  omega

theorem Sane.guarded_of_afresh (h : w.Sane c dir) (fresh : w.log.Afresh dir log) :
    Guarded { w with log } dir :=
  h.guarded_of_later (fresh.read_eq ▸ fresh.later)

/-- As long as the writer stays open, no file that is still to be read may change. -/
theorem Guarded.going (h : w.Guarded dir) (config : log.config = w.log.config)
    (sane : w.Sane c dir) (read : w.log.read ≤ log.read) (writer : log.writer = w.log.writer)
    (same : ∀ f ∈ w.frames, log.read ≤ f.place → ∀ entry,
      w.log.disk.tree.shelf c dir (.segment f.place.file) = some entry →
        log.disk.tree.shelf c dir (.segment f.place.file) = some entry) :
    Guarded { w with log } dir := by
  intro f hf live
  have lived := Position.le_trans read live
  have c_eq := sane.config
  obtain ⟨number, inode, found⟩ := (sane.present f hf lived).found
  have found' := same f hf live _ found
  rcases h f hf lived with covered | ⟨x, writing, n, i, there, node⟩
  · rw [c_eq, Written.covered_iff found] at covered
    refine Or.inl ?_
    simp only [config, c_eq]
    exact (Written.covered_iff found').2 covered
  · rw [c_eq] at there
    refine Or.inr ⟨x, by simp only [writer]; exact writing, n, i, ?_, node⟩
    simp only [config, c_eq]
    exact same f hf live _ there

theorem Guarded.read (h : w.Guarded dir) (sane : w.Sane c dir) :
    Guarded { w with log := w.log.readFrame.2 } dir := by
  obtain ⟨d, next, reader, eq, same, -⟩ := Log.readFrame_faulty w.log sane.ahead
  rw [eq]
  refine h.going rfl sane (Position.le_refl _) rfl fun f hf live entry found => ?_
  simp only [same]
  exact found

theorem Guarded.commit (h : w.Guarded dir) (sane : w.Sane c dir) (sound : c.Sound) :
    Guarded { w with log := w.log.commit.2 } dir := by
  obtain rfl := sane.config
  rcases Log.commit_faulty w.log sane.hosts sound with
    ⟨d, depth, sync, told, resets, eq, ordered, spares⟩ | fresh
  · rw [eq]
    exact h.going rfl sane sane.ahead rfl fun f hf live entry found =>
      spares.same _ _ (sane.apart_of_next live) found
  · exact sane.guarded_of_afresh fresh

theorem Guarded.quarantine (h : w.Guarded dir) (sane : w.Sane c dir) (sound : c.Sound) :
    Guarded { w with log := w.log.quarantine } dir := by
  obtain rfl := sane.config
  obtain ⟨d, depth, sync, told, resets, write, y, eq, left, spares⟩ :=
    Log.quarantine_faulty w.log sane.hosts sound sane.ordered
  rw [eq]
  rcases left with ⟨here, -, -⟩ | ⟨-, rfl, rfl⟩
  · refine sane.guarded_of_later ?_
    simp only [Position.nextFile]
    omega
  · exact h.going rfl sane (Position.le_of_lt (Position.lt_nextFile _)) rfl
      fun f hf live entry found => spares.same _ _ (apart_of_nextFile live) found

/-- After a sync that does not fail at the segment nothing is left to be covered. -/
theorem Guarded.synced (h : w.Guarded dir) (firm : w.Firm c dir) (sound : c.Sound)
    (kept : w.log.losesWriter = false) (config : log.config = w.log.config)
    (read : log.read = w.log.read) (disk : log.disk = w.log.sync.2.disk) :
    Guarded { w with log } dir := by
  intro f hf live
  refine Or.inl ?_
  simp only [config, disk, firm.config]
  exact firm.covered_of_guarded sound h kept f hf (read ▸ live)

/-- Only the segment at the write cursor can be open for writing. -/
theorem Sane.file_eq (h : w.Sane c dir) (open_ : f.HeldOpen w.log dir) :
    f.place.file = w.log.write.file := by
  obtain ⟨x, writing, number, inode, found, node⟩ := open_
  obtain ⟨-, n, i, found', node'⟩ := h.writer x writing
  rw [node] at node'
  cases node'
  apply Decidable.byContradiction
  intro ne
  exact h.hosts.number_ne (h.config ▸ found') (h.config ▸ found) (by simpa using ne) rfl

theorem Guarded.placed (h : w.Guarded dir) (sane : w.Sane c dir) (sound : c.Sound)
    (whole : w.log.breaksOff m = false) : (w.placed m).Guarded dir := by
  obtain rfl := sane.config
  have placing := Log.place_faulty w.log m sane.hosts sound sane.writer
  obtain ⟨out, out_eq⟩ : ∃ out, out = w.log.place m := ⟨_, rfl⟩
  rw [placed_eq, ← out_eq]
  rw [Log.breaksOff, ← out_eq] at whole
  rw [← out_eq] at placing
  cases placing with
  | refused e d spares =>
    simp only [List.append_nil]
    exact h.going rfl sane (Position.le_refl _) rfl fun f hf live entry found =>
      spares.same _ _ trivial found
  | failed path e d grows => cases whole
  | placed x d number inode grows there _ node _ =>
    intro f hf live
    rcases List.mem_append.1 hf with old | new
    · rcases h f old live with covered | open_
      · exact Or.inl (((sane.present f old live).grows grows fun here => by
          have := sane.behind f old
          omega).2.2 covered)
      · refine Or.inr ⟨x, rfl, number, inode, ?_, node⟩
        rw [sane.file_eq open_]
        exact there
    · rw [List.mem_singleton.1 new]
      exact Or.inr ⟨x, rfl, number, inode, there, node⟩

theorem Guarded.append (h : w.Guarded dir) (sane : w.Sane c dir) (sound : c.Sound)
    (careful : ¬w.Lapses dir (.append m)) : (w.serve (.append m)).Guarded dir := by
  have whole : w.log.breaksOff m = false := by
    rw [Bool.eq_false_iff]
    exact fun broken => careful (Or.inl broken)
  have placed := h.placed sane sound whole
  have sane' := sane.placed sound m
  rw [serve_append]
  split
  · next done =>
    by_cases full : (w.placed m).log.config.maxBytesPerFile < (w.placed m).log.write.offset
    · have kept : (w.placed m).log.rolled.losesWriter = false := by
        rw [Bool.eq_false_iff]
        refine fun lost => careful (Or.inr ⟨{ w.placed m with log := (w.placed m).log.rolled }, ?_, lost⟩)
        simp only [Watched.syncs, done, if_pos full]
        exact List.mem_singleton.2 rfl
      have moved : Guarded { w.placed m with log := (w.placed m).log.rolled } dir := placed
      obtain ⟨told, rolled⟩ := (w.placed m).log.roll_of_full full
      have syncs := sane'.rolled.sync sound
      rw [rolled]
      exact moved.synced sane'.rolled sound kept syncs.config_eq syncs.read_eq rfl
    · rw [(w.placed m).log.roll_of_room full]
      exact placed
  · exact placed

/-- **No frame is stranded by a request that does not lapse.** -/
theorem Guarded.serve (h : w.Guarded dir) (sane : w.Sane c dir) (sound : c.Sound)
    (careful : ¬w.Lapses dir r) : (w.serve r).Guarded dir := by
  have unwritten : ∀ log : Log, Guarded { w with log } dir →
      Guarded { log, frames := w.frames ++ [] } dir := by
    intro log guarded
    rw [List.append_nil]
    exact guarded
  cases r with
  | append m => exact h.append sane sound careful
  | read => exact unwritten _ (h.read sane)
  | commit => exact unwritten _ (h.commit sane sound)
  | quarantine => exact unwritten _ (h.quarantine sane sound)
  | skip =>
    exact unwritten _ (sane.guarded_of_afresh
      (w.log.skip_faulty (sane.config ▸ sane.hosts) (sane.config ▸ sound)))
  | deleteAll =>
    exact unwritten _ (sane.guarded_of_afresh
      (w.log.deleteAll_faulty (sane.config ▸ sane.hosts) (sane.config ▸ sound)))
  | sync =>
    have kept : w.log.losesWriter = false := by
      rw [Bool.eq_false_iff]
      exact careful
    have syncs := sane.firm.sync sound
    exact unwritten _ (h.synced sane.firm sound kept syncs.config_eq syncs.read_eq rfl)
  | requestSync => exact unwritten _ h
  | closeFiles =>
    refine unwritten _ fun f hf live => Or.inl ?_
    exact Decidable.byContradiction fun uncovered => careful ⟨f, hf, live, uncovered⟩

theorem Guarded.after {rs : List Request} (h : w.Guarded dir) (sane : w.Sane c dir) (sound : c.Sound)
    (careful : w.Careful dir rs) : (w.after rs).Guarded dir := by
  induction rs generalizing w with
  | nil => exact h
  | cons r rs ih => exact ih (h.serve sane sound careful.1) (sane.serve sound r) careful.2

/-- What a sync finds at any moment of a request is guarded if the log is. -/
theorem Guarded.syncs (h : w.Guarded dir) (sane : w.Sane c dir) (sound : c.Sound)
    (hl : l ∈ w.syncs r) : l.Guarded dir := by
  cases r with
  | sync =>
    obtain rfl := List.mem_singleton.1 hl
    exact h
  | append m =>
    simp only [Watched.syncs] at hl
    split at hl
    · next done =>
      split at hl
      · obtain rfl := List.mem_singleton.1 hl
        have whole : w.log.breaksOff m = false := by
          rw [Log.breaksOff, done]
        exact h.placed sane sound whole
      · cases hl
    · cases hl
  | read | commit | quarantine | skip | deleteAll | requestSync | closeFiles => cases hl

/-! ### From an empty directory -/

theorem sane_start {d : Disk} (vacant : d.tree.Vacant c.dataPath dir) : (start c d).Sane c dir := by
  have taken : Log.ofRecord c d {} = Log.resumed c d {} :=
    Log.ofRecord_eq (Position.le_refl _) (Int.le_refl 0) fun _ => rfl
  have eq : start c d = { log := Log.resumed c d {} } := by rw [start, taken]
  rw [eq]
  exact ⟨rfl, vacant.hosts, Position.le_refl _, Position.le_refl _, nofun, nofun, nofun⟩

/-- **A sync that succeeds covers what it publishes exactly if no frame that it publishes is
stranded, and none is if no request before it lapsed.** -/
theorem sync_covers_iff {d : Disk} (sound : c.Sound) (vacant : d.tree.Vacant c.dataPath dir)
    (rs : List Request) (hl : l ∈ ((start c d).after rs).syncs r) (ok : l.log.sync.1 = .ok ()) :
    (View.of (l.log.sync.2.disk.tree.shelf c dir)).record = some (Text.encode l.log.record.text) ∧
      ((∀ f ∈ l.frames, f.Published l.log.record → f.Covered l.log.sync.2.disk.tree c dir) ↔
        ∀ f ∈ l.frames, ¬f.Stranded l.log dir) ∧
      ((start c d).Careful dir rs →
        ∀ f ∈ l.frames, f.Published l.log.record → f.Covered l.log.sync.2.disk.tree c dir) := by
  have started := sane_start vacant
  have sane := started.after sound rs
  have firm := sane.syncs sound hl
  have kept := firm.losesWriter sound ok
  have stored := (firm.sync sound).stored ok
  obtain rfl := firm.config
  refine ⟨stored, ?_, ?_⟩
  · constructor
    · intro covers f hf stranded
      obtain ⟨published, uncovered, closed⟩ := stranded
      have covered := covers f hf published
      rw [firm.covered_iff sound kept hf published.1] at covered
      rcases covered with before | open_
      · exact uncovered before
      · exact closed open_
    · intro none f hf published
      rw [firm.covered_iff sound kept hf published.1]
      rcases Classical.em (f.Covered l.log.disk.tree l.log.config dir) with before | uncovered
      · exact Or.inl before
      · refine Or.inr (Classical.byContradiction fun closed => ?_)
        exact none f hf ⟨published, uncovered, closed⟩
  · intro careful f hf published
    have nothing : (start l.log.config d).Guarded dir := nofun
    have guarded := (nothing.after started sound careful).syncs sane sound hl
    exact firm.covered_of_guarded sound guarded kept f hf published.1

/-- A disk on which the first sync of a segment fails. -/
def unready : Disk where
  tree := Disk.blank.tree
  faults n _ := if n = 2 then some { error := .other } else none

/-- The log after a message was appended and a sync of it failed. -/
def afterFailedSync : Watched := (start .narrow unready).after [.append [97], .sync]

/-- A sync that failed closed the segment. The next one succeeds, and publishes a frame that was
never covered. -/
theorem uncovered_after_failed_sync :
    unready.tree.Vacant Config.narrow.dataPath [.text "data"] ∧
      ∃ l ∈ afterFailedSync.syncs .sync, l.log.sync.1 = .ok () ∧ ∃ f ∈ l.frames,
        f.Published l.log.record ∧
          ¬f.Covered l.log.sync.2.disk.tree .narrow [.text "data"] := by
  refine ⟨Disk.blank_fresh.toVacant, afterFailedSync, List.mem_singleton.2 rfl, ?_, ⟨⟨0, 0⟩, 1⟩, ?_,
    ?_, ?_⟩
  · exact eq_ok_of_isOk (by decide +kernel)
  · decide +kernel
  · decide +kernel
  · decide +kernel

/-- A message that a sync stores is covered if no sync failed before it. -/
theorem covered_after_sync :
    ∃ l ∈ ((start .narrow Disk.blank).after [.append [97]]).syncs .sync, l.log.sync.1 = .ok () ∧
      (⟨⟨0, 0⟩, 1⟩ : Written) ∈ l.frames ∧
        ∀ f ∈ l.frames, f.Published l.log.record →
          f.Covered l.log.sync.2.disk.tree .narrow [.text "data"] := by
  have here : ((start .narrow Disk.blank).after [.append [97]]) ∈
      ((start .narrow Disk.blank).after [.append [97]]).syncs .sync := List.mem_singleton.2 rfl
  have ok : ((start .narrow Disk.blank).after [.append [97]]).log.sync.1 = .ok () :=
    eq_ok_of_isOk (by decide +kernel)
  have careful : (start .narrow Disk.blank).Careful [.text "data"] [.append [97]] := by
    refine ⟨?_, trivial⟩
    rintro (broken | ⟨l, hl, -⟩)
    · revert broken
      decide +kernel
    · have none : (start .narrow Disk.blank).syncs (.append [97]) = [] := rfl
      rw [none] at hl
      cases hl
  exact ⟨_, here, ok, by decide +kernel, (sync_covers_iff Config.narrow_sound
    Disk.blank_fresh.toVacant [.append [97]] here ok).2.2 careful⟩

end Watched

end DurableQueue
