import DurableQueue.Proofs.Log.Failing.Append
import DurableQueue.Proofs.Log.Failing.Move

/-!
# A log whose calls may fail

Any request may be made of a log at any time, and any of its calls may fail. `Watched` is a log with
a note of every frame that it has written; `Watched.Sane` is what stays true of it: the cursors are
in order, every frame that is still between them is in its segment's file as a whole, and a segment
that is open for writing is the one at the write cursor. `Watched.syncs` are the moments of a
request at which the log is synced, which an append does on its way to the next segment.
-/

namespace DurableQueue

open FileSystem

namespace Log

/-- What may be asked of a log. -/
inductive Request where
  | append (message : Bytes)
  | read
  | commit
  | quarantine
  | skip
  | deleteAll
  | sync
  | requestSync
  | closeFiles
  deriving DecidableEq, Repr

/-- The log after a request. -/
def serve (log : Log) : Request → Log
  | .append m => (log.append m).2
  | .read => log.readFrame.2
  | .commit => log.commit.2
  | .quarantine => log.quarantine
  | .skip => log.skip.2
  | .deleteAll => log.deleteAll.2
  | .sync => log.sync.2
  | .requestSync => log.requestSync
  | .closeFiles => log.closeFiles

end Log

/-- A frame that was written: where it begins and the size of its message. -/
structure Written where
  place : Position
  size : Nat
  deriving DecidableEq, Repr

namespace Written

/-- Where a frame ends in its segment. -/
def stop (f : Written) : Nat := f.place.offset + Frame.diskSize f.size

/-- The whole frame is in its segment's file. -/
def Present (f : Written) (t : Tree) (c : Config) (dir : Location) : Prop :=
  f.stop ≤ ((t.shelf c dir (.segment f.place.file)).map (·.2.contents.length)).getD 0

/-- The whole frame was brought to the medium after it was written. -/
def Covered (f : Written) (t : Tree) (c : Config) (dir : Location) : Prop :=
  f.stop ≤ ((t.shelf c dir (.segment f.place.file)).map (·.2.durable)).getD 0

instance (f : Written) (t : Tree) (c : Config) (dir : Location) : Decidable (f.Covered t c dir) :=
  inferInstanceAs (Decidable (_ ≤ _))

variable {f : Written} {t t' : Tree} {c : Config} {dir : Location} {kept : QueueFile → Prop}
  {number : Nat} {inode : Inode}

theorem stop_pos (f : Written) : 0 < f.stop := by
  simp only [stop, Frame.diskSize, Frame.headerSize]
  omega

theorem present_iff (found : t.shelf c dir (.segment f.place.file) = some (number, inode)) :
    f.Present t c dir ↔ f.stop ≤ inode.contents.length := by
  rw [Present, found, Option.map_some, Option.getD_some]

theorem covered_iff (found : t.shelf c dir (.segment f.place.file) = some (number, inode)) :
    f.Covered t c dir ↔ f.stop ≤ inode.durable := by
  rw [Covered, found, Option.map_some, Option.getD_some]

theorem Present.found (h : f.Present t c dir) :
    ∃ number inode, t.shelf c dir (.segment f.place.file) = some (number, inode) := by
  rcases Option.eq_none_or_eq_some (t.shelf c dir (.segment f.place.file)) with none | ⟨⟨n, i⟩, some⟩
  · rw [Present, none, Option.map_none, Option.getD_none] at h
    exact absurd f.stop_pos (by omega)
  · exact ⟨n, i, some⟩

theorem Present.stays (h : f.Present t c dir) (spares : t.Spares c dir kept t')
    (among : kept (.segment f.place.file)) : f.Present t' c dir := by
  obtain ⟨number, inode, found⟩ := h.found
  rw [present_iff found] at h
  rwa [present_iff (spares.same _ _ among found)]

/-- What is brought to the medium does not change where nothing does. -/
theorem Present.covered_spared (h : f.Present t c dir) (spares : t.Spares c dir kept t')
    (among : kept (.segment f.place.file)) : f.Covered t' c dir ↔ f.Covered t c dir := by
  obtain ⟨number, inode, found⟩ := h.found
  rw [Written.covered_iff found, Written.covered_iff (spares.same _ _ among found)]

/-- A frame that ends before the place from which a segment grew is where it was, and as much on
the medium as it was. -/
theorem Present.grows {k offset : Nat} (h : f.Present t c dir) (grows : t.Grows c dir k offset t')
    (before : f.place.file = k → f.stop ≤ offset) :
    f.Present t' c dir ∧ (f.Covered t' c dir ↔ f.Covered t c dir) := by
  by_cases here : f.place.file = k
  · obtain ⟨number, inode, found⟩ := h.found
    have low := before here
    subst here
    obtain ⟨inode', found', longer, durable⟩ := grows.grown number inode found
    rw [Written.present_iff found] at h
    rw [Written.present_iff found', Written.covered_iff found', Written.covered_iff found, durable]
    omega
  · have among : QueueFile.segment f.place.file ≠ .segment k := by simpa using here
    exact ⟨h.stays grows.spares among, h.covered_spared grows.spares among⟩

end Written

/-- A log and the frames that it has written. -/
structure Watched where
  log : Log
  frames : List Written := []

namespace Watched

open Log (Request)

/-- A log in a new directory. -/
def start (c : Config) (d : Disk) : Watched where
  log := Log.ofRecord c d {}

/-- The frames that a request writes. -/
def writes (w : Watched) : Request → List Written
  | .append m =>
    match (w.log.place m).1 with
    | .ok () => [⟨w.log.write, m.length⟩]
    | .error _ => []
  | .read | .commit | .quarantine | .skip | .deleteAll | .sync | .requestSync | .closeFiles => []

def serve (w : Watched) (r : Request) : Watched where
  log := w.log.serve r
  frames := w.frames ++ w.writes r

/-- Requests in turn. -/
def after (w : Watched) : List Request → Watched
  | [] => w
  | r :: requests => (w.serve r).after requests

/-- The log after an append, up to the moment at which the segment may be left. -/
def placed (w : Watched) (m : Bytes) : Watched where
  log := (w.log.place m).2
  frames := w.frames ++ w.writes (.append m)

/-- The moments of a request at which the log is synced. -/
def syncs (w : Watched) : Request → List Watched
  | .sync => [w]
  | .append m =>
    match (w.log.place m).1 with
    | .ok () =>
      if (w.placed m).log.config.maxBytesPerFile < (w.placed m).log.write.offset then
        [{ w.placed m with log := (w.placed m).log.rolled }]
      else []
    | .error _ => []
  | .read | .commit | .quarantine | .skip | .deleteAll | .requestSync | .closeFiles => []

variable {w : Watched} {c : Config} {dir : Location} {log : Log} {r : Request}

theorem placed_eq (w : Watched) (m : Bytes) :
    w.placed m = { log := (w.log.place m).2, frames := w.frames ++
      match (w.log.place m).1 with
      | .ok () => [⟨w.log.write, m.length⟩]
      | .error _ => [] } := rfl

theorem serve_append (w : Watched) (m : Bytes) :
    w.serve (.append m) =
      match (w.log.place m).1 with
      | .ok () => { w.placed m with log := (w.placed m).log.roll }
      | .error _ => w.placed m := by
  simp only [serve, Log.serve, placed, Log.append_eq]
  cases w.log.place m with
  | mk result log => cases result <;> rfl

/-- What a sync finds: every frame from the read cursor on is in its segment, and what is open for
writing is a segment. -/
structure Firm (w : Watched) (c : Config) (dir : Location) : Prop where
  config : w.log.config = c
  hosts : w.log.disk.tree.Hosts c.dataPath dir
  present : ∀ f ∈ w.frames, w.log.read ≤ f.place → f.Present w.log.disk.tree c dir
  writes : w.log.Writes (w.log.disk.tree.shelf c dir)

/-- What is true of a log whatever was asked of it and whatever failed. -/
structure Sane (w : Watched) (c : Config) (dir : Location) : Prop where
  config : w.log.config = c
  hosts : w.log.disk.tree.Hosts c.dataPath dir
  ordered : w.log.read ≤ w.log.write
  ahead : w.log.read ≤ w.log.next
  /-- Frames end before the write cursor. -/
  behind : ∀ f ∈ w.frames, f.place.file < w.log.write.file ∨
    f.place.file = w.log.write.file ∧ f.stop ≤ w.log.write.offset
  present : ∀ f ∈ w.frames, w.log.read ≤ f.place → f.Present w.log.disk.tree c dir
  writer : ∀ h ∈ w.log.writer, w.log.Writing dir h

theorem Sane.firm (h : w.Sane c dir) : w.Firm c dir where
  config := h.config
  hosts := h.hosts
  present := h.present
  writes := by
    intro x writing
    obtain ⟨-, number, inode, found, node⟩ := h.writer x writing
    rw [h.config] at found
    exact ⟨_, number, inode, found, node⟩

theorem Firm.sync (h : w.Firm c dir) (sound : c.Sound) :
    w.log.Syncs dir w.log.sync.1 w.log.sync.2 := by
  obtain ⟨rfl, hosts, -, writes⟩ := h
  exact Log.sync_faulty w.log hosts sound writes

/-- A sync leaves every frame where it is. -/
theorem Firm.present_sync (h : w.Firm c dir) (sound : c.Sound) :
    ∀ f ∈ w.frames, w.log.read ≤ f.place → f.Present w.log.sync.2.disk.tree c dir := by
  intro f hf live
  have syncs := h.sync sound
  have here := h.present f hf live
  obtain ⟨number, inode, found⟩ := here.found
  rw [Written.present_iff found] at here
  by_cases brings : w.log.Brings number
  · have found' := syncs.brought _ number inode (h.config ▸ found) brings
    rw [h.config] at found'
    rw [Written.present_iff found']
    exact here
  · have found' := syncs.left _ number inode (h.config ▸ found) brings
    rw [h.config] at found'
    rw [Written.present_iff found']
    exact here

/-- A log that starts afresh is sane whatever it was before. -/
theorem Sane.afresh (h : w.Sane c dir) (fresh : w.log.Afresh dir log) :
    Sane { w with log } c dir where
  config := fresh.config.trans h.config
  hosts := h.config ▸ fresh.hosts
  ordered := by
    simp only [fresh.read_eq]
    exact Position.le_refl _
  ahead := by
    simp only [fresh.read_eq, fresh.next_eq]
    exact Position.le_refl _
  behind f hf := by
    have := h.behind f hf
    have := fresh.later
    simp only
    omega
  present f hf live := by
    have := h.behind f hf
    have := fresh.later
    simp only [fresh.read_eq, Position.le_iff] at live
    omega
  writer := by
    simp only [fresh.closed]
    nofun

/-- A log whose cursors are in order and that lost no unread frame is sane. -/
theorem Sane.going (h : w.Sane c dir) (config : log.config = c)
    (hosts : log.disk.tree.Hosts c.dataPath dir) (ordered : log.read ≤ log.write)
    (ahead : log.read ≤ log.next) (read : w.log.read ≤ log.read) (write : w.log.write ≤ log.write)
    (present : ∀ f ∈ w.frames, w.log.read ≤ f.place → log.read ≤ f.place →
      f.Present log.disk.tree c dir)
    (writer : ∀ x ∈ log.writer, log.Writing dir x) : Sane { w with log } c dir where
  config := config
  hosts := hosts
  ordered := ordered
  ahead := ahead
  behind f hf := by
    have := h.behind f hf
    simp only [Position.le_iff] at write
    simp only
    omega
  present f hf live := present f hf (Position.le_trans read live) live
  writer := writer

/-- What lies from `next` on is not in a segment that is left behind. -/
theorem Sane.apart_of_next (h : w.Sane c dir) {p : Position} (beyond : w.log.next ≤ p) :
    w.log.read.file ≠ w.log.next.file →
      QueueFile.segment p.file ≠ .segment w.log.read.file := by
  intro left
  have forward := Position.file_le h.ahead
  have after := Position.file_le beyond
  simp only [ne_eq, QueueFile.segment.injEq]
  omega

/-- What lies from the next segment on is in another segment. -/
theorem apart_of_nextFile {p q : Position} (beyond : p.nextFile ≤ q) :
    ∃ k, QueueFile.segment q.file = .segment k ∧ k ≠ p.file := by
  refine ⟨q.file, rfl, ?_⟩
  have after := Position.file_le beyond
  simp only [Position.nextFile] at after
  omega

theorem Sane.read (h : w.Sane c dir) : Sane { w with log := w.log.readFrame.2 } c dir := by
  obtain ⟨d, next, reader, eq, same, ahead⟩ := Log.readFrame_faulty w.log h.ahead
  rw [eq]
  refine h.going h.config (same ▸ h.hosts) h.ordered ahead (Position.le_refl _) (Position.le_refl _)
    (fun f hf live _ => ?_) fun x writing => ?_
  · simp only [same]
    exact h.present f hf live
  · obtain ⟨offset, number, inode, found, node⟩ := h.writer x writing
    exact ⟨offset, number, inode, by simp only [same]; exact found, node⟩

/-- What a sync leaves open for writing is what was open before it. -/
theorem Sane.writing_sync (h : w.Sane c dir) (sound : c.Sound) :
    ∀ x ∈ w.log.sync.2.writer, w.log.sync.2.Writing dir x := by
  intro x writing
  have syncs := h.firm.sync sound
  obtain ⟨d, sync, told, y, eq⟩ := syncs.rest
  rcases syncs.writer with same | none
  · rw [same] at writing
    obtain ⟨offset, number, inode, found, node⟩ := h.writer x writing
    by_cases brings : w.log.Brings number
    · have found' := syncs.brought _ _ _ found brings
      rw [eq] at found' ⊢
      exact ⟨offset, number, _, found', node⟩
    · have found' := syncs.left _ _ _ found brings
      rw [eq] at found' ⊢
      exact ⟨offset, number, _, found', node⟩
  · rw [none] at writing
    cases writing

theorem Sane.sync (h : w.Sane c dir) (sound : c.Sound) :
    Sane { w with log := w.log.sync.2 } c dir := by
  have syncs := h.firm.sync sound
  have present := h.firm.present_sync sound
  have writing := h.writing_sync sound
  obtain ⟨d, sync, told, y, eq⟩ := syncs.rest
  have hosts := syncs.hosts
  rw [h.config] at hosts
  rw [eq] at hosts present writing ⊢
  exact h.going h.config hosts h.ordered h.ahead (Position.le_refl _) (Position.le_refl _)
    (fun f hf live _ => present f hf live) writing

/-- Before a segment is left, its frames are all there. -/
theorem Sane.rolled (h : w.Sane c dir) : Firm { w with log := w.log.rolled } c dir :=
  ⟨h.firm.config, h.firm.hosts, h.firm.present, h.firm.writes⟩

theorem Sane.roll (h : w.Sane c dir) (sound : c.Sound) :
    Sane { w with log := w.log.roll } c dir := by
  by_cases full : w.log.config.maxBytesPerFile < w.log.write.offset
  · have syncs := h.rolled.sync sound
    have present := h.rolled.present_sync sound
    have hosts := syncs.hosts
    obtain ⟨told, rolled⟩ := w.log.roll_of_full full
    obtain ⟨d, sync, told', y, eq⟩ := syncs.rest
    simp only at eq hosts present
    rw [eq] at rolled hosts present
    rw [rolled]
    have forward := Position.le_of_lt (Position.lt_nextFile w.log.write)
    exact h.going h.config (h.config ▸ hosts) (Position.le_trans h.ordered forward) h.ahead
      (Position.le_refl _) forward (fun f hf live _ => present f hf live) nofun
  · rw [w.log.roll_of_room full]
    exact h

/-- A sane log after an append that may still leave the segment. -/
theorem Sane.placed (h : w.Sane c dir) (sound : c.Sound) (m : Bytes) :
    (w.placed m).Sane c dir := by
  obtain rfl := h.config
  have placing := Log.place_faulty w.log m h.hosts sound h.writer
  obtain ⟨out, out_eq⟩ : ∃ out, out = w.log.place m := ⟨_, rfl⟩
  rw [placed_eq, ← out_eq]
  rw [← out_eq] at placing
  cases placing with
  | refused e d spares =>
    simp only [List.append_nil]
    refine h.going rfl spares.hosts h.ordered h.ahead (Position.le_refl _) (Position.le_refl _)
      (fun f hf live _ => (h.present f hf live).stays spares trivial) fun x writing => ?_
    obtain ⟨offset, number, inode, found, node⟩ := h.writer x writing
    exact ⟨offset, number, inode, spares.same _ _ trivial found, node⟩
  | failed path e d grows =>
    simp only [List.append_nil]
    refine h.going rfl grows.spares.hosts h.ordered h.ahead (Position.le_refl _)
      (Position.le_refl _) (fun f hf live _ => ?_) nofun
    exact ((h.present f hf live).grows grows fun here => by
      have := h.behind f hf
      omega).1
  | placed x d number inode grows there whole node offset =>
    have moved : w.log.write ≤
        ⟨w.log.write.file, w.log.write.offset + Frame.diskSize m.length⟩ :=
      Or.inr ⟨rfl, Nat.le_add_right _ _⟩
    exact
      { config := rfl
        hosts := grows.spares.hosts
        ordered := Position.le_trans h.ordered moved
        ahead := h.ahead
        behind := fun f hf => by
          rcases List.mem_append.1 hf with old | new
          · have := h.behind f old
            simp only
            omega
          · rw [List.mem_singleton.1 new]
            exact Or.inr ⟨rfl, Nat.le_of_eq rfl⟩
        present := fun f hf live => by
          rcases List.mem_append.1 hf with old | new
          · exact ((h.present f old live).grows grows fun here => by
              have := h.behind f old
              omega).1
          · rw [List.mem_singleton.1 new]
            have found : d.tree.shelf w.log.config dir
                (.segment (Written.mk w.log.write m.length).place.file) = some (number, inode) := there
            exact (Written.present_iff found).2 whole
        writer := by
          rintro y ⟨⟩
          exact ⟨offset, number, inode, there, node⟩ }

theorem Sane.append (h : w.Sane c dir) (sound : c.Sound) (m : Bytes) :
    (w.serve (.append m)).Sane c dir := by
  rw [serve_append]
  split
  · exact (h.placed sound m).roll sound
  · exact h.placed sound m

/-- A segment that is left behind by the read cursor holds no frame that is still unread. -/
theorem Sane.commit (h : w.Sane c dir) (sound : c.Sound) :
    Sane { w with log := w.log.commit.2 } c dir := by
  obtain rfl := h.config
  rcases Log.commit_faulty w.log h.hosts sound with
    ⟨d, depth, sync, told, resets, eq, ordered, spares⟩ | fresh
  · rw [eq]
    refine h.going rfl spares.hosts ordered (Position.le_refl _) h.ahead (Position.le_refl _)
      (fun f hf live stays => ?_) fun x writing => ?_
    · exact (h.present f hf live).stays spares (h.apart_of_next stays)
    · obtain ⟨offset, number, inode, found, node⟩ := h.writer x writing
      exact ⟨offset, number, inode, spares.same _ _ (h.apart_of_next ordered) found, node⟩
  · exact h.afresh fresh

theorem Sane.quarantine (h : w.Sane c dir) (sound : c.Sound) :
    Sane { w with log := w.log.quarantine } c dir := by
  obtain rfl := h.config
  obtain ⟨d, depth, sync, told, resets, write, y, eq, left, spares⟩ :=
    Log.quarantine_faulty w.log h.hosts sound h.ordered
  have behind := Position.file_le h.ordered
  rw [eq]
  rcases left with ⟨here, rfl, rfl⟩ | ⟨away, rfl, rfl⟩
  · refine h.going rfl spares.hosts ?_ (Position.le_refl _)
      (Position.le_of_lt (Position.lt_nextFile _)) (Position.le_of_lt (Position.lt_nextFile _))
      (fun f hf live stays => ?_) nofun
    · simp only [Position.le_iff, Position.nextFile]
      omega
    · exact (h.present f hf live).stays spares (apart_of_nextFile stays)
  · have ordered : w.log.read.nextFile ≤ w.log.write := by
      simp only [Position.le_iff, Position.nextFile]
      omega
    refine h.going rfl spares.hosts ordered (Position.le_refl _)
      (Position.le_of_lt (Position.lt_nextFile _)) (Position.le_refl _)
      (fun f hf live stays => ?_) fun x writing => ?_
    · exact (h.present f hf live).stays spares (apart_of_nextFile stays)
    · obtain ⟨offset, number, inode, found, node⟩ := h.writer x writing
      exact ⟨offset, number, inode, spares.same _ _ (apart_of_nextFile ordered) found, node⟩

/-- **Whatever is asked of a log and whatever fails, it stays sane.** -/
theorem Sane.serve (h : w.Sane c dir) (sound : c.Sound) (r : Request) : (w.serve r).Sane c dir := by
  have unwritten : ∀ log : Log, Sane { w with log } c dir →
      Sane { log, frames := w.frames ++ [] } c dir := by
    intro log sane
    rw [List.append_nil]
    exact sane
  cases r with
  | append m => exact h.append sound m
  | read => exact unwritten _ h.read
  | commit => exact unwritten _ (h.commit sound)
  | quarantine => exact unwritten _ (h.quarantine sound)
  | skip =>
    exact unwritten _ (h.afresh (w.log.skip_faulty (h.config ▸ h.hosts) (h.config ▸ sound)))
  | deleteAll =>
    exact unwritten _ (h.afresh (w.log.deleteAll_faulty (h.config ▸ h.hosts) (h.config ▸ sound)))
  | sync => exact unwritten _ (h.sync sound)
  | requestSync =>
    exact unwritten _ ⟨h.config, h.hosts, h.ordered, h.ahead, h.behind, h.present, h.writer⟩
  | closeFiles => exact unwritten _ ⟨h.config, h.hosts, h.ordered, h.ahead, h.behind, h.present, nofun⟩

theorem Sane.after (h : w.Sane c dir) (sound : c.Sound) (rs : List Request) :
    (w.after rs).Sane c dir := by
  induction rs generalizing w with
  | nil => exact h
  | cons r rs ih => exact ih (h.serve sound r)

/-- What a sync finds at any moment of a request. -/
theorem Sane.syncs (h : w.Sane c dir) (sound : c.Sound) {l : Watched} (hl : l ∈ w.syncs r) :
    l.Firm c dir := by
  cases r with
  | sync =>
    obtain rfl := List.mem_singleton.1 hl
    exact h.firm
  | append m =>
    simp only [Watched.syncs] at hl
    split at hl
    · split at hl
      · obtain rfl := List.mem_singleton.1 hl
        exact (h.placed sound m).rolled
      · cases hl
    · cases hl
  | read | commit | quarantine | skip | deleteAll | requestSync | closeFiles => cases hl

end Watched

end DurableQueue
