import DurableQueue.Proofs.Log.Reading

/-!
# Deleting

Skipping removes the segments from one cursor's to the other's, whichever of them are there, and
starts both cursors at the segment after the last (`skip_spec`); deleting removes the record as
well (`deleteAll_spec`). What is left has nothing unread.
-/

namespace DurableQueue

open FileSystem

/-- A shelf without some of its segments. -/
def without (s : Shelf) (numbers : List Nat) : Shelf :=
  numbers.foldl (fun s k => Function.update s (.segment k) none) s

theorem without_eq {s : Shelf} {numbers : List Nat} {f : QueueFile} :
    without s numbers f = if ∃ k ∈ numbers, f = .segment k then none else s f := by
  induction numbers generalizing s with
  | nil => simp [without]
  | cons k numbers ih =>
    rw [without, List.foldl_cons, ← without, ih]
    by_cases e : f = .segment k
    · subst e
      simp
    · simp [e]

/-- Every file but the segments is left. -/
theorem without_other {s : Shelf} {numbers : List Nat} {f : QueueFile}
    (other : ∀ k, f ≠ .segment k) : without s numbers f = s f := by
  rw [without_eq, if_neg]
  rintro ⟨k, -, e⟩
  exact other k e

namespace Log

variable {log : Log} {c : Config} {dir : Location} {s : Shelf} {d : Disk}

/-- Missing segments are no failure. -/
theorem removeEach_spec (serves : d.Serves c dir s) (sound : c.Sound) {numbers : List Nat}
    (small : ∀ k ∈ numbers, k < Word.limit) :
    ∃ d', d.removeEach (numbers.map fun k => c.path (.segment k)) = ([], d') ∧
      Disk.Reaches c dir (fun _ => True) d d' (without s numbers) := by
  induction numbers generalizing d s with
  | nil => exact ⟨d, rfl, serves.refl⟩
  | cons k numbers ih =>
    have num : (QueueFile.segment k).Numbered := small k List.mem_cons_self
    have rest : ∀ j ∈ numbers, j < Word.limit := fun j hj => small j (List.mem_cons_of_mem _ hj)
    rcases Option.eq_none_or_eq_some (s (.segment k)) with missing | ⟨⟨number, inode⟩, found⟩
    · have same : Function.update s (.segment k) none = s := by
        rw [← missing, Function.update_eq_self]
      obtain ⟨d₁, removed, first⟩ := serves.remove_none (P := fun _ => True) sound num missing trivial
      obtain ⟨d₂, others, second⟩ := ih first.toServes rest
      refine ⟨d₂, ?_, ?_⟩
      · simp only [List.map_cons, Disk.removeEach, removed, others, if_true]
      · rw [without, List.foldl_cons, same]
        exact first.trans second
    · obtain ⟨d₁, removed, first⟩ := serves.remove (P := fun _ => True) sound num found trivial
      obtain ⟨d₂, others, second⟩ := ih first.toServes rest
      refine ⟨d₂, ?_, first.trans second⟩
      simp only [List.map_cons, Disk.removeEach, removed, others]

/-- The numbers of the segments from one cursor's to the other's. -/
def span (log : Log) : List Nat :=
  let first := min log.read.file log.write.file
  List.range' first (max log.read.file log.write.file + 1 - first)

theorem mem_span {log : Log} {k : Nat} :
    k ∈ log.span ↔ min log.read.file log.write.file ≤ k ∧ k ≤ max log.read.file log.write.file := by
  simp only [span, List.mem_range'_1]
  omega

/-- The log with both cursors at a fresh segment, and nothing waiting. -/
def fresh (log : Log) : Log :=
  let start : Position := ⟨max log.read.file log.write.file + 1, 0⟩
  { log with read := start, next := start, write := start, depth := 0, reader := none, writer := none }

/-- A log that starts afresh has nothing unread. -/
theorem reads_fresh (serves : d.Serves log.config dir s) :
    { log.fresh with disk := d }.Reads dir s none [] where
  serves := serves
  trail := .nil _
  staged_first := List.nil_prefix
  next_eq := rfl
  reader := nofun
  writer := nofun

theorem skip_spec (serves : log.disk.Serves log.config dir s) (sound : log.config.Sound)
    (read : log.read.file < Word.limit) (write : log.write.file < Word.limit) :
    ∃ d, log.skip = (.ok (), { log.fresh with disk := d }) ∧
      Disk.Reaches log.config dir (fun _ => True) log.disk d (without s log.span) := by
  have small : ∀ k ∈ log.span, k < Word.limit := by
    intro k hk
    rw [mem_span] at hk
    omega
  obtain ⟨d, removed, reached⟩ := removeEach_spec serves sound small
  refine ⟨d, ?_, reached⟩
  have paths : (List.range' (min log.read.file log.write.file)
      (max log.read.file log.write.file + 1 - min log.read.file log.write.file)).map
        log.segmentPath = log.span.map fun k => log.config.path (.segment k) := rfl
  simp only [skip, paths, removed]
  rfl

/-- Deleting leaves no segment between the cursors and no record. -/
theorem deleteAll_spec (serves : log.disk.Serves log.config dir s) (sound : log.config.Sound)
    (read : log.read.file < Word.limit) (write : log.write.file < Word.limit) :
    ∃ d, log.deleteAll = (.ok (), { log.fresh with disk := d }) ∧
      Disk.Reaches log.config dir (fun _ => True) log.disk d
        (Function.update (without s log.span) .record none) := by
  obtain ⟨d₁, skipped, first⟩ := skip_spec serves sound read write
  obtain ⟨d₂, removed, second⟩ := Record.remove_spec (P := fun _ => True) first.toServes sound trivial
  refine ⟨d₂, ?_, first.trans second⟩
  have path : ({ log.fresh with disk := d₁ } : Log).recordPath = log.config.path .record := rfl
  simp only [deleteAll, skipped, path, removed]

end Log

end DurableQueue
