import DurableQueue.Proofs.FileSystem.Thinning
import DurableQueue.Proofs.Log.Following
import DurableQueue.Proofs.Naming.Apart
import DurableQueue.Proofs.Queue.Opening

/-!
# Every removal is tried

Skipping removes the segments from one cursor's to the other's, and deleting the record after them.
Whatever the disk holds and whichever removals fail, each of them is tried, the cursors start afresh
and nothing is waiting, and what failed is told afterwards (`deletes_all_it_can`).

Deleting once more then finds nothing to do, with one exception: the number of the fresh segment may
have a digit more than the last one's, and its name be too long for any file (`deletes_twice_fails`).
-/

namespace DurableQueue

open FileSystem

namespace Log

variable {log : Log} {n k : Nat} {e : FileError}

/-! ### The removals of a skip -/

/-- The disk when segment `k` is to be removed: the removals of those before it were tried. -/
def reaching (log : Log) (k : Nat) : Disk :=
  let first := min log.read.file log.write.file
  (log.disk.removeEach ((List.range' first (k - first)).map log.segmentPath)).2

/-- The error that the removal of segment `k` meets. -/
def met (log : Log) (k : Nat) : Option FileError :=
  Disk.errorOf ((log.reaching k).remove (log.segmentPath k)).1

/-- The error that the removal of the record meets, after those of the segments. -/
def metRecord (log : Log) : Option FileError :=
  Disk.errorOf (log.swept.remove log.recordPath).1

/-- A removal succeeded, or found no file. -/
def Passed (met : Option FileError) : Prop := met = none ∨ met = some .notFound

instance (met : Option FileError) : Decidable (Passed met) := inferInstanceAs (Decidable (_ ∨ _))

/-- The removals of the segments between the cursors, and what they met. -/
def tries (log : Log) : List (String × Option FileError) :=
  log.span.map fun k => (log.segmentPath k, log.met k)

/-- What counts as a failure of the removal of segment `k`. -/
def failed? (log : Log) (k : Nat) : Option FileError :=
  (log.reaching k).failure? (log.segmentPath k)

theorem failed?_eq_none_iff : log.failed? k = none ↔ Passed (log.met k) := by
  rw [failed?, Disk.failure?, Passed, met]
  cases Disk.errorOf ((log.reaching k).remove (log.segmentPath k)).1 with
  | none => simp
  | some e => simp [Option.filter]

theorem failed?_of_met (met : log.met k = some e) (other : e ≠ .notFound) :
    log.failed? k = some e := by
  rw [failed?, Disk.failure?, show Disk.errorOf ((log.reaching k).remove (log.segmentPath k)).1 = _
    from met]
  simp [Option.filter, other]

/-- **By the number of segments tried**: each removal is one more try, on the disk that those before it
left. -/
theorem tries_along {first : Nat} (lowest : min log.read.file log.write.file = first) (n : Nat) :
    log.disk.Tries (log.disk.removeEach ((List.range' first n).map log.segmentPath)).2
        ((List.range' first n).map fun k => (log.segmentPath k, log.met k)) ∧
      (log.disk.removeEach ((List.range' first n).map log.segmentPath)).1 =
        (List.range' first n).filterMap fun k => (log.failed? k).map (log.segmentPath k, ·) := by
  induction n with
  | zero => exact ⟨.refl _, rfl⟩
  | succ n ih =>
    obtain ⟨tried, failed⟩ := ih
    have here : (log.disk.removeEach ((List.range' first n).map log.segmentPath)).2 =
        log.reaching (first + n) := by
      simp only [reaching, lowest, Nat.add_sub_cancel_left]
    rw [here] at tried
    rw [List.range'_1_concat, List.map_append, List.map_singleton, Disk.removeEach_snoc, here,
      List.map_append, List.map_singleton, List.filterMap_append]
    refine ⟨tried.remove (log.segmentPath (first + n)), congr (congrArg _ failed) ?_⟩
    rw [← failed?]
    cases failure : log.failed? (first + n) with
    | none => simp [failure]
    | some e => simp [failure]

theorem tries_swept (log : Log) : log.disk.Tries log.swept log.tries := (tries_along rfl _).1

theorem skip_result (log : Log) : log.skip.1 =
    match (log.span.filterMap fun k => (log.failed? k).map (log.segmentPath k, ·)).getLast? with
    | none => .ok ()
    | some (path, e) => .error (.removeFile path e) := by
  rw [span, ← (tries_along rfl _).2]
  rfl

theorem skip_ok_iff : log.skip.1 = .ok () ↔ ∀ k ∈ log.span, Passed (log.met k) := by
  have none_iff : (log.span.filterMap fun k => (log.failed? k).map (log.segmentPath k, ·)) = [] ↔
      ∀ k ∈ log.span, Passed (log.met k) := by
    simp only [List.filterMap_eq_nil_iff, Option.map_eq_none_iff, failed?_eq_none_iff]
  rw [← none_iff, skip_result, ← List.getLast?_eq_none_iff]
  split
  · next none_ => exact iff_of_true rfl none_
  · next some_ => exact iff_of_false nofun (by rw [some_]; nofun)

/-- Of the removals that fail, the last is told of. -/
theorem skip_error (there : k ∈ log.span) (met : log.met k = some e) (other : e ≠ .notFound)
    (last : ∀ j ∈ log.span, k < j → Passed (log.met j)) :
    log.skip.1 = .error (.removeFile (log.segmentPath k) e) := by
  obtain ⟨before, after, split⟩ := List.append_of_mem there
  have sorted : (before ++ k :: after).Pairwise (· < ·) := split ▸ List.pairwise_lt_range'
  have later : ∀ j ∈ after, k < j :=
    (List.pairwise_cons.1 (List.pairwise_append.1 sorted).2.1).1
  have none_ : (after.filterMap fun j => (log.failed? j).map (log.segmentPath j, ·)) = [] := by
    simp only [List.filterMap_eq_nil_iff, Option.map_eq_none_iff, failed?_eq_none_iff]
    intro j hj
    exact last j (by simp [split, hj]) (later j hj)
  rw [skip_result, split, List.filterMap_append, List.filterMap_cons, failed?_of_met met other, none_]
  simp

/-! ### The record -/

/-- The record is removed on the disk that the skip left. -/
theorem deleteAll_log (log : Log) : ∃ told, log.deleteAll.2 =
    { log.fresh with disk := (log.swept.remove log.recordPath).2, journal := told } := by
  obtain ⟨told, eq⟩ := log.deleteAll_outcome
  refine ⟨told, (congrArg Prod.snd eq).trans ?_⟩
  have disk : (Record.remove log.swept log.recordPath).2 = (log.swept.remove log.recordPath).2 := by
    unfold Record.remove
    split
    · next removed => rw [removed]
    · next removed => rw [removed]
  rw [disk]

theorem deleteAll_result (log : Log) : log.deleteAll.1 =
    match log.metRecord.filter (· ≠ .notFound) with
    | none => log.skip.1
    | some e => .error (.removeFile log.recordPath e) := by
  obtain ⟨told, eq⟩ := log.deleteAll_outcome
  rw [eq, metRecord, Record.remove]
  cases log.swept.remove log.recordPath with
  | mk result d =>
    cases result with
    | ok u => rfl
    | error e => cases e <;> rfl

theorem deleteAll_of_passed (passed : Passed log.metRecord) : log.deleteAll.1 = log.skip.1 := by
  rw [deleteAll_result]
  rcases passed with met | met
  · rw [met]
    rfl
  · rw [met]
    rfl

theorem deleteAll_error (met : log.metRecord = some e) (other : e ≠ .notFound) :
    log.deleteAll.1 = .error (.removeFile log.recordPath e) := by
  rw [deleteAll_result, met]
  simp [Option.filter, other]

theorem deleteAll_ok (ok : log.deleteAll.1 = .ok ()) :
    Passed log.metRecord ∧ ∀ k ∈ log.span, Passed (log.met k) := by
  have passed : Passed log.metRecord := by
    cases met : log.metRecord with
    | none => exact Or.inl rfl
    | some e =>
      by_cases absent : e = .notFound
      · exact Or.inr (absent ▸ rfl)
      · rw [deleteAll_error met absent] at ok
        cases ok
  rw [deleteAll_of_passed passed, skip_ok_iff] at ok
  exact ⟨passed, ok⟩

/-! ### What is left -/

/-- The cursors start afresh after the larger number, with nothing waiting, and of the disk nothing was
touched but what removals could do. -/
structure StartsAfresh (log log' : Log) (tries : List (String × Option FileError)) : Prop where
  tries : log.disk.Tries log'.disk tries
  read_eq : log'.read = ⟨max log.read.file log.write.file + 1, 0⟩
  next_eq : log'.next = log'.read
  write_eq : log'.write = log'.read
  depth_eq : log'.depth = 0

theorem startsAfresh_skip (log : Log) : log.StartsAfresh log.skip.2 log.tries := by
  obtain ⟨told, eq⟩ := log.skip_outcome
  rw [eq]
  exact ⟨log.tries_swept, rfl, rfl, rfl, rfl⟩

theorem startsAfresh_deleteAll (log : Log) :
    log.StartsAfresh log.deleteAll.2 (log.tries ++ [(log.recordPath, log.metRecord)]) := by
  obtain ⟨told, eq⟩ := log.deleteAll_log
  rw [eq]
  exact ⟨log.tries_swept.remove log.recordPath, rfl, rfl, rfl, rfl⟩

theorem StartsAfresh.span_eq {log' : Log} {tries : List (String × Option FileError)}
    (h : log.StartsAfresh log' tries) : log'.span = [log'.write.file] := by
  rw [span, h.write_eq, Nat.min_self, Nat.max_self, Nat.add_sub_cancel_left, List.range'_one]

/-- After a success nothing is left of the segments or the record. -/
theorem deleteAll_leaves (candid : log.disk.Candid) (ok : log.deleteAll.1 = .ok ()) :
    (∀ k ∈ log.span, log.deleteAll.2.disk.tree.Missing (Path.parts (log.segmentPath k))) ∧
      log.deleteAll.2.disk.tree.Missing (Path.parts log.recordPath) := by
  obtain ⟨record, segments⟩ := deleteAll_ok ok
  have tried := log.startsAfresh_deleteAll.tries
  have lost : ∀ path met, Passed met → (path, met) ∈ log.tries ++ [(log.recordPath, log.metRecord)] →
      log.deleteAll.2.disk.tree.Missing (Path.parts path) := by
    rintro path met (rfl | rfl) there
    · exact tried.gone path there
    · exact tried.absent candid path there
  refine ⟨fun k there => lost _ _ (segments k there) ?_, lost _ _ record ?_⟩
  · exact List.mem_append_left _ (List.mem_map_of_mem there)
  · exact List.mem_append_right _ List.mem_cons_self

/-- Where neither a segment between the cursors nor the record is left, deleting does nothing to the
tree. -/
theorem deleteAll_of_missing (unhindered : log.disk.Unhindered)
    (segments : ∀ k ∈ log.span, log.disk.tree.Missing (Path.parts (log.segmentPath k)))
    (record : log.disk.tree.Missing (Path.parts log.recordPath)) :
    log.deleteAll.1 = .ok () ∧ log.deleteAll.2.disk.tree = log.disk.tree := by
  have gone : ∀ path ∈ log.span.map log.segmentPath, log.disk.tree.Missing (Path.parts path) := by
    intro path there
    obtain ⟨k, between, rfl⟩ := List.mem_map.1 there
    exact segments k between
  obtain ⟨failed, tree, later⟩ := Disk.removeEach_missing unhindered gone
  have lost := Disk.remove_missing (d := log.swept) (tree ▸ record) (later _ _ (Nat.le_refl _))
  have skipped : log.skip.1 = .ok () := by
    have none_ : (log.disk.removeEach (log.span.map log.segmentPath)).1.getLast? = none := by
      rw [failed]
      rfl
    rw [span] at none_
    simp only [skip, none_]
  obtain ⟨told, eq⟩ := log.deleteAll_log
  refine ⟨?_, ?_⟩
  · rw [deleteAll_of_passed, skipped]
    rw [metRecord, lost]
    exact Or.inr rfl
  · rw [eq, lost]
    exact tree

/-- If a segment of the queue is found missing, so is every other that is not there, unless no file can
have its name. -/
theorem missing_segment {t : Tree} (noSlash : '/' ∉ log.config.name.toList)
    (missing : t.Missing (Path.parts (log.segmentPath k)))
    (short : log.config.isLong (.segment n) = false)
    (nothing : ¬t.Stands (Path.parts (log.segmentPath n))) :
    t.Missing (Path.parts (log.segmentPath n)) := by
  have parts : ∀ k, Path.parts (log.segmentPath k) =
      Path.names log.config.dataPath ++ [.text ((QueueFile.segment k).name log.config.name)] :=
    fun k => log.config.parts_path noSlash (.segment k)
  rw [parts] at missing nothing ⊢
  have noNul : 0 ∉ Text.encode log.config.name := by
    have whole := missing.noNul (.text ((QueueFile.segment k).name log.config.name)) (by simp)
    rw [Name.bytes, Text.encode, QueueFile.toList_name, List.flatMap_append, List.flatMap_append,
      List.mem_append, List.mem_append, not_or, not_or] at whole
    exact whole.1.1
  have named : log.config.Named := ⟨noSlash, noNul⟩
  have dots := fun k => log.config.name_ne_dots (.segment k)
  exact Tree.missing_sibling (by simpa using (dots k).1) (by simpa using (dots k).2)
    (by simpa using (dots n).1) (by simpa using (dots n).2) missing short
    (named.isEntry (.segment n)).noNul nothing

/-- **Skipping and deleting try everything.** Whatever the disk holds and whichever removals fail, the
removal of each segment from the smaller of the cursors' numbers to the larger is tried, and nothing
else is; then that of the record, if the queue is deleted. The cursors start at the segment after the
larger number, with nothing waiting, in any case. What failed is told, the record's failure before a
segment's and that of a segment before those of lower ones.

If no removal failed, nothing stands at the new segment's path and a file could have its name, deleting
once more succeeds and leaves the tree as it is. -/
theorem deletes_all_it_can (log : Log) :
    (log.StartsAfresh log.skip.2 log.tries ∧
      (log.skip.1 = .ok () ↔ ∀ k ∈ log.span, Passed (log.met k)) ∧
      ∀ k ∈ log.span, ∀ e, log.met k = some e → e ≠ .notFound →
        (∀ j ∈ log.span, k < j → Passed (log.met j)) →
          log.skip.1 = .error (.removeFile (log.segmentPath k) e)) ∧
    (log.StartsAfresh log.deleteAll.2 (log.tries ++ [(log.recordPath, log.metRecord)]) ∧
      (Passed log.metRecord → log.deleteAll.1 = log.skip.1) ∧
      ∀ e, log.metRecord = some e → e ≠ .notFound →
        log.deleteAll.1 = .error (.removeFile log.recordPath e)) ∧
    let left := log.deleteAll.2
    log.config.Valid → log.disk.Candid → log.deleteAll.1 = .ok () → left.disk.Unhindered →
      ¬left.disk.tree.Stands (Path.parts (left.segmentPath left.write.file)) →
        left.config.isLong (.segment left.write.file) = false →
          left.deleteAll.1 = .ok () ∧ left.deleteAll.2.disk.tree = left.disk.tree := by
  refine ⟨⟨log.startsAfresh_skip, skip_ok_iff, fun k there e met other last =>
    skip_error there met other last⟩, ⟨log.startsAfresh_deleteAll, deleteAll_of_passed,
    fun e met other => deleteAll_error met other⟩, ?_⟩
  intro left valid candid ok unhindered nothing short
  obtain ⟨segments, record⟩ := deleteAll_leaves candid ok
  have afresh := log.startsAfresh_deleteAll
  obtain ⟨told, eq⟩ := log.deleteAll_log
  have config : log.deleteAll.2.config = log.config := by
    rw [eq]
    rfl
  have path : ∀ k, log.deleteAll.2.segmentPath k = log.segmentPath k := fun k => by
    rw [segmentPath, segmentPath, config]
  have first : min log.read.file log.write.file ∈ log.span := mem_span.2 (by omega)
  have lost := segments _ first
  rw [← path] at lost
  refine deleteAll_of_missing unhindered (fun k there => ?_) ?_
  · rw [afresh.span_eq] at there
    obtain rfl := List.mem_singleton.1 there
    exact missing_segment (config ▸ valid.no_separator) lost short nothing
  · rw [recordPath, config]
    exact record

/-- A log with three segments, the second of which is what one likes. -/
def three (second : Node) : Log where
  config := .narrow
  disk := { tree := {
    entries := [([.text "data"], .directory), ([.text "q.queue.000000.dat", .text "data"], .file 0),
      ([.text "q.queue.000001.dat", .text "data"], second),
      ([.text "q.queue.000002.dat", .text "data"], .file 1),
      ([.text "q.queue.meta.dat", .text "data"], .file 2)]
    inodes := #[{}, {}, {}, {}] } }
  read := ⟨0, 0⟩
  next := ⟨0, 0⟩
  write := ⟨2, 5⟩
  depth := 3

/-- Where the second segment is a directory, the other two are removed, and its failure is told. Where it
is a file, everything goes, and going over it again is no failure. -/
theorem deletes_all_it_can_narrow :
    (three .directory).skip.1 = .error (.removeFile "/data/q.queue.000001.dat" .isDirectory) ∧
      (three .directory).skip.2.disk.tree.Missing [.text "data", .text "q.queue.000000.dat"] ∧
      (three .directory).skip.2.disk.tree.Missing [.text "data", .text "q.queue.000002.dat"] ∧
      (let left := (three (.file 3)).deleteAll.2
       left.deleteAll.1 = .ok () ∧ left.deleteAll.2.disk.tree = left.disk.tree) := by
  obtain ⟨⟨afresh, -, told⟩, -, -⟩ := deletes_all_it_can (three .directory)
  obtain ⟨⟨-, ok_iff, -⟩, ⟨afresh', passed, -⟩, again⟩ := deletes_all_it_can (three (.file 3))
  refine ⟨told 1 (by decide) .isDirectory (by decide +kernel) nofun (by decide +kernel),
    afresh.tries.gone "/data/q.queue.000000.dat" (by decide +kernel),
    afresh.tries.gone "/data/q.queue.000002.dat" (by decide +kernel), ?_⟩
  have ok : (three (.file 3)).deleteAll.1 = .ok () :=
    (passed (by decide +kernel)).trans (ok_iff.2 (by decide +kernel))
  refine again Config.narrow_sound.toValid (fun _ _ _ planned => by cases planned) ok ?_ ?_ ?_
  · intro n path _
    rw [afresh'.tries.faults_eq]
    rfl
  · exact Tree.Missing.not_stands (by decide +kernel)
  · decide +kernel

theorem span_of_meet {o : Outline} (read : o.read.file = k) (write : o.write.file = k) :
    o.span = [k] := by
  rw [Outline.span, read, write, Nat.min_self, Nat.max_self, Nat.add_sub_cancel_left,
    List.range'_one]

/-- Where the last segment's name is short enough and the fresh one's is not, deleting succeeds once. -/
theorem deletes_once {c : Config} {dir : Location} {s : Shelf} (steady : log.Steady c dir s)
    (named : c.Named) (read : log.read.file = k) (write : log.write.file = k)
    (record : c.isLong .record = false) (last : c.isLong (.segment k) = false)
    (fresh : c.isLong (.segment (k + 1)) = true) :
    let left := log.deleteAll.2
    log.deleteAll.1 = .ok () ∧
      ¬left.disk.tree.Stands (Path.parts (left.segmentPath left.write.file)) ∧
      left.deleteAll.1 = .error (.removeFile (left.segmentPath (k + 1)) .invalidName) := by
  intro left
  obtain ⟨result, shelf, steady', -⟩ := steady.deleteAll named
  obtain ⟨result', -⟩ := steady'.deleteAll named
  have afresh : log.StartsAfresh left _ := log.startsAfresh_deleteAll
  have read' : left.read.file = k + 1 := by rw [afresh.read_eq, read, write, Nat.max_self]
  have write' : left.write.file = k + 1 := by rw [afresh.write_eq, read']
  have once := span_of_meet (o := log.outline s) read write
  have twice := span_of_meet (o := left.outline shelf) read' write'
  refine ⟨?_, ?_, ?_⟩
  · rw [result, Outline.deleteAll, record, once]
    simp [last]
  · rw [write', steady'.segmentPath]
    rintro ⟨place, leads, -⟩
    rw [steady'.calm.locate named, fresh] at leads
    cases leads
  · rw [result', Outline.deleteAll, record, twice, steady'.segmentPath]
    simp [fresh]

/-- **The name of the fresh segment may be too long.** A queue's name leaves room for segments with
numbers of six digits. After its segment 999999 was to be removed, deleting the queue once more fails:
no file can have the name of segment 1000000. -/
theorem deletes_twice_fails :
    ∃ log : Log, log = {
        config := .lettered 238
        disk := .blank
        read := ⟨999999, 0⟩
        next := ⟨999999, 0⟩
        write := ⟨999999, 0⟩
        depth := 0 } ∧
      log.config.Valid ∧ log.deleteAll.1 = .ok () ∧ (∀ n call, log.deleteAll.2.disk.faults n call = none) ∧
      ¬log.deleteAll.2.disk.tree.Stands
        (Path.parts (log.deleteAll.2.segmentPath log.deleteAll.2.write.file)) ∧
      log.deleteAll.2.deleteAll.1 =
        .error (.removeFile (log.deleteAll.2.segmentPath 1000000) .invalidName) := by
  obtain ⟨log, log_eq⟩ : ∃ log : Log, log = {
    config := Config.lettered 238, disk := .blank, read := ⟨999999, 0⟩, next := ⟨999999, 0⟩
    write := ⟨999999, 0⟩, depth := 0 } := ⟨_, rfl⟩
  obtain ⟨config, disk, read, next, write⟩ : log.config = Config.lettered 238 ∧ log.disk = .blank ∧
      log.read = ⟨999999, 0⟩ ∧ log.next = ⟨999999, 0⟩ ∧ log.write = ⟨999999, 0⟩ := by
    rw [log_eq]
    exact ⟨rfl, rfl, rfl, rfl, rfl⟩
  have closed : log.reader = none ∧ log.writer = none := by
    rw [log_eq]
    exact ⟨rfl, rfl⟩
  have hosts : Disk.blank.tree.Hosts (Config.lettered 238).dataPath [.text "data"] :=
    Disk.blank_fresh.hosts
  have serves : Disk.blank.Serves (Config.lettered 238) [.text "data"]
      (Disk.blank.tree.shelf (Config.lettered 238) _) := ⟨Disk.blank_fresh.faultless, hosts, rfl⟩
  have steady : log.Steady (Config.lettered 238) [.text "data"]
      (Disk.blank.tree.shelf (Config.lettered 238) [.text "data"]) := by
    refine ⟨⟨_, _, config⟩, disk ▸ serves.calm, ?_, ?_, ?_⟩
    · rw [read, next]
      exact Position.le_refl _
    · rw [closed.1]
      nofun
    · rw [closed.2]
      nofun
  obtain ⟨ok, nothing, failed⟩ := deletes_once (k := 999999) steady
    (Config.lettered_named (by decide)) (congrArg Position.file read) (congrArg Position.file write)
    (Config.isLong_lettered.trans (by decide +kernel))
    (Config.isLong_lettered.trans (by decide +kernel))
    (Config.isLong_lettered.trans (by decide +kernel))
  refine ⟨log, log_eq, config ▸ Config.lettered_valid (by decide), ok, fun n call => ?_, nothing, failed⟩
  rw [log.startsAfresh_deleteAll.tries.faults_eq, disk]
  rfl

end Log

end DurableQueue
