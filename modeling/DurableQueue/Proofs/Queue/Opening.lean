import DurableQueue.Proofs.FileSystem.Opening
import DurableQueue.Proofs.Session.Holding
import DurableQueue.Queue

/-!
# Opening a queue

Opening a queue whose directory is there reads its record, or takes it for a new queue if there is
none, and settles (`openOn_spec`). A record whose cursors are in order is taken as it is
(`ofRecord_of_le`), so a queue of which nothing is left has nothing waiting (`openOn_bare`), and one
that was closed has what it had before (`openOn_closed`).
-/

namespace DurableQueue

open FileSystem

/-- A disk on which nothing fails and whose directory for the queue is empty. -/
structure FileSystem.Disk.Fresh (d : Disk) (c : Config) (dir : Location) : Prop
    extends d.tree.Vacant c.dataPath dir where
  faultless : ∀ n call, d.faults n call = none

theorem FileSystem.Disk.Fresh.serves {d : Disk} {c : Config} {dir : Location} (h : d.Fresh c dir) :
    d.Serves c dir fun _ => none where
  faultless := h.faultless
  hosts := h.hosts
  shelf_eq := h.shelf_eq

/-- Settings with segments that one short message does not fill and two do. -/
def Config.narrow : Config where
  name := "q"
  dataPath := "/data"
  maxBytesPerFile := 6
  minMsgSize := 1
  maxMsgSize := 64

theorem Config.narrow_sound : narrow.Sound where
  toValid := Config.flaw?_eq_none_iff.1 (by decide)
  short := by decide
  noNul := by decide

section Lettered

variable {n : Nat} {f : QueueFile}

/-- The narrow settings of a queue whose name has as many letters as one likes. -/
def Config.lettered (n : Nat) : Config := { narrow with name := String.ofList (List.replicate n 'q') }

theorem Config.name_lettered : (lettered n).name.toList = List.replicate n 'q' := String.toList_ofList

theorem Config.encode_lettered :
    (Text.encode (lettered n).name).length = n ∧ 0 ∉ Text.encode (lettered n).name := by
  have ordinary : ∀ x ∈ (lettered n).name.toList, QueueFile.Ordinary x := by
    intro x there
    rw [name_lettered, List.mem_replicate] at there
    rw [there.2]
    decide
  obtain ⟨size, noNul⟩ := QueueFile.encode_of_ordinary ordinary
  exact ⟨size.trans (by rw [name_lettered, List.length_replicate]), noNul⟩

theorem Config.lettered_valid (some_ : n ≠ 0) : (lettered n).Valid where
  name_ne empty := by
    have letters : (lettered n).name.toList = List.replicate n 'q' := name_lettered
    rw [empty, eq_comm, String.toList_empty, List.replicate_eq_nil_iff] at letters
    exact some_ letters
  no_separator there := by
    rw [name_lettered, List.mem_replicate] at there
    exact absurd there.2 (by decide)
  maxBytesPerFile_pos := narrow_sound.maxBytesPerFile_pos
  maxMsgSize_le := narrow_sound.maxMsgSize_le
  min_le_max := narrow_sound.min_le_max
  syncEvery_pos := narrow_sound.syncEvery_pos
  syncTimeout_pos := narrow_sound.syncTimeout_pos

theorem Config.lettered_named (some_ : n ≠ 0) : (lettered n).Named :=
  ⟨(lettered_valid some_).no_separator, encode_lettered.2⟩

/-- Which files can have a name is told by the number of letters. -/
theorem Config.isLong_lettered :
    (lettered n).isLong f = decide (255 < n + 7 + f.ending.length) := by
  have tail : (f.ending.flatMap String.utf8EncodeChar).length = f.ending.length :=
    (QueueFile.encode_of_ordinary fun c h => QueueFile.ordinary_of_mem_ending h).1
  have middle : (".queue.".toList.flatMap String.utf8EncodeChar).length = 7 := by decide +kernel
  have front : ((lettered n).name.toList.flatMap String.utf8EncodeChar).length = n :=
    encode_lettered.1
  simp only [isLong, Name.isTooLong, Name.bytes, Name.maxSize, Text.encode, QueueFile.toList_name,
    List.flatMap_append, List.length_append, tail, middle, front]

end Lettered

/-- A disk with nothing on it but an empty directory. -/
def FileSystem.Disk.blank : Disk where
  tree := { entries := [([.text "data"], .directory)] }

theorem FileSystem.Disk.blank_fresh : blank.Fresh .narrow [.text "data"] where
  faultless _ _ := rfl
  leads := by
    have names : Path.names Config.narrow.dataPath = [.text "data"] := by decide +kernel
    rw [names]
    rfl
  noNul := by decide +kernel
  directory := by decide +kernel
  empty name := by simp [blank, Tree.lookup]

namespace Log

/-- A record whose read cursor has not passed its write cursor gives its cursors to the log. -/
theorem ofRecord_of_le {c : Config} {d : Disk} {r : Record} (le : r.read ≤ r.write) :
    ∃ depth sync told resets, ofRecord c d r = { resumed c d r with
      depth, needSync := sync, journal := told, tailResets := resets } := by
  have ordered : ¬r.write < r.read := fun less => Position.lt_irrefl (Position.lt_of_le_of_lt le less)
  by_cases wrong : r.length < 0 ∨ r.read = r.write ∧ r.length ≠ 0
  · refine ⟨0, true, [.lengthDisagreed], 1, ?_⟩
    simp only [ofRecord, if_neg ordered, if_pos wrong, tell]
    rfl
  · refine ⟨r.length, false, [], 0, ?_⟩
    simp only [ofRecord, if_neg ordered, if_neg wrong]
    rfl

/-- A record that can be right is taken as it is. -/
theorem ofRecord_eq {c : Config} {d : Disk} {r : Record} (le : r.read ≤ r.write)
    (counted : 0 ≤ r.length) (empty : r.read = r.write → r.length = 0) :
    ofRecord c d r = resumed c d r := by
  have ordered : ¬r.write < r.read := fun less => Position.lt_irrefl (Position.lt_of_le_of_lt le less)
  have right : ¬(r.length < 0 ∨ r.read = r.write ∧ r.length ≠ 0) := by
    rintro (negative | ⟨meet, some⟩)
    · omega
    · exact some (empty meet)
  simp only [ofRecord, if_neg ordered, if_neg right]
  rfl

end Log

namespace Queue

variable {c : Config} {d : Disk} {dir : Location} {P : View → Prop} {shelf : Shelf} {r : Record}

/-- The record that opening finds: the one that is stored, or a new queue's. -/
def Finds (v : View) (r : Record) : Prop :=
  (v.record = none ∧ r = {}) ∨ (v.record = some (Text.encode r.text) ∧ r.InWords)

theorem openOn_spec (serves : d.Serves c dir shelf) (sound : c.Sound) (shown : P (.of shelf))
    (finds : Finds (.of shelf) r) :
    ∃ d', Disk.Reaches c dir P d d' shelf ∧
      openOn d c =
        (.ok { session := Session.start ((Log.ofRecord c d' r).tell .opening) },
          (Session.start ((Log.ofRecord c d' r).tell .opening)).log.disk) := by
  have valid : c.validate = .ok () := Config.validate_eq_ok_iff.2 sound.toValid
  obtain ⟨d₁, made, first⟩ := serves.makeDirectories (P := P) shown
  have path : Naming.recordPath c.dataPath c.name = c.path .record := rfl
  rcases finds with ⟨missing, rfl⟩ | ⟨found, words⟩
  · obtain ⟨d₂, loaded, second⟩ := Record.load_spec_none (P := P) first.toServes sound missing shown
    refine ⟨d₂, first.trans second, ?_⟩
    simp only [openOn, valid, made, path, loaded]
    rfl
  · obtain ⟨d₂, loaded, second⟩ := Record.load_spec (P := P) first.toServes sound words found shown
    refine ⟨d₂, first.trans second, ?_⟩
    simp only [openOn, valid, made, path, loaded]
    rfl

/-- What is checked of every queue that opening may give holds of the one that it gives. -/
theorem check_of_opened {q : Queue} {P : Queue → Bool} (opened : openOn d c = (.ok q, q.disk))
    (check : ((openOn d c).1.toOption.all P) = true) : P q = true := by
  rw [opened] at check
  exact check

/-- What is checked of the queue that opens holds of it. -/
theorem opened_of_check {P : Queue → Bool} (check : ((openOn d c).1.toOption.any P) = true) :
    ∃ q, (openOn d c).1 = .ok q ∧ P q = true := by
  obtain ⟨q, found, right⟩ := (Option.any_eq_true _ _).1 check
  refine ⟨q, ?_, right⟩
  cases result : (openOn d c).1 with
  | error e =>
    rw [result] at found
    cases found
  | ok q' =>
    rw [result] at found
    cases found
    rfl

/-- A queue that waits with the messages after the first `u` of the accepted ones. -/
structure Holds (q : Queue) (c : Config) (dir : Location) (start : Position)
    (accepted : List Bytes) (u : Nat) : Prop where
  running : q.running = true
  config : q.session.log.config = c
  waits : ∃ shelf, q.session.Holds dir shelf start accepted u

/-- A queue that was opened on `d` waits, and could be reopened at every moment of its opening. -/
structure Opened (result : Except Error Queue × Disk) (c : Config) (d : Disk) (dir : Location)
    (start : Position) (accepted : List Bytes) (u : Nat) (q : Queue) : Prop
    extends q.Holds c dir start accepted u where
  result_eq : result = (.ok q, q.disk)
  shown : ∃ shelf', Disk.Reaches c dir (Recoverable c start accepted u) d q.disk shelf'

/-- A log that keeps its messages and is taken up by a queue. -/
theorem opened_of_keeps (log : Log) {start : Position} {accepted : List Bytes} {u : Nat}
    {result : Except Error Queue × Disk} (keeps : log.Keeps dir shelf none start accepted u)
    (sound : log.config.Sound)
    (reached : Disk.Reaches log.config dir (Recoverable log.config start accepted u) d log.disk shelf)
    (result_eq : result = (.ok { session := Session.start (log.tell .opening) },
      (Session.start (log.tell .opening)).log.disk)) :
    ∃ q, Opened result log.config d dir start accepted u q := by
  have told : ((log.tell .opening).tell .loopStarted).Keeps dir shelf none start accepted u :=
    Session.keeps_told keeps ⟨log.needSync, _, rfl⟩
  obtain ⟨config, shelf', holds, reached'⟩ :=
    Session.settle_serving (s := { log := (log.tell .opening).tell .loopStarted }) told sound
  exact ⟨{ session := Session.start (log.tell .opening) },
    { running := rfl
      config := config
      waits := ⟨shelf', holds⟩
      result_eq := result_eq
      shown := ⟨shelf', reached.trans reached'⟩ }⟩

/-- **Where nothing of a queue is left, it opens with nothing waiting.** -/
theorem openOn_bare (serves : d.Serves c dir shelf) (sound : c.Sound) (bare : Bare shelf) :
    ∃ q, Opened (openOn d c) c d dir {} [] 0 q := by
  have nothing : Recoverable c {} [] 0 (.of shelf) := fun bs there => by
    rw [bare.record] at there
    cases there
  obtain ⟨d', reached, opening⟩ := openOn_spec (P := Recoverable c {} [] 0) serves sound nothing
    (Or.inl ⟨bare.record, rfl⟩)
  rw [Log.ofRecord_eq (Position.le_refl _) (Int.le_refl 0) fun _ => rfl] at opening
  refine opened_of_keeps (Log.resumed c d' {}) ?_ sound reached opening
  exact
    { reads :=
        { serves := reached.toServes
          trail := .nil _
          staged_first := List.nil_prefix
          next_eq := rfl
          reader := nofun
          writer := nofun }
      delivered_le := Nat.le_refl _
      read_eq := rfl
      layout := ⟨0, Nat.le_refl _, Nat.le_refl _, rfl, .nil _, fun k _ => bare.segments k⟩
      ends := ⟨fun k _ => bare.segments k, by rw [bare.segments]; rfl⟩
      depth_eq := rfl
      few := by decide
      words := ⟨Nat.zero_lt_succ _, Nat.zero_lt_succ _⟩
      recorded := fun bs there => by
        rw [bare.record] at there
        cases there
      tidy := bare.tidy }

/-- **In an empty directory a queue opens with nothing waiting.** -/
theorem openOn_empty (fresh : d.Fresh c dir) (sound : c.Sound) :
    ∃ q, Opened (openOn d c) c d dir {} [] 0 q :=
  openOn_bare fresh.serves sound ⟨fun _ => rfl, rfl, fun _ => rfl⟩

/-- **A queue that was closed opens with the messages that it had.** -/
theorem openOn_closed {log : Log} {staged : Option Bytes} {start : Position} {accepted : List Bytes}
    {u : Nat} {shelf' : Shelf} (keeps : log.Keeps dir shelf staged start accepted u)
    (sound : log.config.Sound) (done : Session.Flushed log shelf shelf')
    (stored : (View.of shelf').record = some (Text.encode log.record.text))
    (serves : d.Serves log.config dir shelf') :
    ∃ q, Opened (openOn d log.config) log.config d dir start accepted u q := by
  have kept := Session.keeps_reopened keeps done serves
  obtain ⟨d', reached, opening⟩ := openOn_spec (P := Recoverable log.config start accepted u) serves
    sound kept.recoverable (Or.inr ⟨stored, keeps.record_words⟩)
  have taken : Log.ofRecord log.config d' log.record = Log.resumed log.config d' log.record := by
    refine Log.ofRecord_eq keeps.reads.read_le ?_ fun meet => ?_
    · simp only [Log.record, keeps.depth_eq]
      omega
    · have trail := keeps.reads.trail
      rw [show log.read = log.write from meet] at trail
      have none : accepted.drop u = [] := trail.eq_nil
      have zero := congrArg List.length none
      simp only [List.length_drop, List.length_nil] at zero
      simp only [Log.record, keeps.depth_eq, zero]
      rfl
  rw [taken] at opening
  exact opened_of_keeps (Log.resumed log.config d' log.record)
    (Session.keeps_reopened keeps done reached.toServes) sound reached opening

end Queue

end DurableQueue
