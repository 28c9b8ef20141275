import DurableQueue.Proofs.FileSystem.Raising
import DurableQueue.Proofs.Queue.Sharing
import DurableQueue.Proofs.Record.Grammar

/-!
# Opening is harmless

Opening a queue ends in one of four ways (`Queue.Opens`, `openOn_opens`): the settings are refused, the
directory is not created, the record cannot be read, or a session starts. Only a session removes
anything, so a queue that does not open leaves the disk as it was, but for directories on the way of its
data path. What reading the record's file has to answer is told by the rule for the text of a record
(`Record.ReadAs`), and how a log takes the record up by the record alone, whatever the disk holds
(`Log.TakesUp`). `open_harmless` puts these together.
-/

namespace DurableQueue

open FileSystem

variable {c : Config} {d d' : Disk} {dir : Location} {r : Record}

namespace Record

/-- What reading its file makes of a record: a file that is not there is a new queue's, and one that is
there holds the text of a record. -/
inductive ReadAs : Except FileError Bytes → Record → Prop
  | missing : ReadAs (.error .notFound) {}
  | stored {s : String} {r : Record} (holds : Holds s r) : ReadAs (.ok (Text.encode s)) r

theorem load_iff {path : String} :
    (∃ found, (load d path).1 = .ok found ∧ found.getD {} = r) ↔ ReadAs (d.readFile path).1 r := by
  cases read : (d.readFile path).1 with
  | error e =>
    by_cases missing : e = .notFound
    · subst missing
      rw [load_of_missing read]
      constructor
      · rintro ⟨found, ok, rfl⟩
        cases ok
        exact .missing
      · intro taken
        cases taken
        exact ⟨none, rfl, rfl⟩
    · rw [load_of_error read missing]
      constructor
      · rintro ⟨found, ok, -⟩
        cases ok
      · intro taken
        cases taken
        exact absurd rfl missing
  | ok bs =>
    constructor
    · rintro ⟨found, ok, rfl⟩
      obtain ⟨s, r, decoded, parsed, rfl⟩ := (load_ok_iff read).1 ok
      rw [Text.eq_encode_of_decode decoded]
      exact .stored (parse_eq_ok_iff.1 parsed)
    · intro taken
      obtain ⟨s, bytes, holds⟩ : ∃ s, bs = Text.encode s ∧ Holds s r := by
        cases taken with
        | stored holds => exact ⟨_, rfl, holds⟩
      have decoded : Text.decode bs = some s := by rw [bytes, Text.decode_encode]
      exact ⟨some r, (load_ok_iff read).2 ⟨s, r, decoded, parse_eq_ok_iff.2 holds, rfl⟩, rfl⟩

theorem readAs_ok_iff {s : String} : ReadAs (.ok (Text.encode s)) r ↔ Holds s r := by
  constructor
  · intro taken
    obtain ⟨s', same, holds⟩ : ∃ s', Text.encode s' = Text.encode s ∧ Holds s' r := by
      revert taken
      generalize bytes : (Except.ok (Text.encode s) : Except FileError Bytes) = read
      intro taken
      cases taken with
      | missing => cases bytes
      | stored holds => exact ⟨_, (Except.ok.inj bytes).symm, holds⟩
    have decoded := congrArg Text.decode same
    rw [Text.decode_encode, Text.decode_encode] at decoded
    exact Option.some.inj decoded ▸ holds
  · exact .stored

theorem ReadAs.inWords {read : Except FileError Bytes} (taken : ReadAs read r) : r.InWords := by
  cases taken with
  | missing => exact Kept.inWords (Or.inl ⟨rfl, rfl⟩)
  | stored holds => exact inWords_of_parse (parse_eq_ok_iff.2 holds)

/-- A read cursor past the write cursor. -/
def Crossed (r : Record) : Prop := r.write < r.read

instance (r : Record) : Decidable r.Crossed := inferInstanceAs (Decidable (r.write < r.read))

/-- A number of messages that cannot be: fewer than none, or some of them between cursors that meet. -/
def Miscounts (r : Record) : Prop := r.length < 0 ∨ r.read = r.write ∧ r.length ≠ 0

instance (r : Record) : Decidable r.Miscounts :=
  inferInstanceAs (Decidable (r.length < 0 ∨ r.read = r.write ∧ r.length ≠ 0))

end Record

/-! ### A record that is missing -/

/-- Nothing stands where a path leads, so reading it finds nothing. -/
theorem FileSystem.Disk.readFile_vacant {path : String} {place : Location}
    (leads : d.tree.locate false (Path.parts path) = .ok place) (vacant : d.tree.lookup place = none)
    (calm : d.faults d.calls (.openRead path) = none) : (d.readFile path).1 = .error .notFound := by
  have unlinked : d.tree.Unlinked place := Tree.unlinked_of_lookup vacant (by simp)
  have leads' := Tree.locate_raised (.refl _) unlinked unlinked leads
  have lost : d.tree.openRead (Path.parts path) = .error .notFound := by
    simp only [Tree.openRead, Tree.find?, leads', bind, Except.bind, vacant]
  have failed : (d.openRead path).1 = .error .notFound := by
    simp only [Disk.openRead, Disk.observe, Disk.perform, calm, lost, Except.map]
  unfold Disk.readFile
  revert failed
  cases d.openRead path with
  | mk result d₁ =>
    rintro rfl
    rfl

/-- The record's path leads to its entry in the data directory, if the file system allows its name. -/
theorem Config.locate_record {t : Tree} (noSlash : '/' ∉ c.name.toList)
    (leads : t.walk true Tree.maxLinks [] (Path.names c.dataPath) = .ok dir)
    (directory : t.lookup dir = some .directory) (short : c.isLong .record = false)
    (noNul : ∀ n ∈ Path.parts (c.path .record), 0 ∉ n.bytes) :
    t.locate false (Path.parts (c.path .record)) = .ok (Tree.place c dir .record) := by
  obtain ⟨dot, dots⟩ := c.name_ne_dots .record
  have parts := c.parts_path noSlash .record
  rw [Tree.locate_of_walk]
  · rw [parts, Tree.walk_snoc (by simpa using dot) (by simpa using dots), leads]
    have enters : (Name.text (QueueFile.record.name c.name)).isTooLong = false := short
    simp only [Except.bind, Tree.enter, directory, enters, Bool.false_eq_true, if_false]
    rfl
  · rw [parts]
    simp
  · simpa using noNul

namespace Log

/-- The log starts as a record says, and what of that cannot be is put right and counted once. -/
structure TakesUp (log : Log) (r : Record) : Prop where
  crossed : r.Crossed → log.read = ⟨max r.read.file r.write.file + 1, 0⟩ ∧
    log.write = ⟨max r.read.file r.write.file + 1, 0⟩ ∧ log.depth = 0
  ordered : ¬r.Crossed → log.read = r.read ∧ log.write = r.write
  miscounted : ¬r.Crossed → r.Miscounts → log.depth = 0
  counted : ¬r.Crossed → ¬r.Miscounts → log.depth = r.length
  next_eq : log.next = log.read
  healed : r.Crossed ∨ r.Miscounts → log.tailResets = 1 ∧ log.needSync = true
  sane : ¬(r.Crossed ∨ r.Miscounts) → log.tailResets = 0 ∧ log.needSync = false

theorem takesUp_ofRecord (c : Config) (d : Disk) (r : Record) : (ofRecord c d r).TakesUp r := by
  unfold ofRecord
  by_cases crossed : r.Crossed
  · obtain ⟨told, healed⟩ := heal_outcome
      ((Log.mk c d r.read r.read r.write r.length 0 false none none []).tell .cursorsCrossed)
    simp only [if_pos (show r.write < r.read from crossed), healed]
    constructor
    · exact fun _ => ⟨rfl, rfl, rfl⟩
    · exact fun ordered => absurd crossed ordered
    · exact fun ordered => absurd crossed ordered
    · exact fun ordered => absurd crossed ordered
    · rfl
    · exact fun _ => ⟨rfl, rfl⟩
    · exact fun sane => absurd (Or.inl crossed) sane
  simp only [if_neg (show ¬r.write < r.read from crossed)]
  by_cases miscounts : r.Miscounts
  · simp only [if_pos (show r.length < 0 ∨ r.read = r.write ∧ r.length ≠ 0 from miscounts)]
    constructor
    · exact fun past => absurd past crossed
    · exact fun _ => ⟨rfl, rfl⟩
    · exact fun _ _ => rfl
    · exact fun _ counts => absurd miscounts counts
    · rfl
    · exact fun _ => ⟨rfl, rfl⟩
    · exact fun sane => absurd (Or.inr miscounts) sane
  · simp only [if_neg (show ¬(r.length < 0 ∨ r.read = r.write ∧ r.length ≠ 0) from miscounts)]
    constructor
    · exact fun past => absurd past crossed
    · exact fun _ => ⟨rfl, rfl⟩
    · exact fun _ wrong => absurd wrong miscounts
    · exact fun _ _ => rfl
    · rfl
    · exact fun wrong => absurd wrong (not_or.2 ⟨crossed, miscounts⟩)
    · exact fun _ => ⟨rfl, rfl⟩

end Log

namespace Queue

/-- The disk once the directories of a queue were to be created. -/
def prepared (d : Disk) (c : Config) : Disk := (d.makeDirectories c.dataPath).2

/-- What comes of opening a queue. -/
inductive Opens (d : Disk) (c : Config) : Except Error Queue × Disk → Prop
  | refused (e : Error) (flawed : ¬c.Valid) : Opens d c (.error e, d)
  | uncreated (e : FileError) (valid : c.Valid)
      (failed : (d.makeDirectories c.dataPath).1 = .error e) :
    Opens d c (.error (.createDirectory c.dataPath e), prepared d c)
  | unread (e : Error) (d' : Disk) (valid : c.Valid)
      (created : (d.makeDirectories c.dataPath).1 = .ok ()) (looks : (prepared d c).Looks d')
      (none_ : ∀ r, ¬Record.ReadAs ((prepared d c).readFile (c.path .record)).1 r) :
    Opens d c (.error e, d')
  | started (r : Record) (d' : Disk) (valid : c.Valid)
      (created : (d.makeDirectories c.dataPath).1 = .ok ()) (looks : (prepared d c).Looks d')
      (taken : Record.ReadAs ((prepared d c).readFile (c.path .record)).1 r) :
    Opens d c (.ok { session := Session.start ((Log.ofRecord c d' r).tell .opening) },
      (Session.start ((Log.ofRecord c d' r).tell .opening)).log.disk)

theorem openOn_opens (d : Disk) (c : Config) : Opens d c (openOn d c) := by
  unfold openOn
  cases checked : c.validate with
  | error e =>
    refine .refused e fun valid => ?_
    rw [Config.validate_eq_ok_iff.2 valid] at checked
    cases checked
  | ok u =>
    have valid : c.Valid := Config.validate_eq_ok_iff.1 checked
    simp only
    cases made : d.makeDirectories c.dataPath with
    | mk result d₁ =>
      have disk : prepared d c = d₁ := by rw [prepared, made]
      cases result with
      | error e =>
        simp only
        rw [← disk]
        exact .uncreated e valid (by rw [made])
      | ok u =>
        have created : (d.makeDirectories c.dataPath).1 = .ok () := by rw [made]
        have path : Naming.recordPath c.dataPath c.name = c.path .record := rfl
        have looks := Record.load_looks d₁ (c.path .record)
        simp only [path]
        cases loaded : Record.load d₁ (c.path .record) with
        | mk result d₂ =>
          rw [loaded, ← disk] at looks
          cases result with
          | error e =>
            refine .unread e d₂ valid created looks fun r taken => ?_
            obtain ⟨found, ok, -⟩ := Record.load_iff.2 taken
            rw [disk, loaded] at ok
            cases ok
          | ok record =>
            refine .started (record.getD {}) d₂ valid created looks (Record.load_iff.1 ?_)
            rw [disk, loaded]
            exact ⟨record, rfl, rfl⟩

theorem Opens.ok_iff {out : Except Error Queue × Disk} (opens : Opens d c out) :
    (∃ q, out.1 = .ok q) ↔ c.Valid ∧ (d.makeDirectories c.dataPath).1 = .ok () ∧
      ∃ r, Record.ReadAs ((prepared d c).readFile (c.path .record)).1 r := by
  cases opens with
  | refused e flawed =>
    refine ⟨fun ⟨q, ok⟩ => ?_, fun ⟨valid, _⟩ => absurd valid flawed⟩
    cases ok
  | uncreated e valid failed =>
    refine ⟨fun ⟨q, ok⟩ => ?_, fun ⟨_, created, _⟩ => ?_⟩
    · cases ok
    · rw [failed] at created
      cases created
  | unread e d' valid created looks none_ =>
    refine ⟨fun ⟨q, ok⟩ => ?_, fun ⟨_, _, r, taken⟩ => absurd taken (none_ r)⟩
    cases ok
  | started r d' valid created looks taken =>
    exact ⟨fun _ => ⟨valid, created, r, taken⟩, fun _ => ⟨_, rfl⟩⟩

/-- A queue that opens starts the session of a log that takes up the record that was read. -/
theorem Opens.of_ok {out : Except Error Queue × Disk} (opens : Opens d c out) {q : Queue}
    (ok : out.1 = .ok q) : ∃ r d₂, (prepared d c).Looks d₂ ∧
      Record.ReadAs ((prepared d c).readFile (c.path .record)).1 r ∧
        q = { session := Session.start ((Log.ofRecord c d₂ r).tell .opening) } := by
  cases opens with
  | refused e flawed => cases ok
  | uncreated e valid failed => cases ok
  | unread e d' valid created looks none_ => cases ok
  | started r d₂ valid created looks taken =>
    exact ⟨r, d₂, looks, taken, (Except.ok.inj ok).symm⟩

/-- A queue that does not open has only created directories on the way of its data path. -/
theorem Opens.of_error {out : Except Error Queue × Disk} (opens : Opens d c out) {e : Error}
    (failed : out.1 = .error e) : d.tree.Raised out.2.tree (Path.names c.dataPath) ∧
      d.Makes (fun a => a.call.Prepares c.dataPath ∨ a.call.Looks) out.2 := by
  have raised : d.tree.Raised (prepared d c).tree (Path.names c.dataPath) :=
    d.raised_makeDirectories c.dataPath
  have made : d.Makes (fun a => a.call.Prepares c.dataPath ∨ a.call.Looks) (prepared d c) :=
    (d.makes_makeDirectories c.dataPath).mono fun _ prepares => Or.inl prepares
  cases opens with
  | refused e flawed => exact ⟨.refl _ _, .refl d⟩
  | uncreated e valid failed => exact ⟨raised, made⟩
  | unread e d' valid created looks none_ =>
    rw [looks.tree_eq]
    exact ⟨raised, made.trans (looks.makes.mono fun _ looked => Or.inr looked)⟩
  | started r d₂ valid created looks taken => cases failed

/-- **A queue opens or nothing is lost.** Whatever the disk holds and whatever fails on it, a queue opens
exactly if its settings are valid, its data directory can be created, and reading its record finds no
file or the text of a record; no file is found, in particular, where nothing stands under a name that
the file system allows. If it does not open, what was on the disk is as it was, and what is there besides
are directories on the way of the data path. If it opens, the session starts with a log that takes up
the record that was read. -/
theorem open_harmless (d : Disk) (c : Config) :
    ((∃ q, (openOn d c).1 = .ok q) ↔ c.Valid ∧ (d.makeDirectories c.dataPath).1 = .ok () ∧
      ∃ r, Record.ReadAs ((prepared d c).readFile (c.path .record)).1 r) ∧
    (∀ dir, c.Valid →
      (prepared d c).tree.walk true Tree.maxLinks [] (Path.names c.dataPath) = .ok dir →
      (prepared d c).tree.lookup dir = some .directory →
      (prepared d c).tree.lookup (Tree.place c dir .record) = none →
      c.isLong .record = false → (∀ n ∈ Path.parts (c.path .record), 0 ∉ n.bytes) →
      (prepared d c).faults (prepared d c).calls (.openRead (c.path .record)) = none →
      Record.ReadAs ((prepared d c).readFile (c.path .record)).1 {}) ∧
    (∀ e, (openOn d c).1 = .error e →
      d.tree.Raised (openOn d c).2.tree (Path.names c.dataPath) ∧
        d.Makes (fun a => a.call.Prepares c.dataPath ∨ a.call.Looks) (openOn d c).2) ∧
    ∀ q, (openOn d c).1 = .ok q → ∃ r d₂, (prepared d c).Looks d₂ ∧
      Record.ReadAs ((prepared d c).readFile (c.path .record)).1 r ∧
        q = { session := Session.start ((Log.ofRecord c d₂ r).tell .opening) } ∧
        (Log.ofRecord c d₂ r).TakesUp r := by
  have opens := openOn_opens d c
  refine ⟨opens.ok_iff, ?_, fun e failed => opens.of_error failed, ?_⟩
  · intro dir valid leads directory vacant short noNul calm
    have place := Config.locate_record valid.no_separator leads directory short noNul
    rw [Disk.readFile_vacant place vacant calm]
    exact .missing
  · intro q opened
    obtain ⟨r, d₂, looks, taken, started⟩ := opens.of_ok opened
    exact ⟨r, d₂, looks, taken, started, Log.takesUp_ofRecord c d₂ r⟩

/-- A queue that gets its directory when it opens, one whose settings are refused, and one whose record
says that there are messages where the cursors meet. -/
theorem open_harmless_narrow :
    let c := Config.narrow
    let wrong : Disk := { tree := {
      entries := [([.text "data"], .directory),
        ([.text "q.queue.meta.dat", .text "data"], .file 0)]
      inodes := #[⟨Text.encode "5\n2,40\n2,40\n", 0⟩] } }
    (∃ q, (openOn {} c).1 = .ok q) ∧
      wrong.tree.Raised (openOn wrong { c with syncEvery := 0 }).2.tree (Path.names c.dataPath) ∧
      ∃ q d₂, (openOn wrong c).1 = .ok q ∧
        q = { session := Session.start ((Log.ofRecord c d₂ ⟨5, ⟨2, 40⟩, ⟨2, 40⟩⟩).tell .opening) } ∧
        (Log.ofRecord c d₂ ⟨5, ⟨2, 40⟩, ⟨2, 40⟩⟩).depth = 0 := by
  intro c wrong
  have valid : c.Valid := Config.narrow_sound.toValid
  obtain ⟨opens, absent, -⟩ := open_harmless {} c
  obtain ⟨-, -, refused, -⟩ := open_harmless wrong { c with syncEvery := 0 }
  obtain ⟨opens', -, -, starts⟩ := open_harmless wrong c
  have kept : ((prepared wrong c).readFile (c.path .record)).1 =
      .ok (Text.encode "5\n2,40\n2,40\n") := by decide +kernel
  have holds : Record.Holds "5\n2,40\n2,40\n" ⟨5, ⟨2, 40⟩, ⟨2, 40⟩⟩ :=
    Record.parse_eq_ok_iff.1 (by decide +kernel)
  refine ⟨?_, ?_, ?_⟩
  · refine opens.2 ⟨valid, by decide +kernel, {}, absent [.text "data"] valid ?_ ?_ ?_ ?_ ?_ ?_⟩
    · decide +kernel
    · decide +kernel
    · decide +kernel
    · decide +kernel
    · decide +kernel
    · decide +kernel
  · have flawed : { c with syncEvery := 0 }.validate =
        .error (.invalidConfig Config.Flaw.zeroSyncEvery.reason) := by decide +kernel
    have closed : (openOn wrong { c with syncEvery := 0 }).1 =
        .error (.invalidConfig Config.Flaw.zeroSyncEvery.reason) := by
      simp only [openOn, flawed]
    exact (refused _ closed).1
  · obtain ⟨q, opened⟩ := opens'.2
      ⟨valid, by decide +kernel, _, by rw [kept]; exact .stored holds⟩
    obtain ⟨r, d₂, -, taken, started, takesUp⟩ := starts q opened
    rw [kept, Record.readAs_ok_iff, ← Record.parse_eq_ok_iff, Record.parse_eq_ok_iff.2 holds] at taken
    cases taken
    exact ⟨q, d₂, opened, started, takesUp.miscounted (by decide) (by decide)⟩

/-- Where no file can have the name of its record, a queue does not open. -/
theorem not_opens_of_long (homes : d.tree.Homes c dir) (named : c.Named) (faultless : d.Faultless)
    (long : c.isLong .record = true) : (d.makeDirectories c.dataPath).1 = .ok () ∧
      (prepared d c).tree = d.tree ∧ ¬∃ q, (openOn d c).1 = .ok q := by
  obtain ⟨created, tree, faultless'⟩ : (d.makeDirectories c.dataPath).1 = .ok () ∧
      (prepared d c).tree = d.tree ∧ (prepared d c).Faultless := by
    rcases Disk.makeDirectories_there homes faultless with made | ⟨path, made⟩
    · rw [prepared, made]
      exact ⟨rfl, rfl, faultless⟩
    · rw [prepared, made]
      exact ⟨rfl, rfl, faultless⟩
  refine ⟨created, tree, fun opened => ?_⟩
  obtain ⟨-, -, r, taken⟩ := (openOn_opens d c).ok_iff.1 opened
  rw [Disk.readFile_long (by rw [tree]; exact homes) named faultless' long] at taken
  cases taken

/-- A name of 250 letters is valid, and nothing stands where that queue's record would be, but the queue
does not open: no file can have the name of its record. -/
theorem long_name_refused :
    let c := { Config.narrow with name := String.ofList (List.replicate 250 'q') }
    c.Valid ∧ (Disk.blank.makeDirectories c.dataPath).1 = .ok () ∧
      (prepared Disk.blank c).tree.lookup (Tree.place c [.text "data"] .record) = none ∧
      ¬∃ q, (openOn Disk.blank c).1 = .ok q := by
  intro c
  have named : c.Named := Config.lettered_named (by decide)
  have valid : c.Valid := Config.lettered_valid (by decide)
  have long : c.isLong .record = true :=
    Config.isLong_lettered.trans (decide_eq_true (by decide +kernel))
  have hosts : Disk.blank.tree.Hosts c.dataPath [.text "data"] := Disk.blank_fresh.hosts
  have homes : Disk.blank.tree.Homes c [.text "data"] := hosts.homes
  obtain ⟨created, tree, closed⟩ := not_opens_of_long homes named Disk.blank_fresh.faultless long
  have vacant := Disk.blank_fresh.empty (.text (QueueFile.record.name c.name))
  exact ⟨valid, created, tree ▸ vacant, closed⟩

end Queue

end DurableQueue
