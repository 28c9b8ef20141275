import DurableQueue.Proofs.CommandLine.Listed
import DurableQueue.Proofs.FileSystem.Directories

/-!
# The command line is a list

Runs of the program over one directory show what a list of messages would that is kept from one run
to the next. Each run opens the queue that the last one left at rest, carries out one command and
closes the queue again, so a run does to the list what its command does (`Launch.follows`), also
when it fails half-way; `runs_follow_list` takes any number of runs, the first on an empty
directory.

Somebody who starts runs may have them keep a log. The directories that a run makes for it are made
before the queue is opened; all that is asked of them is that none is made among the queue's files.
-/

namespace DurableQueue.CommandLine

open FileSystem (Disk Location)
open Text

/-- What a run of the program is started with. -/
structure Launch where
  home : String := ""
  environment : Environment := []
  words : List String
  input : Bytes := []

namespace Launch

/-- The run. -/
def run (l : Launch) (d : Disk) : Report × Disk :=
  CommandLine.run d l.home l.environment l.words l.input

/-- What the command line asks for. -/
def asks (l : Launch) : Except Refusal Invocation :=
  Invocation.parse l.home l.environment l.words

/-- How many bytes the run appends at most; a clear counts as one. -/
def weight (l : Launch) : Nat :=
  match l.asks with
  | .ok i => i.command.weight l.input
  | .error _ => 0

end Launch

/-- Runs in turn, each on the disk that the one before it left. -/
def runAll (d : Disk) : List Launch → List Report × Disk
  | [] => ([], d)
  | l :: launches =>
    let (report, d) := l.run d
    let (reports, d) := runAll d launches
    (report :: reports, d)

/-- A log can be set up, and makes no entry of a directory. -/
structure LogsBeside (s : Logging.Settings) (dir : Location) (d : Disk) : Prop where
  started : (setUpLog s d).1.1 ≠ none
  beside : ∀ name, (setUpLog s d).2.tree.lookup (name :: dir) = d.tree.lookup (name :: dir)

/-- Each run is asked for something that a list can answer, with settings `c`, and its log can be
set up when it comes to it. -/
def Able (c : Config) (dir : Location) (d : Disk) : List Launch → Prop
  | [] => True
  | l :: launches =>
    (∃ i, l.asks = .ok i ∧ i.config = c ∧ i.command.Listed ∧ LogsBeside i.log dir d) ∧
      Able c dir (l.run d).2 launches

/-- Reports are what is seen of a list of messages. -/
inductive Follows (c : Config) : List Bytes → List Launch → List Report → Prop
  | nil {waiting : List Bytes} : Follows c waiting [] []
  | cons {waiting waiting' : List Bytes} {l : Launch} {i : Invocation} {report : Report}
      {launches : List Launch} {reports : List Report} (asked : l.asks = .ok i)
      (answers : Answers c l.input waiting i.command report.seen waiting')
      (rest : Follows c waiting' launches reports) :
      Follows c waiting (l :: launches) (report :: reports)

variable {c : Config} {dir : Location} {d : Disk} {shelf : Shelf} {s : Logging.Settings}
  {k : Queue.Course} {l : Launch} {i : Invocation} {launches : List Launch} {n : Nat}

theorem LogsBeside.serves (h : LogsBeside s dir d) (serves : d.Serves c dir shelf) :
    ∃ filter logDir d', setUpLog s d = ((some filter, logDir), d') ∧ d'.Serves c dir shelf := by
  obtain ⟨started, beside⟩ := h
  unfold setUpLog at started beside ⊢
  split at started
  · next none =>
    obtain ⟨filter, found⟩ := Option.ne_none_iff_exists'.1 started
    rw [if_pos none, show Logging.Filter.ofSettings s = some filter from found]
    exact ⟨filter, _, d, rfl, serves⟩
  · next dir' =>
    simp only [if_neg dir'] at beside ⊢
    have apart : _ → (d.makeDirectories s.dir).2.Serves c dir shelf := serves.makeDirectories_apart
    revert started beside apart
    cases d.makeDirectories s.dir with
    | mk result d' =>
      intro started beside apart
      cases result with
      | error e => exact absurd rfl started
      | ok u =>
        obtain ⟨filter, found⟩ := Option.ne_none_iff_exists'.1 started
        simp only [show Logging.Filter.ofSettings s = some filter from found]
        exact ⟨filter, _, d', rfl, apart beside⟩

/-- Without a directory for it a log is set up as soon as its filter can be read. -/
theorem logsBeside_of_no_dir (none : s.dir = "") (reads : Logging.Filter.ofSettings s ≠ .none) :
    LogsBeside s dir d := by
  constructor
  · simpa only [setUpLog, if_pos none] using reads
  · intro name
    simp only [setUpLog, if_pos none]

/-- A command that is carried out on a queue at rest is what the whole run comes to. -/
theorem execute_eq {input : Bytes} {q left : Queue} (opened : Queue.openOn d i.config = (.ok q, q.disk))
    (closed : (i.command.act q input).close = (.ok (), left)) :
    i.execute d input = .inl { i.command.act q input with queue := left } := by
  have result : ((i.command.act q input).result >>= fun _ => Except.ok ()) =
      (i.command.act q input).result := by
    cases (i.command.act q input).result <;> rfl
  simp only [Invocation.execute, opened, closed, result]

/-- **A run does to the list what its command does**, and leaves the queue at rest. -/
theorem Launch.follows (serves : d.Serves c dir shelf) (rests : Queue.Rests c dir k shelf)
    (sound : c.Sound) (within : k.Within c n) (asked : l.asks = .ok i) (config : i.config = c)
    (listed : i.command.Listed) (logs : LogsBeside i.log dir d)
    (few : n + l.weight < Word.signedLimit) :
    ∃ k' shelf', Answers c l.input k.waiting i.command (l.run d).1.seen k'.waiting ∧
      (l.run d).2.Serves c dir shelf' ∧ Queue.Rests c dir k' shelf' ∧ k'.Within c (n + l.weight) := by
  have weight : l.weight = i.command.weight l.input := by rw [Launch.weight, asked]
  rw [weight] at few ⊢
  obtain ⟨filter, logDir, d₁, logged, serves₁⟩ := logs.serves serves
  obtain ⟨q, opened, waits⟩ := rests d₁ serves₁
  obtain ⟨k', carried, within'⟩ := carries_act waits sound within listed few
  obtain ⟨left, shelf', closed, serves', rests'⟩ := carried.rests
  have executed : i.execute d₁ l.input = .inl { i.command.act q l.input with queue := left } :=
    execute_eq (config.symm ▸ opened) closed
  have parsed : Invocation.parse l.home l.environment l.words = .ok i := asked
  have ran : (l.run d).1.seen =
        .of (i.command.act q l.input).output (i.command.act q l.input).result ∧
      (l.run d).2 = left.disk := by
    simp only [Launch.run, CommandLine.run, parsed, logged, executed]
    refine ⟨?_, trivial⟩
    cases (i.command.act q l.input).result <;> rfl
  rw [ran.1, ran.2]
  exact ⟨k', shelf', carried.answers, serves', rests', within'⟩

theorem follows_of_able (serves : d.Serves c dir shelf) (rests : Queue.Rests c dir k shelf)
    (sound : c.Sound) (within : k.Within c n) (able : Able c dir d launches)
    (few : n + (launches.map Launch.weight).sum < Word.signedLimit) :
    Follows c k.waiting launches (runAll d launches).1 := by
  induction launches generalizing d shelf k n with
  | nil => exact .nil
  | cons l launches ih =>
    obtain ⟨⟨i, asked, config, listed, logs⟩, able⟩ := able
    rw [List.map_cons, List.sum_cons] at few
    obtain ⟨k', shelf', answers, serves', rests', within'⟩ :=
      l.follows serves rests sound within asked config listed logs (by omega)
    exact .cons asked answers (ih serves' rests' within' able (by omega))

/-- **Runs over one directory show what a list of messages would that is kept between them.** -/
theorem runs_follow_list (fresh : d.Fresh c dir) (sound : c.Sound) (able : Able c dir d launches)
    (few : (launches.map Launch.weight).sum < Word.signedLimit) :
    Follows c [] launches (runAll d launches).1 :=
  follows_of_able fresh.serves (Queue.rests_bare sound ⟨fun _ => rfl, rfl, fun _ => rfl⟩) sound
    (n := 0) ⟨Nat.le_refl _, Nat.le_refl _, Nat.le_refl _⟩ able (by omega)

/-- A run for the queue `q` with short segments, with one of its options written in one word. -/
def Launch.narrow (words : List String) (input : Bytes := []) : Launch where
  words := ["--data-path", "/data", "--name=q", "--max-bytes-per-file", "6", "--min-msg-size", "1",
    "--max-msg-size", "64"] ++ words
  input := input

/-- Pushes that fail at a message that is too short and at a line that is not text, with what they
appended before; and the queue emptied in both ways. -/
theorem runs_follow_list_narrow :
    let launches : List Launch := [.narrow ["push", "a", "bc", "", "d"], .narrow ["len"],
      .narrow ["pop", "--count", "1"],
      .narrow ["push"] [0x78, 0x0D, 0x0A, 0x79, 0x0A, 0xFF, 0x0A, 0x7A],
      .narrow ["pop", "--count", "5"], .narrow ["push", "e"], .narrow ["clear"],
      .narrow ["push", "--", "--f"], .narrow ["len"], .narrow ["purge"], .narrow ["len"]]
    Disk.blank.Fresh .narrow [.text "data"] ∧ Config.narrow.Sound ∧
      Able .narrow [.text "data"] .blank launches ∧
      (launches.map Launch.weight).sum < Word.signedLimit ∧
      Follows .narrow [] launches (runAll .blank launches).1 := by
  intro launches
  have quiet {d : Disk} : LogsBeside { level := some "warn", useStderr := true } [.text "data"] d :=
    logsBeside_of_no_dir rfl (by decide)
  have next {d : Disk} {l : Launch} (command : Command) {more : List Launch}
      (asked : l.asks = .ok ⟨.narrow, { level := some "warn", useStderr := true }, command⟩)
      (listed : command.Listed) (rest : Able .narrow [.text "data"] (l.run d).2 more) :
      Able .narrow [.text "data"] d (l :: more) := ⟨⟨_, asked, rfl, listed, quiet⟩, rest⟩
  have able : Able .narrow [.text "data"] .blank launches :=
    next (.push ["a", "bc", "", "d"]) rfl trivial <|
    next .len rfl trivial <| next (.pop (some 1) 1000) rfl trivial <|
    next (.push []) rfl trivial <| next (.pop (some 5) 1000) rfl trivial <|
    next (.push ["e"]) rfl trivial <| next .clear rfl trivial <|
    next (.push ["--f"]) rfl trivial <| next .len rfl trivial <|
    next .purge rfl trivial <| next .len rfl trivial trivial
  have few : (launches.map Launch.weight).sum < Word.signedLimit := by decide +kernel
  exact ⟨Disk.blank_fresh, Config.narrow_sound, able, few,
    runs_follow_list Disk.blank_fresh Config.narrow_sound able few⟩

end DurableQueue.CommandLine
