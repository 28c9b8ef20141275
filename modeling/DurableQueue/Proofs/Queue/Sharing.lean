import DurableQueue.Proofs.Log.Confined
import DurableQueue.Proofs.Naming.Scan
import DurableQueue.Proofs.Queue.Opening
import DurableQueue.Proofs.Session.Taking
import DurableQueue.Segments

/-!
# Queues that share a directory

Two queues of different names may keep their files in one directory. Whatever is asked of one of them,
whatever the disk holds and whatever fails, it calls for no path of the other's: opening creates the
data directory and those above it and otherwise touches files of its own (`openOn_outcome`), and so does
every request (`Held.confined`), since all that a queue does comes down to requests of its log. A listing
of one queue's segments shows no file of the other (`mem_scan`). `queues_apart` puts the three together.
-/

namespace DurableQueue

open FileSystem

variable {c c' : Config} {d d' : Disk} {r : Record}

/-- A record is read by calls on its own path. -/
theorem Record.load_within (d : Disk) (c : Config) :
    d.Makes (fun a => a.call.Within c.Owns) (load d (c.path .record)).2 := by
  have own := c.owns_path .record
  have bytes := Disk.makes_readFile (C := Call.Within c.Owns) (d := d)
    (Call.within_of_path rfl own) fun _ _ => Call.within_of_path rfl own
  unfold load
  revert bytes
  cases d.readFile (c.path .record) with
  | mk result d₁ =>
    intro bytes
    repeat' split
    all_goals simp_all

namespace Queue

/-- What may be asked of a queue. -/
inductive Request where
  | push (message : Bytes)
  | pop
  | clear
  | tick
  | close
  | delete
  | drop
  deriving DecidableEq, Repr

/-- The queue after a request. -/
def serve (q : Queue) : Request → Queue
  | .push m => (q.push m).2
  | .pop => q.pop.2
  | .clear => q.clear.2
  | .tick => q.tick
  | .close => q.close.2
  | .delete => q.delete.2
  | .drop => q.drop

/-- A queue in somebody's hands: it was opened on some disk, and since then requests were made of it
on whatever the disk had become. -/
inductive Held (c : Config) : Queue → Prop where
  | opened {d d' : Disk} {q : Queue} (opening : openOn d c = (.ok q, d')) : Held c q
  | served {q : Queue} (held : Held c q) (d : Disk) (r : Request) : Held c ((q.onDisk d).serve r)

variable {q : Queue}

/-! ### What is asked of a queue -/

theorem leads_exit (q : Queue) (mode : ExitMode) :
    q.session.log.Leads (q.exit mode).2.session.log := by
  unfold exit
  split
  · have told : q.session.log.Leads (q.session.log.tell .stopping) := .tell .refl _
    exact told.trans
      (Session.leads_finish { q.session with log := q.session.log.tell .stopping } mode)
  · exact .refl

/-- **All that is asked of a queue comes down to requests of its log.** -/
theorem leads_serve (q : Queue) (r : Request) : q.session.log.Leads (q.serve r).session.log := by
  cases r with
  | push m =>
    simp only [serve, push]
    split
    · exact q.session.leads_step (.push m)
    · exact .refl
  | pop =>
    simp only [serve, pop]
    split
    · have stepped := q.session.leads_step .deliver
      unfold Session.step at stepped
      cases taken : q.session.deliver with
      | none => exact .refl
      | some out =>
        simp only [taken] at stepped
        exact stepped
    · exact .refl
  | clear =>
    simp only [serve, clear]
    split
    · exact q.session.leads_step .clear
    · exact .refl
  | tick =>
    simp only [serve, tick]
    split
    · exact q.session.leads_step .tick
    · exact .refl
  | close => exact q.leads_exit .close
  | delete => exact q.leads_exit .delete
  | drop =>
    have closed := q.leads_exit .close
    simp only [serve, drop, close]
    split
    · revert closed
      cases q.exit .close with
      | mk result left =>
        intro closed
        cases result with
        | ok u => exact closed.tell .droppedOpen
        | error e => exact closed.tell .dropFailed
    · exact .refl

/-! ### Opening -/

/-- Opening a queue creates its directory, reads its record and starts a session, or it ends early. -/
theorem openOn_outcome (d : Disk) (c : Config) :
    ∃ d₁ d₂, d.Makes (fun a => a.call.Prepares c.dataPath) d₁ ∧
      d₁.Makes (fun a => a.call.Within c.Owns) d₂ ∧
      ((∃ e, openOn d c = (.error e, d₂)) ∨
        c.Valid ∧ ∃ r, openOn d c =
          (.ok { session := Session.takingUp c d₂ r }, (Session.takingUp c d₂ r).log.disk)) := by
  unfold openOn
  cases valid : c.validate with
  | error e => exact ⟨d, d, .refl d, .refl d, Or.inl ⟨e, rfl⟩⟩
  | ok u =>
    have made := Disk.makes_makeDirectories d c.dataPath
    simp only
    revert made
    cases d.makeDirectories c.dataPath with
    | mk result d₁ =>
      intro made
      cases result with
      | error e => exact ⟨d₁, d₁, made, .refl d₁, Or.inl ⟨_, rfl⟩⟩
      | ok u =>
        have loaded := Record.load_within d₁ c
        have path : Naming.recordPath c.dataPath c.name = c.path .record := rfl
        simp only [path]
        revert loaded
        cases Record.load d₁ (c.path .record) with
        | mk result d₂ =>
          intro loaded
          refine ⟨d₁, d₂, made, loaded, ?_⟩
          cases result with
          | error e => exact Or.inl ⟨e, rfl⟩
          | ok record =>
            exact Or.inr ⟨Config.validate_eq_ok_iff.1 valid, record.getD {}, rfl⟩

theorem confined_takingUp (noSlash : '/' ∉ c.name.toList) (d : Disk) (r : Record) :
    (Session.takingUp c d r).log.Confined c d :=
  (((Log.confined_ofRecord c d r).tell .opening).tell .loopStarted).leads noSlash
    (Session.leads_takingUp c d r [])

/-- Whatever happened to a queue, its open files are its own. -/
theorem Held.confined (held : Held c q) : '/' ∉ c.name.toList ∧ ∃ d, q.session.log.Confined c d := by
  induction held with
  | @opened d d' q opening =>
    obtain ⟨-, d₂, -, -, ⟨e, failed⟩ | ⟨valid, r, eq⟩⟩ := openOn_outcome d c
    · rw [failed] at opening
      cases opening
    · rw [eq] at opening
      cases opening
      exact ⟨valid.no_separator, d₂, confined_takingUp valid.no_separator d₂ r⟩
  | @served q held d r ih =>
    obtain ⟨noSlash, d₀, confined⟩ := ih
    have now : (q.onDisk d).session.log.Confined c d :=
      ⟨confined.config, .refl d, confined.reader, confined.writer⟩
    exact ⟨noSlash, d, now.leads noSlash ((q.onDisk d).leads_serve r)⟩

/-! ### Listing -/

/-- What is listed of a queue lies under names that are taken for its segments. -/
theorem mem_scan {found : List (Nat × String)} {dir queue : String} {number : Nat} {path : String}
    (scanned : (Segments.scan d dir queue).1 = .ok found) (there : (number, path) ∈ found) :
    ∃ name, path = Path.join dir name ∧ Naming.segmentNumber? queue name = some number := by
  unfold Segments.scan at scanned
  split at scanned
  · cases listed : d.list dir with
    | mk result d₁ =>
      rw [listed] at scanned
      cases result with
      | error e => cases scanned
      | ok names =>
        cases scanned
        rw [List.mem_mergeSort] at there
        obtain ⟨name, -, taken, joined, -⟩ := Segments.mem_among.1 there
        exact ⟨name, joined, taken⟩
  · cases scanned
    cases there

/-! ### Two queues -/

/-- A call of a queue that shares its directory with another: it creates the data directory or one
above it, or it touches the queue's own files, each a child of the data directory; and it names no path
of the other queue's. -/
structure Apart (c c' : Config) (call : Call) : Prop where
  own : call.Prepares c.dataPath ∨ ∀ path ∈ call.paths, ∃ f : QueueFile,
    path = c.path f ∧ Path.parts path = Path.names c.dataPath ++ [.text (f.name c.name)] ∧
      f.name c.name ≠ "." ∧ f.name c.name ≠ ".."
  other : ∀ path ∈ call.paths, ∀ f : QueueFile, path ≠ c'.path f

section Apart

variable (noSlash : '/' ∉ c.name.toList) (noSlash' : '/' ∉ c'.name.toList)
  (same : c.dataPath = c'.dataPath) {call : Call}
include noSlash noSlash' same

theorem apart_of_within (other : c.name ≠ c'.name) (within : call.Within c.Owns) :
    Apart c c' call where
  own := Or.inr fun path there => by
    obtain ⟨f, rfl⟩ := within path there
    exact ⟨f, rfl, c.parts_path noSlash f, c.name_ne_dots f⟩
  other path there f eq := by
    obtain ⟨g, rfl⟩ := within path there
    exact other ((Config.path_eq_iff noSlash noSlash' same).1 eq).1

omit noSlash in
theorem apart_of_prepares (prepares : call.Prepares c.dataPath) : Apart c c' call where
  own := Or.inl prepares
  other path there f := by
    obtain ⟨dir, rfl, above⟩ := prepares
    obtain rfl : path = dir := by simpa [Call.paths] using there
    exact Config.path_ne_of_prefix noSlash' f (same ▸ above)

end Apart

/-- **Queues that share a directory do not interfere.** Of two queues with different names in one
directory the first makes no call on a segment, a segment set aside, a record or a temporary record of
the second, neither when it is opened nor on any request, on any disk; all files that it touches are
entries of the directory; and listing its segments shows no file of the second. -/
theorem queues_apart (valid : c.validate = .ok ()) (valid' : c'.validate = .ok ())
    (same : c.dataPath = c'.dataPath) (other : c.name ≠ c'.name) :
    (∀ d : Disk, d.Makes (fun a => Apart c c' a.call) (openOn d c).2) ∧
    (∀ q, Held c q → ∀ (d : Disk) (r : Request),
      d.Makes (fun a => Apart c c' a.call) ((q.onDisk d).serve r).disk) ∧
    ∀ (d : Disk) (found : List (Nat × String)), (Segments.scan d c.dataPath c.name).1 = .ok found →
      ∀ number path, (number, path) ∈ found → ∀ f : QueueFile, path ≠ c'.path f := by
  have noSlash := (Config.validate_eq_ok_iff.1 valid).no_separator
  have noSlash' := (Config.validate_eq_ok_iff.1 valid').no_separator
  have apart {d d' : Disk} (makes : d.Makes (fun a => a.call.Within c.Owns) d') :
      d.Makes (fun a => Apart c c' a.call) d' :=
    makes.mono fun _ within => apart_of_within noSlash noSlash' same other within
  refine ⟨fun d => ?_, fun q held d r => ?_, fun d found scanned number path there f eq => ?_⟩
  · obtain ⟨d₁, d₂, made, loaded, outcome⟩ := openOn_outcome d c
    have begun := (made.mono fun _ prepares => apart_of_prepares noSlash' same prepares).trans
      (apart loaded)
    obtain ⟨e, eq⟩ | ⟨-, r, eq⟩ := outcome
    · rw [eq]
      exact begun
    · rw [eq]
      exact begun.trans (apart (confined_takingUp noSlash d₂ r).makes)
  · obtain ⟨-, d₀, confined⟩ := held.confined
    have now : (q.onDisk d).session.log.Confined c d :=
      ⟨confined.config, .refl d, confined.reader, confined.writer⟩
    exact apart (now.leads noSlash ((q.onDisk d).leads_serve r)).makes
  · obtain ⟨name, joined, read⟩ := mem_scan scanned there
    obtain ⟨nonempty, whole⟩ := QueueFile.noSlash_of_segmentNumber? noSlash read
    have parts := congrArg Path.parts (joined.symm.trans eq)
    rw [Path.parts_join_of_noSlash nonempty whole, c'.parts_path noSlash', same] at parts
    obtain rfl : name = f.name c'.name := by simpa using parts
    exact other (QueueFile.queue_eq_of_segmentNumber? read)

/-- A queue that bears the whole name of another's first segment, in the same directory; the other is
opened and pushed to, and its segments are listed. -/
theorem queues_apart_narrow :
    let c := Config.narrow
    let c' : Config := { c with name := c.name ++ ".queue.000000.dat" }
    let d : Disk := { tree := {
      entries := [([.text "data"], .directory),
        ([.text (QueueFile.name c.name (.segment 3)), .text "data"], .file 0),
        ([.text (QueueFile.name c'.name (.segment 0)), .text "data"], .file 1)]
      inodes := #[{}, {}] } }
    c.validate = .ok () ∧ c'.validate = .ok () ∧ c.dataPath = c'.dataPath ∧ c.name ≠ c'.name ∧
      d.Makes (fun a => Apart c c' a.call) (openOn d c).2 ∧
      (∃ q, Held c q ∧
        d.Makes (fun a => Apart c c' a.call) ((q.onDisk d).serve (.push [1, 2])).disk) ∧
      (Segments.scan d c.dataPath c.name).1 = .ok [(3, c.path (.segment 3))] ∧
      ∀ f, c.path (.segment 3) ≠ c'.path f := by
  intro c c' d
  have valid : c.validate = .ok () := by decide
  have valid' : c'.validate = .ok () := by decide +kernel
  have other : c.name ≠ c'.name := by decide +kernel
  obtain ⟨q, opened⟩ := openOn_empty Disk.blank_fresh Config.narrow_sound
  have scanned : (Segments.scan d c.dataPath c.name).1 = .ok [(3, c.path (.segment 3))] := by
    decide +kernel
  obtain ⟨opens, serves, lists⟩ := queues_apart valid valid' rfl other
  have held : Held c q := .opened opened.result_eq
  exact ⟨valid, valid', rfl, other, opens d, ⟨q, held, serves q held d _⟩, scanned,
    lists d _ scanned 3 _ (by simp)⟩

end Queue

end DurableQueue
