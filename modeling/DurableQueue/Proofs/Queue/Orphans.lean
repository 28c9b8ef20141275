import DurableQueue.Proofs.Queue.Opening
import DurableQueue.Proofs.Session.Enclosing

/-!
# No segment is forgotten

A process finds the segments of a queue by the cursors of its record, so a segment outside them is never
read and never removed. There is none: however often a queue is opened, served, and closed or cut off
at any moment, be it with other settings each time, at every moment each segment on the disk has a
number between the cursors of the record that the next process takes up, if nothing fails
(`no_segment_forgotten`). So the next process can delete the queue, and nothing is left of it.
-/

namespace DurableQueue

open FileSystem

/-- Settings of queues that keep their files under the same names. -/
structure Config.SameFiles (c c' : Config) : Prop where
  name : c'.name = c.name
  dataPath : c'.dataPath = c.dataPath

variable {c c' : Config} {d : Disk} {dir : Location} {r : Record} {t : Tree} {P : Stock → Prop}

theorem Config.SameFiles.symm (same : c.SameFiles c') : c'.SameFiles c :=
  ⟨same.name.symm, same.dataPath.symm⟩

theorem Config.SameFiles.stocks (same : c.SameFiles c') (h : t.Stocks c dir P) : t.Stocks c' dir P := by
  obtain ⟨name, path⟩ := same
  obtain ⟨homes, holds⟩ := h
  obtain ⟨name', path', _, _, _, _, _⟩ := c'
  subst name path
  exact ⟨⟨homes.directory, homes.leads, homes.noNul, homes.plain, homes.alone⟩, holds⟩

/-- The settings `Config.narrow` with larger segments and a sync after every event. -/
def Config.eager : Config := { Config.narrow with syncEvery := 1, maxBytesPerFile := 64 }

theorem Config.eager_sound : eager.Sound where
  toValid := Config.flaw?_eq_none_iff.1 (by decide)
  short := by decide
  noNul := by decide

/-- What stands under the name of a queue's file is that file. -/
theorem FileSystem.Tree.Homes.of_isThere {f : QueueFile} (homes : d.tree.Homes c dir) (named : c.Named)
    (there : d.isThere (c.path f) = true) : d.tree.shelf c dir f ≠ none := by
  rcases homes.find_cases named f with ⟨e, failed, -⟩ | ⟨number, inode, found, -⟩
  · simp [Disk.isThere, failed] at there
  · simp [found]

namespace Queue

/-- A process opens a queue on the disk `d` and dies with the tree `t` on it: while the queue opens,
while it serves an event, or while it ends or later. Until then no sync had failed, and there were fewer
segments than a word counts. -/
inductive DiesWith (c : Config) (d : Disk) (t : Tree) : Prop where
  | opening {q : Queue} (opened : openOn d c = (.ok q, q.disk))
    (room : q.session.log.write.file < Word.limit) (moment : t ∈ q.disk.since d)
  | serving {q : Queue} {events : List Session.Event} {e : Session.Event}
    (opened : openOn d c = (.ok q, q.disk)) (synced : (q.session.run events).2.log.NoSyncFailed)
    (room : ((q.session.run events).2.step e).2.log.write.file < Word.limit)
    (moment : t ∈ ((q.session.run events).2.step e).2.log.disk.since (q.session.run events).2.log.disk)
  | ending {q : Queue} {events : List Session.Event} {mode : ExitMode}
    (opened : openOn d c = (.ok q, q.disk)) (synced : (q.session.run events).2.log.NoSyncFailed)
    (room : (q.session.run events).2.log.write.file < Word.limit)
    (moment : t ∈ ((q.session.run events).2.finish mode).2.log.disk.since
      (q.session.run events).2.log.disk)

/-- What processes leave one after the other of a queue, the first of which found an empty directory.
Nothing is planned to fail, and nobody else touches the files. -/
inductive Left (c : Config) (dir : Location) : Tree → Prop where
  | empty {t : Tree} (vacant : t.Vacant c.dataPath dir) : Left c dir t
  | process {c' : Config} {d : Disk} {t : Tree} (before : Left c dir d.tree) (same : c.SameFiles c')
    (sound : c'.Sound) (limit : c'.maxBytesPerFile < Word.limit) (faultless : d.Faultless)
    (dies : DiesWith c' d t) : Left c dir t

/-- The record that is found on a disk accounts for every segment there, and once the queue is opened
and deleted, no segment and no record is left. -/
def Accounted (c : Config) (d : Disk) : Prop :=
  ∃ record q, (Record.load d (Naming.recordPath c.dataPath c.name)).1 = .ok record ∧
    (∀ k, d.isThere (Naming.segmentPath c.dataPath c.name k) = true →
      (record.getD {}).read.file ≤ k ∧ k ≤ (record.getD {}).write.file) ∧
    openOn d c = (.ok q, q.disk) ∧
    (q.session.log.write.file < Word.limit → q.delete.1 = .ok () ∧
      (∀ k, q.delete.2.disk.isThere (Naming.segmentPath c.dataPath c.name k) = false) ∧
      q.delete.2.disk.isThere (Naming.recordPath c.dataPath c.name) = false)

/-- A queue that opens where its files are its own takes up the record that it finds, after calls that
change nothing. -/
theorem openOn_takes (homes : d.tree.Homes c dir) (valid : c.Valid) (found : d.tree.Persists c r)
    (faultless : d.Faultless) :
    ∃ d', d'.tree = d.tree ∧ d.Makes (fun a => (a.call.Looks ∨ ∃ path, a.call = .makeDirectory path) ∧
        a.after = d.tree) d' ∧ openOn d c =
      (.ok { session := Session.takingUp c d' r }, (Session.takingUp c d' r).log.disk) := by
  obtain ⟨d₁, made, tree, first⟩ : ∃ d₁, d.makeDirectories c.dataPath = (.ok (), d₁) ∧
      d₁.tree = d.tree ∧ d.Makes (fun a => (a.call.Looks ∨ ∃ path, a.call = .makeDirectory path) ∧
        a.after = d.tree) d₁ := by
    rcases Disk.makeDirectories_there homes faultless with made | ⟨path, made⟩
    · exact ⟨d, made, rfl, .refl d⟩
    · exact ⟨_, made, rfl, Disk.makes_noted ⟨Or.inr ⟨_, rfl⟩, rfl⟩⟩
  have faultless₁ : d₁.Faultless := fun n call => first.faults_eq ▸ faultless n call
  obtain ⟨record, loaded, taken⟩ := found d₁ tree faultless₁
  have looks := Record.load_looks d₁ (Naming.recordPath c.dataPath c.name)
  obtain ⟨d₂, d₂_eq⟩ : ∃ d₂, d₂ = (Record.load d₁ (Naming.recordPath c.dataPath c.name)).2 := ⟨_, rfl⟩
  rw [← d₂_eq] at looks
  have result : Record.load d₁ (Naming.recordPath c.dataPath c.name) = (.ok record, d₂) := by
    rw [d₂_eq, ← loaded]
  refine ⟨d₂, looks.tree_eq.trans tree, first.trans ?_, ?_⟩
  · exact looks.toMakes.mono fun a looked => ⟨Or.inl looked.1, looked.2.trans tree⟩
  · simp only [openOn, Config.validate_eq_ok_iff.2 valid, made, result, taken]
    rfl

/-- A process that finds only segments between the cursors of the record opens the queue. -/
theorem openOn_encloses (stocks : d.tree.Stocks c dir Stock.Enclosed) (sound : c.Sound)
    (limit : c.maxBytesPerFile < Word.limit) (faultless : d.Faultless) :
    ∃ d' r, d.tree.Persists c r ∧ (∀ k, (d.tree.stock c dir).segments k → r.read.file ≤ k ∧
        k ≤ r.write.file) ∧ Session.Encloses c d' dir r ∧ d'.tree = d.tree ∧
      d.Makes (fun a => (a.call.Looks ∨ ∃ path, a.call = .makeDirectory path) ∧ a.after = d.tree) d' ∧
      openOn d c =
        (.ok { session := Session.takingUp c d' r }, (Session.takingUp c d' r).log.disk) := by
  obtain ⟨homes, enclosed⟩ := stocks
  obtain ⟨r, kept, ordered, within⟩ := enclosed
  have found : d.tree.Persists c r :=
    (homes.persists_iff sound.named).2 ⟨sound.isLong_eq QueueFile.numbered_record, kept⟩
  obtain ⟨d', tree, makes, opened⟩ := openOn_takes homes sound.toValid found faultless
  exact ⟨d', r, found, within,
    { named := sound.named
      limit := limit
      homes := tree ▸ homes
      found := tree ▸ found
      sound := sound
      faultless := fun n call => makes.faults_eq ▸ faultless n call
      ordered := ordered
      within := by rw [tree]; exact within }, tree, makes, opened⟩

/-- **Whenever a process dies, the segments lie between the cursors of the record**, if they did when it
began. -/
theorem DiesWith.stocks (dies : DiesWith c d t) (stocks : d.tree.Stocks c dir Stock.Enclosed)
    (sound : c.Sound) (limit : c.maxBytesPerFile < Word.limit) (faultless : d.Faultless) :
    t.Stocks c dir Stock.Enclosed := by
  obtain ⟨d', r, -, -, h, tree, makes, opens⟩ := openOn_encloses stocks sound limit faultless
  have through : Disk.Through c dir Stock.Enclosed d d' :=
    Disk.through_of_same stocks.1 stocks.2 tree (makes.mono fun _ => And.right)
  have config := fun events => Session.config_takingUp c d' r events
  cases dies with
  | @opening q opened room moment =>
    rw [opens] at opened
    cases opened
    exact (through.trans (h.opens room)).since stocks t moment
  | @serving q events e opened synced room moment =>
    rw [opens] at opened
    cases opened
    have first := Session.small_of_leads events (Session.leads_step _ e) room
    rw [← config events]
    exact (h.serves synced room).since (h.housed events) (h.enclosed_run first synced) t moment
  | @ending q events mode opened synced room moment =>
    rw [opens] at opened
    cases opened
    rw [← config events]
    exact (h.ends synced room mode).since (h.housed events) (h.enclosed_run room synced) t moment

theorem Left.stocks (left : Left c dir t) : t.Stocks c dir Stock.Enclosed := by
  induction left with
  | empty vacant =>
    refine ⟨vacant.hosts.homes, {}, Or.inl ⟨?_, rfl⟩, Position.le_refl _, fun k there => ?_⟩
    · rw [Tree.stock, vacant.shelf_eq]
      rfl
    · rw [Tree.stock, vacant.shelf_eq] at there
      exact absurd rfl there
  | process before same sound limit faultless dies ih =>
    exact same.symm.stocks (dies.stocks (same.stocks ih) sound limit faultless)

/-- A queue that has begun with an enclosed stock can be deleted, and then none of its files is left. -/
theorem delete_encloses (h : Session.Encloses c d dir r)
    (room : (Session.takingUp c d r).log.write.file < Word.limit) :
    ∃ left, delete { session := Session.takingUp c d r } = (.ok (), left) ∧
      left.disk.tree.Homes c dir ∧ (∀ k, ¬(left.disk.tree.stock c dir).segments k) ∧
      (left.disk.tree.stock c dir).record = none := by
  obtain ⟨log, log_eq⟩ : ∃ log, log = (Session.takingUp c d r).log.tell .stopping := ⟨_, rfl⟩
  have config : log.config = c := by
    rw [log_eq]
    exact Session.config_takingUp c d r []
  have lead : (Session.opening c d r).log.Leads log := by
    rw [log_eq]
    exact (Session.leads_takingUp c d r []).tell .stopping
  have small : log.write.file < Word.limit := by
    rw [log_eq]
    exact room
  have housed := h.begins.1.leads h.begins.2.1 lead
  have named : log.config.Named := by
    rw [config]
    exact h.named
  have ordered := ((Session.inOrder_opening c d r).leads lead).1
  obtain ⟨ok, -, segments, record⟩ := (h.tight lead .refl small).deleteAll housed named
    (by rw [config]; exact h.sound) ordered.read_le_write small
  have goes := (housed.deleteAll (P := fun _ => True) named (fun _ _ _ => id) trivial trivial).1
  have homes := goes.homes
  rw [Log.stock, goes.config_eq, config] at segments record
  rw [config] at homes
  unfold delete exit Session.finish
  simp only [if_true, ← log_eq]
  revert ok segments record homes
  cases log.deleteAll with
  | mk result log' =>
    rintro rfl segments record homes
    exact ⟨_, rfl, homes, segments, record⟩

/-- **No segment is forgotten.** Processes open a queue one after the other, the first of them in an empty
directory, and die at any moment; nothing fails. Whatever is left, the next process finds a record between
whose cursors every segment of the queue lies. It opens the queue, and when it deletes it, no segment
and no record is left. -/
theorem no_segment_forgotten (left : Left c dir d.tree) (sound : c.Sound)
    (limit : c.maxBytesPerFile < Word.limit) (faultless : d.Faultless) : Accounted c d := by
  have stocks := left.stocks
  obtain ⟨d', r, found, within, h, -, -, opened⟩ := openOn_encloses stocks sound limit faultless
  obtain ⟨record, loaded, taken⟩ := found d rfl faultless
  refine ⟨record, _, loaded, fun k there => ?_, opened, fun room => ?_⟩
  · rw [taken]
    exact within k (stocks.1.of_isThere (f := .segment k) sound.named there)
  · obtain ⟨left, deleted, homes, segments, none⟩ := delete_encloses h room
    rw [deleted]
    refine ⟨rfl, fun k => ?_, ?_⟩
    · exact Bool.eq_false_iff.2 fun there =>
        segments k (homes.of_isThere (f := .segment k) sound.named there)
    · refine Bool.eq_false_iff.2 fun there => homes.of_isThere (f := .record) sound.named there ?_
      exact Option.map_eq_none_iff.1 none

/-- A process that fills two segments and dies at any moment of the delivery that consumes the first of
them, and a process with other settings after it. -/
theorem no_segment_forgotten_narrow :
    ∃ q : Queue, openOn .blank .narrow = (.ok q, q.disk) ∧
      let s := (q.session.run [.push [1], .push [2], .push [3], .push [4], .deliver]).2
      ∀ t ∈ (s.step .deliver).2.log.disk.since s.log.disk, Accounted .eager { tree := t } := by
  obtain ⟨q, ⟨_, opened, _⟩⟩ := openOn_empty Disk.blank_fresh Config.narrow_sound
  refine ⟨q, opened, fun t moment => ?_⟩
  have ran := check_of_opened (P := fun q =>
    let s := (q.session.run [.push [1], .push [2], .push [3], .push [4], .deliver]).2
    decide ((.syncFailed ∉ s.log.journal ∧ .rollSyncFailed ∉ s.log.journal) ∧
      (s.step .deliver).2.log.write.file < Word.limit)) opened (by decide +kernel)
  obtain ⟨synced, room⟩ := of_decide_eq_true ran
  have begun : Left .eager [.text "data"] Disk.blank.tree := .empty Disk.blank_fresh.toVacant
  have same : Config.SameFiles .eager .narrow := ⟨rfl, rfl⟩
  have left : Left .eager [.text "data"] t :=
    .process begun same Config.narrow_sound (by decide) (fun _ _ => rfl)
      (.serving opened synced room moment)
  exact no_segment_forgotten (d := { tree := t }) left Config.eager_sound (by decide) fun _ _ => rfl

end Queue

end DurableQueue
