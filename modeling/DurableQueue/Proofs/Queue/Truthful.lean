import DurableQueue.Proofs.Queue.Recovery

/-!
# Whether a queue counts right after a crash

A queue's length is `Truthful` if it is the number of messages that the queue then delivers, with
no corruption recovered and nothing reset. A queue that was closed is truthful when it is opened
again. After a crash it need not be (`untruthful_after_removal`): a segment that is consumed is
removed before the record is stored that no longer reads from it, and a process that dies in
between leaves a record that still counts the messages of a segment that is gone. The next process
counts that segment as a corruption and its messages as waiting.

This is the only way: at every moment of a run the queue counts right if it is taken up from there,
unless the record reads next from a segment that is gone (`truthful_iff`).
-/

namespace DurableQueue

open FileSystem

/-- The segment that a record reads next is gone from the disk. -/
def Record.Dangles (r : Record) (c : Config) (d : Disk) : Prop :=
  r.read < r.write ∧ d.isThere (Naming.segmentPath c.dataPath c.name r.read.file) = false

instance (r : Record) (c : Config) (d : Disk) : Decidable (r.Dangles c d) :=
  inferInstanceAs (Decidable (_ ∧ _))

namespace Queue

/-- A queue's length is the number of messages that it delivers when nothing more is pushed, and
nothing is recovered or reset when it is opened and drained. -/
def Truthful (q : Queue) : Prop :=
  ∃ ms : List Bytes, q.length = ms.length ∧ ∀ count,
    (q.popMany count).1 = ms.take count ∧
      (q.popMany count).2.session.corruptions = 0 ∧
      (q.popMany count).2.session.log.tailResets = 0

/-- What the next process finds and counts when it takes a queue up from a tree. -/
def CountsRight (c : Config) (t : Tree) : Prop :=
  ∀ d : Disk, d.tree = t → (∀ n call, d.faults n call = none) →
    ∃ record q, (Record.load d (Naming.recordPath c.dataPath c.name)).1 = .ok record ∧
      (openOn d c).1 = .ok q ∧ (q.Truthful ↔ ¬(record.getD {}).Dangles c d)

variable {c : Config} {d : Disk} {dir : Location} {k : Course} {shelf : Shelf} {ms : List Bytes}
  {r : Record}

/-- A session that is ready and counted opens a truthful queue. -/
theorem truthful_of_counted {s : Session} (ready : s.Ready dir shelf ms) (sound : s.log.config.Sound)
    (counted : s.Counted ms) : Truthful { session := s } := by
  refine ⟨ms, counted.depth, fun count => ?_⟩
  obtain ⟨delivered, rest⟩ := popMany_ready ready sound count
  have counted' := rest counted
  exact ⟨delivered, counted'.corruptions, counted'.resets⟩

/-- A queue that has met a corruption is not truthful. -/
theorem not_truthful {q : Queue} (met : 0 < q.session.corruptions) : ¬q.Truthful := by
  rintro ⟨ms, -, drained⟩
  obtain ⟨-, none, -⟩ := drained 0
  have here : (q.popMany 0).2 = q := rfl
  rw [here] at none
  omega

/-- A record dangles exactly if there is a gap where it reads. -/
theorem dangles_iff (hosts : d.tree.Hosts c.dataPath dir) (sound : c.Sound) (words : r.InWords) :
    r.Dangles c d ↔ Gap (View.of (d.tree.shelf c dir)).segments r := by
  have there := Tree.isThere_path hosts sound (f := .segment r.read.file) rfl words.read.1
  have path : Naming.segmentPath c.dataPath c.name r.read.file = c.path (.segment r.read.file) := rfl
  rw [Record.Dangles, Gap, path, there, View.of, Option.map_eq_none_iff, Option.isSome_eq_false_iff,
    Option.isNone_iff_eq_none]

/-- **What a queue shows is counted right by the next process, unless the record dangles.** -/
theorem Shown.countsRight {t : Tree} (shown : Shown c dir k t) (sound : c.Sound) :
    CountsRight c t := by
  rintro d rfl faultless
  obtain ⟨hosts, recoverable⟩ := shown
  have serves : d.Serves c dir (d.tree.shelf c dir) := ⟨faultless, hosts, rfl⟩
  cases there : (View.of (d.tree.shelf c dir)).record with
  | none =>
    obtain ⟨d₁, loaded, -⟩ := Record.load_spec_none (P := fun _ => True) serves sound there trivial
    obtain ⟨d₂, reached, opened⟩ :=
      openOn_spec (P := fun _ => True) serves sound trivial (Or.inl ⟨there, rfl⟩)
    rw [Log.ofRecord_eq (Position.le_refl _) (Int.le_refl 0) fun _ => rfl] at opened
    have reads : (Log.resumed c d₂ {}).Reads dir (d.tree.shelf c dir) none [] :=
      ⟨reached.toServes, .nil _, List.nil_prefix, rfl, nofun, nofun⟩
    obtain ⟨shelf', ready, config, counted⟩ := start_reads reads sound
    refine ⟨none, _, congrArg Prod.fst loaded, by rw [opened], ?_⟩
    have right := truthful_of_counted ready (config ▸ sound)
      (counted ⟨rfl, by decide, rfl, rfl⟩)
    refine iff_of_true right ?_
    rintro ⟨less, -⟩
    exact Position.lt_irrefl less
  | some bs =>
    obtain ⟨r, i, j, n, rfl, words, -, leads⟩ := recoverable bs there
    obtain ⟨d₁, loaded, -⟩ := Record.load_spec (P := fun _ => True) serves sound words there trivial
    obtain ⟨d₂, reached, opened⟩ :=
      openOn_spec (P := fun _ => True) serves sound trivial (Or.inr ⟨there, words⟩)
    obtain ⟨shelf', ready, config, outcome⟩ := ready_of_leads reached.toServes sound words leads
    refine ⟨some r, _, congrArg Prod.fst loaded, by rw [opened], ?_⟩
    rw [Option.getD_some, dangles_iff hosts sound words]
    rcases outcome with ⟨counted, whole⟩ | ⟨met, gap⟩
    · exact iff_of_true (truthful_of_counted ready (config.symm ▸ sound) counted) whole
    · exact iff_of_false (not_truthful met) fun whole => whole gap

/-- **A queue that dies at any moment counts right when it is taken up from there, unless the record
reads next from a segment that is gone**, be it while it is opened for the first time or during any
event of a run in which no counter runs over. -/
theorem truthful_iff (fresh : d.Fresh c dir) (sound : c.Sound) :
    ∃ q : Queue, openOn d c = (.ok q, q.disk) ∧ (∀ t ∈ q.disk.since d, CountsRight c t) ∧
      ∀ events, q.RoomThroughout events →
        ∀ t l, (t, l) ∈ q.moments {} events → CountsRight c t := by
  obtain ⟨q, opened⟩ := openOn_empty fresh sound
  have waits : q.Waits c dir {} := opened.toHolds
  obtain ⟨shelf, reached⟩ := opened.shown
  refine ⟨q, opened.result_eq, fun t ht => ?_, fun events room t l ht => ?_⟩
  · have now : Shown c dir {} d.tree := by
      refine ⟨fresh.serves.hosts, ?_⟩
      rw [fresh.serves.shelf_eq]
      nofun
    have shown : Shown c dir {} t := reached.since now t ht
    exact shown.countsRight sound
  · obtain ⟨k, shown, rfl⟩ := waits.moments sound room t l ht
    exact shown.countsRight sound

/-- A run that fills two segments and reads the first of them out. -/
theorem truthful_iff_narrow :
    ∃ q : Queue, openOn .blank .narrow = (.ok q, q.disk) ∧
      ∀ t l, (t, l) ∈ q.moments {} [.push [1], .push [2], .push [3], .push [4], .pop, .pop, .tick,
        .reopen, .pop, .clear, .push [5]] → CountsRight .narrow t := by
  obtain ⟨q, opened, -, right⟩ := truthful_iff Disk.blank_fresh Config.narrow_sound
  refine ⟨q, opened, right _ ?_⟩
  exact roomThroughout_of_few Disk.blank_fresh Config.narrow_sound opened (by decide)

/-- **A process that dies between the removal of a consumed segment and the next record leaves a
queue that counts wrong.** Of the two messages in the segment that is left, the next process says
that there are four, and the segment that was consumed it counts as a corruption. -/
theorem untruthful_after_removal :
    ∃ q : Queue, openOn .blank .narrow = (.ok q, q.disk) ∧
      ∃ t l, (t, l) ∈ q.moments {} [.push [1], .push [2], .push [3], .push [4], .pop, .pop] ∧
        ∃ q', (openOn (Disk.blank.rebooted t fun _ _ => none) .narrow).1 = .ok q' ∧
          q'.length = 4 ∧ (q'.popMany 3).1 = [[3], [4]] ∧ ¬q'.Truthful := by
  obtain ⟨q, ⟨_, opened, _⟩⟩ := openOn_empty Disk.blank_fresh Config.narrow_sound
  refine ⟨q, opened, ?_⟩
  have check := check_of_opened (P := fun q =>
    (q.moments {} [.push [1], .push [2], .push [3], .push [4], .pop, .pop])[31]?.any fun m =>
      (openOn (Disk.blank.rebooted m.1 fun _ _ => none) .narrow).1.toOption.any fun q' =>
        decide (q'.length = 4 ∧ (q'.popMany 3).1 = [[3], [4]] ∧ 0 < q'.session.corruptions))
    opened (by decide +kernel)
  obtain ⟨⟨t, l⟩, moment, check⟩ := (Option.any_eq_true _ _).1 check
  obtain ⟨q', opened', check⟩ := opened_of_check check
  obtain ⟨length, drained, met⟩ := of_decide_eq_true check
  exact ⟨t, l, List.mem_of_getElem? moment, q', opened', length, drained, not_truthful met⟩

end Queue

end DurableQueue
