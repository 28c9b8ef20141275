import DurableQueue.Proofs.Queue.Orphans
import DurableQueue.Proofs.Session.Spending

/-!
# Numbers are used once

A segment's number is used once: after a segment was removed or set aside, no call of any process makes a
segment of its number again (`SpentForGood`). What the next process knows of the numbers before it is the
record, so a process must not die while the record writes in a segment that is spent (`Tree.Overtakes`).
That cannot happen but in two places (`Inherits.overtakes_of_departs`): while a queue is cleared, for the
segments and the record are removed before the new record is stored, and after the very segment at the
write cursor was set aside or removed, for the record that says so is stored after that. If no process
dies there, numbers are used once, whatever processes open the queue one after the other
(`numbers_used_once`); one that dies in the middle of a clear lets the next one use a number again
(`number_used_again`).
-/

namespace DurableQueue

open FileSystem

variable {c c' : Config} {d d' : Disk} {dir : Location} {t : Tree} {h h' : List Access}
  {careful : Prop}

namespace FileSystem.Disk

/-- What there is when the calls that lead from `before` to `after` are cut off: the tree, and the calls
made so far. -/
inductive Cut (before after : Disk) : Tree → List Access → Prop where
  | none : Cut before after before.tree before.history
  | some {a : Access} {earlier : List Access} (made : a :: earlier <:+ after.history)
    (since : before.history <:+ earlier) : Cut before after a.after (a :: earlier)

theorem Cut.mem_since (cut : d.Cut d' t h) : t ∈ d'.since d := by
  cases cut with
  | none => exact List.mem_cons_self
  | @some a earlier made since =>
    obtain ⟨newer, made⟩ := made
    obtain ⟨mid, rfl⟩ := since
    have recent : d'.history.take (d'.history.length - d.history.length) = newer ++ a :: mid := by
      have split : d'.history = (newer ++ a :: mid) ++ d.history := by
        rw [← made]
        simp
      rw [split, List.length_append, Nat.add_sub_cancel, List.take_left]
    refine List.mem_cons_of_mem _ (List.mem_map.2 ⟨a, ?_, rfl⟩)
    rw [recent]
    simp

theorem Cut.suffix (cut : d.Cut d' t h) (made : d.history <:+ d'.history) : h <:+ d'.history := by
  cases cut with
  | none => exact made
  | some made since => exact made

/-- What is bygone before and after is so in between. -/
theorem Cut.bygone (cut : d.Cut d' t h) (before : Bygone c dir d.tree d.history)
    (after : Bygone c dir d'.tree d'.history) : Bygone c dir t h := by
  cases cut with
  | none => exact before
  | some made since => exact after.moment made

end FileSystem.Disk

/-- A record that is taken up from the tree writes after all segments whose numbers are spent. -/
def FileSystem.Tree.Overtakes (t : Tree) (c : Config) (history : List Access) : Prop :=
  ∀ r, t.Persists c r → ∀ k, Spent c history k → k < r.write.file

theorem Spent.mono {k : Nat} (spent : Spent c h k) (made : h <:+ h') : Spent c h' k := by
  obtain ⟨a, ha, vacated⟩ := spent
  exact ⟨a, made.subset ha, vacated⟩

theorem overtakes_of_writesFrom {number : Nat} (named : c.Named)
    (stocks : t.Stocks c dir (Stock.WritesFrom number)) (below : ∀ k, Spent c h k → k < number) :
    t.Overtakes c h := by
  obtain ⟨homes, r, kept, from_⟩ := stocks
  intro r' found k spent
  obtain rfl := kept.unique ((homes.persists_iff named).1 found).2
  exact Nat.lt_of_lt_of_le (below k spent) from_

/-! What is said of a queue's files is said of them under all settings that keep them under the same
names. -/

theorem Config.SameFiles.bygone (same : c.SameFiles c') (bygone : Bygone c dir t h) :
    Bygone c' dir t h := by
  obtain ⟨name, path⟩ := same
  obtain ⟨name', path', _, _, _, _, _⟩ := c'
  subst name path
  exact ⟨bygone.forGood, bygone.left, bygone.lacks⟩

theorem Config.SameFiles.overtakes (same : c.SameFiles c') (overtakes : t.Overtakes c h) :
    t.Overtakes c' h := by
  obtain ⟨name, path⟩ := same
  obtain ⟨name', path', _, _, _, _, _⟩ := c'
  subst name path
  exact overtakes

namespace Queue

/-- A process opens a queue on the disk `d` and leaves the tree `t` after the calls `h`: it dies while
the queue opens or while it serves an event, or it closes the queue and dies then or later. Until then no
sync had failed, and there were fewer segments than a word counts.

A careful process does not die in the middle of a clear, nor after it has taken away the segment that it
was about to write to, unless the record on the disk overtakes already what is spent. -/
inductive Departs (careful : Prop) (c : Config) (d : Disk) (t : Tree) (h : List Access) : Prop where
  | opening {q : Queue} (opened : openOn d c = (.ok q, q.disk))
    (room : q.session.log.write.file < Word.limit) (cut : d.Cut q.disk t h)
    (care : careful → d.tree.Overtakes c h ∨ t.Overtakes c h)
  | serving {q : Queue} {events : List Session.Event} {e : Session.Event}
    (opened : openOn d c = (.ok q, q.disk)) (synced : (q.session.run events).2.log.NoSyncFailed)
    (room : ((q.session.run events).2.step e).2.log.write.file < Word.limit)
    (cut : (q.session.run events).2.log.disk.Cut ((q.session.run events).2.step e).2.log.disk t h)
    (care : careful →
      e ≠ .clear ∧ (∀ k, Spent c h k → k < (q.session.run events).2.log.write.file) ∨ t.Overtakes c h)
  | closing {q : Queue} {events : List Session.Event} (opened : openOn d c = (.ok q, q.disk))
    (synced : (q.session.run events).2.log.NoSyncFailed)
    (room : (q.session.run events).2.log.write.file < Word.limit)
    (cut : (q.session.run events).2.log.disk.Cut ((q.session.run events).2.finish .close).2.log.disk t h)

/-- What processes leave one after the other of a queue that none of them deletes, the first of which
found an empty directory, and the calls that they made. Nothing is planned to fail, and nobody else
touches the files. -/
inductive Lived (careful : Prop) (c : Config) (dir : Location) : Tree → List Access → Prop where
  | empty {t : Tree} (vacant : t.Vacant c.dataPath dir) : Lived careful c dir t []
  | process {c' : Config} {d : Disk} {t : Tree} {h : List Access}
    (before : Lived careful c dir d.tree d.history) (same : c.SameFiles c') (sound : c'.Sound)
    (limit : c'.maxBytesPerFile < Word.limit) (faultless : d.Faultless)
    (departs : Departs careful c' d t h) : Lived careful c dir t h

theorem Departs.diesWith (departs : Departs careful c d t h) : DiesWith c d t := by
  cases departs with
  | opening opened room cut care => exact .opening opened room cut.mem_since
  | serving opened synced room cut care => exact .serving opened synced room cut.mem_since
  | closing opened synced room cut => exact .ending opened synced room cut.mem_since

theorem Lived.left (lived : Lived careful c dir t h) : Left c dir t := by
  induction lived with
  | empty vacant => exact .empty vacant
  | process before same sound limit faultless departs ih =>
    exact .process ih same sound limit faultless departs.diesWith

/-- A process finds a queue of which no number was used twice, and a record that overtakes those that are
spent. -/
structure Inherits (c : Config) (d : Disk) (dir : Location) : Prop where
  stocks : d.tree.Stocks c dir Stock.Enclosed
  bygone : Bygone c dir d.tree d.history
  overtakes : d.tree.Overtakes c d.history
  sound : c.Sound
  limit : c.maxBytesPerFile < Word.limit
  faultless : d.Faultless

namespace Inherits

variable (inherits : Inherits c d dir)
include inherits

/-- It opens the queue, and uses no number that is spent; all of them lie below its write cursor. -/
theorem opens : ∃ d' r, d.tree.Persists c r ∧ Session.Encloses c d' dir r ∧
    Disk.Through c dir (Stock.WritesFrom r.write.file) d d' ∧
    openOn d c = (.ok { session := Session.takingUp c d' r }, (Session.takingUp c d' r).log.disk) ∧
    ∀ {log : Log}, (Session.opening c d' r).log.Leads log →
      Bygone c dir log.disk.tree log.disk.history ∧
        ∀ k, Spent c log.disk.history k → k < log.write.file := by
  obtain ⟨stocks, bygone, overtakes, sound, limit, faultless⟩ := inherits
  obtain ⟨d', r, found, -, takes, tree, makes, opened⟩ := openOn_encloses stocks sound limit faultless
  have lacks := bygone.lacks
  have still : (d'.tree.stock c dir).Lacks (Spent c d.history) := by
    rw [tree]
    exact lacks
  have avoid : d.Makes (fun a => a.call.Avoids c ∧ a.after = d.tree) d' := by
    refine makes.mono fun a ⟨kind, same⟩ => ⟨?_, same⟩
    rcases kind with looks | ⟨path, eq⟩
    · exact Call.avoids_of_looks looks
    · rw [eq]
      exact fun k => ⟨id, id⟩
  obtain ⟨bygone', spent⟩ := bygone.makes (avoid.mono fun a ⟨avoids, same⟩ =>
    ⟨fun k vacated => (avoids k).2 vacated.2, fun k _ => (avoids k).1, same ▸ lacks⟩) still
  have kept := takes.kept
  rw [tree] at kept
  exact ⟨d', r, found, takes, Disk.through_of_same stocks.1 ⟨r, kept, Nat.le_refl _⟩ tree
    (makes.mono fun _ => And.right), opened,
    takes.thrifty bygone' fun k gone => overtakes r found k (spent k gone)⟩

/-- **No number is used twice up to the moment at which the process dies.** -/
theorem departs (departs : Departs careful c d t h) : Bygone c dir t h := by
  obtain ⟨d', r, -, -, -, opens, spends⟩ := inherits.opens
  have lead := fun events => Session.leads_takingUp c d' r events
  cases departs with
  | @opening q opened room cut care =>
    rw [opens] at opened
    cases opened
    exact cut.bygone inherits.bygone (spends (lead [])).1
  | @serving q events e opened synced room cut care =>
    rw [opens] at opened
    cases opened
    have step := Session.leads_step ((Session.takingUp c d' r).run events).2 e
    exact cut.bygone (spends (lead events)).1 (spends ((lead events).trans step)).1
  | @closing q events opened synced room cut =>
    rw [opens] at opened
    cases opened
    have close := Session.leads_finish ((Session.takingUp c d' r).run events).2 .close
    exact cut.bygone (spends (lead events)).1 (spends ((lead events).trans close)).1

/-- The calls that were made stay so while the process serves an event. -/
theorem grows {q : Queue} (opened : openOn d c = (.ok q, q.disk)) (events : List Session.Event)
    (e : Session.Event) : (q.session.run events).2.log.disk.history <:+
      ((q.session.run events).2.step e).2.log.disk.history := by
  obtain ⟨d', r, -, takes, -, opens, -⟩ := inherits.opens
  rw [opens] at opened
  cases opened
  have goes := Session.step_through (P := fun _ => True) (e := e) (takes.housed events)
    (takes.named_run events) (fun _ _ _ => id) trivial (fun _ _ => ⟨trivial, trivial⟩)
    (fun _ => trivial) fun _ _ _ _ => trivial
  obtain ⟨recent, made, -⟩ := goes.recent
  exact ⟨recent, made.symm⟩

/-- What is spent when the process dies while it serves an event lies below the write cursor that it
would have had after it. -/
theorem spent_lt {q : Queue} {events : List Session.Event} {e : Session.Event} {k : Nat}
    (opened : openOn d c = (.ok q, q.disk))
    (cut : (q.session.run events).2.log.disk.Cut ((q.session.run events).2.step e).2.log.disk t h)
    (spent : Spent c h k) : k < ((q.session.run events).2.step e).2.log.write.file := by
  have later := spent.mono (cut.suffix (inherits.grows opened events e))
  obtain ⟨d', r, -, -, -, opens, spends⟩ := inherits.opens
  rw [opens] at opened
  cases opened
  have step := Session.leads_step ((Session.takingUp c d' r).run events).2 e
  exact (spends ((Session.leads_takingUp c d' r events).trans step)).2 k later

/-- **When a careful process dies, the record overtakes all numbers that are spent.** -/
theorem overtakes_of_departs (departs : Departs True c d t h) : t.Overtakes c h := by
  obtain ⟨d', r, found, takes, through, opens, spends⟩ := inherits.opens
  have config := fun events => Session.config_takingUp c d' r events
  have named := inherits.sound.named
  cases departs with
  | @opening q opened room cut care =>
    rw [opens] at opened
    cases opened
    rcases care trivial with below | now
    · have homes := inherits.stocks.1
      have kept := ((homes.persists_iff named).1 found).2
      have stocks := (through.trans (takes.opens_from room)).since
        ⟨homes, r, kept, Nat.le_refl _⟩ t cut.mem_since
      exact overtakes_of_writesFrom named stocks (below r found)
    · exact now
  | @serving q events e opened synced room cut care =>
    rw [opens] at opened
    cases opened
    have first := Session.small_of_leads events (Session.leads_step _ e) room
    rcases care trivial with ⟨not_clear, below⟩ | now
    · have stocks := (takes.serves_from synced not_clear room).since (takes.housed events)
        (takes.writesFrom_run synced first) t cut.mem_since
      rw [config events] at stocks
      exact overtakes_of_writesFrom named stocks below
    · exact now
  | @closing q events opened synced room cut =>
    rw [opens] at opened
    cases opened
    have closes := takes.closes_from synced room
    have stocks := closes.since (takes.housed events) (takes.writesFrom_run synced room) t cut.mem_since
    rw [config events] at stocks
    -- what is spent at the end lies below the write cursor, which closing does not move
    have close := Session.leads_finish ((Session.takingUp c d' r).run events).2 .close
    have below := (spends ((Session.leads_takingUp c d' r events).trans close)).2
    rw [Session.write_close] at below
    obtain ⟨recent, made, -⟩ := closes.recent
    exact overtakes_of_writesFrom named stocks fun k spent =>
      below k (spent.mono (cut.suffix ⟨recent, made.symm⟩))

end Inherits

/-- **What careful processes leave is bygone, and the record overtakes all numbers that are spent.** -/
theorem Lived.bygone (lived : Lived True c dir t h) : Bygone c dir t h ∧ t.Overtakes c h := by
  induction lived with
  | empty vacant => exact ⟨bygone_nil, fun _ _ _ ⟨_, no, _⟩ => nomatch no⟩
  | process before same sound limit faultless departs ih =>
    obtain ⟨bygone, overtakes⟩ := ih
    have inherits : Inherits _ _ dir := ⟨same.stocks before.left.stocks, same.bygone bygone,
      same.overtakes overtakes, sound, limit, faultless⟩
    exact ⟨same.symm.bygone (inherits.departs departs),
      same.symm.overtakes (inherits.overtakes_of_departs departs)⟩

theorem Lived.inherits (lived : Lived True c dir d.tree d.history) (sound : c.Sound)
    (limit : c.maxBytesPerFile < Word.limit) (faultless : d.Faultless) : Inherits c d dir :=
  ⟨lived.left.stocks, lived.bygone.1, lived.bygone.2, sound, limit, faultless⟩

theorem inherits_blank : Inherits .narrow .blank [.text "data"] :=
  Lived.inherits (.empty Disk.blank_fresh.toVacant) Config.narrow_sound (by decide) fun _ _ => rfl

/-- **Numbers are used once.** Processes open a queue one after the other, the first of them in an empty
directory; each closes it or dies at any moment, none deletes it, and nothing fails. None of them dies in
the middle of a clear, or after it has taken away the segment that it was about to write to, unless the
record already says so. Then the next process opens the queue, and up to the moment at which it has
closed it no call of any of the processes has made, written to, removed or set aside a segment of a
number that was removed or set aside before. -/
theorem numbers_used_once (lived : Lived True c dir d.tree d.history) (sound : c.Sound)
    (limit : c.maxBytesPerFile < Word.limit) (faultless : d.Faultless) :
    ∃ q : Queue, openOn d c = (.ok q, q.disk) ∧ ∀ events,
      SpentForGood c dir (q.session.run events).2.log.disk.history ∧
      SpentForGood c dir ((q.session.run events).2.finish .close).2.log.disk.history := by
  obtain ⟨d', r, -, -, -, opened, spends⟩ := (lived.inherits sound limit faultless).opens
  refine ⟨_, opened, fun events => ?_⟩
  have lead := Session.leads_takingUp c d' r events
  have close := Session.leads_finish ((Session.takingUp c d' r).run events).2 .close
  exact ⟨(spends lead).1.forGood, (spends (lead.trans close)).1.forGood⟩

/-- A process that fills two segments and dies at any moment of the delivery that consumes the first of
them, and a process with other settings after it. -/
theorem numbers_used_once_narrow :
    ∃ q : Queue, openOn .blank .narrow = (.ok q, q.disk) ∧
      let s := (q.session.run [.push [1], .push [2], .push [3], .push [4], .deliver]).2
      ∀ t h, s.log.disk.Cut (s.step .deliver).2.log.disk t h →
        ∃ q' : Queue, openOn { tree := t, history := h } .eager = (.ok q', q'.disk) ∧
          SpentForGood .eager [.text "data"]
            ((q'.session.run [.push [5], .deliver]).2.finish .close).2.log.disk.history := by
  obtain ⟨q, ⟨_, opened, _⟩⟩ := openOn_empty Disk.blank_fresh Config.narrow_sound
  refine ⟨q, opened, fun t h cut => ?_⟩
  have ran := check_of_opened (P := fun q =>
    let s := (q.session.run [.push [1], .push [2], .push [3], .push [4], .deliver]).2
    decide ((.syncFailed ∉ s.log.journal ∧ .rollSyncFailed ∉ s.log.journal) ∧
      (s.step .deliver).2.log.write.file = s.log.write.file ∧
        (s.step .deliver).2.log.write.file < Word.limit)) opened (by decide +kernel)
  obtain ⟨synced, same_file, room⟩ := of_decide_eq_true ran
  have begun : Lived True .eager [.text "data"] Disk.blank.tree Disk.blank.history :=
    .empty Disk.blank_fresh.toVacant
  have same : Config.SameFiles .eager .narrow := ⟨rfl, rfl⟩
  have lived : Lived True .eager [.text "data"] t h := by
    refine .process begun same Config.narrow_sound (by decide) (fun _ _ => rfl)
      (.serving opened synced room cut fun _ => Or.inl ⟨nofun, fun k spent => ?_⟩)
    rw [← same_file]
    exact inherits_blank.spent_lt opened cut spent
  obtain ⟨q', opened', once⟩ := numbers_used_once (d := { tree := t, history := h }) lived
    Config.eager_sound (by decide) fun _ _ => rfl
  exact ⟨q', opened', (once [.push [5], .deliver]).2⟩

/-- **A process that dies in the middle of a clear lets the next one use a number again.** It dies when it
has removed its segment, and before it removes the record, which writes in that segment. The next process
finds that record, and its first message makes a segment of the same number. -/
theorem number_used_again :
    ∃ t h, Lived False .narrow [.text "data"] t h ∧
      ∃ q : Queue, openOn { tree := t, history := h } .narrow = (.ok q, q.disk) ∧
        ¬SpentForGood .narrow [.text "data"] (q.session.run [.push [2]]).2.log.disk.history := by
  obtain ⟨q, ⟨_, opened, _⟩⟩ := openOn_empty Disk.blank_fresh Config.narrow_sound
  have check := check_of_opened (P := fun q =>
    let s := (q.session.run [.push [1], .deliver, .tick]).2
    let cleared := (s.step .clear).2.log
    decide ((.syncFailed ∉ s.log.journal ∧ .rollSyncFailed ∉ s.log.journal) ∧
        cleared.write.file < Word.limit) &&
      match cleared.disk.history.dropWhile (·.call ≠ .remove "/data/q.queue.000000.dat") with
      | [] => false
      | a :: earlier => decide (s.log.disk.history.length ≤ earlier.length) &&
        (openOn { tree := a.after, history := a :: earlier } .narrow).1.toOption.all fun q' =>
          let history := (q'.session.run [.push [2]]).2.log.disk.history
          (history[8]?.any fun a => a.call = .write "/data/q.queue.000000.dat" 5 (Frame.encode [2])) &&
            history[14]?.any fun a => a.error = none ∧ a.call = .remove "/data/q.queue.000000.dat")
    opened (by decide +kernel)
  obtain ⟨ran, check⟩ := Bool.and_eq_true_iff.1 check
  obtain ⟨synced, room⟩ := of_decide_eq_true ran
  split at check
  · cases check
  next a earlier stopped =>
  obtain ⟨long, check⟩ := Bool.and_eq_true_iff.1 check
  -- the first process dies when it has made the call `a`
  have made : a :: earlier <:+
      ((q.session.run [.push [1], .deliver, .tick]).2.step .clear).2.log.disk.history :=
    stopped ▸ List.dropWhile_suffix _
  have since := List.suffix_of_suffix_length_le
    (inherits_blank.grows opened [.push [1], .deliver, .tick] .clear)
    ((List.suffix_cons a earlier).trans made) (of_decide_eq_true long)
  have lived : Lived False .narrow [.text "data"] a.after (a :: earlier) :=
    .process (.empty Disk.blank_fresh.toVacant) ⟨rfl, rfl⟩ Config.narrow_sound (by decide)
      (fun _ _ => rfl) (.serving opened synced room (.some made since) False.elim)
  -- and the second process writes where it has removed the segment
  obtain ⟨d', r, -, -, -, -, -, opened'⟩ :=
    openOn_encloses (d := { tree := a.after, history := a :: earlier }) lived.left.stocks
      Config.narrow_sound (by decide) fun _ _ => rfl
  refine ⟨a.after, a :: earlier, lived, _, opened', fun forGood => ?_⟩
  obtain ⟨writes, removes⟩ := Bool.and_eq_true_iff.1 (check_of_opened opened' check)
  obtain ⟨later, at_later, fills⟩ := (Option.any_eq_true _ _).1 writes
  obtain ⟨removal, at_removal, gone⟩ := (Option.any_eq_true _ _).1 removes
  obtain ⟨done, removed⟩ := of_decide_eq_true gone
  have path : Config.narrow.path (.segment 0) = "/data/q.queue.000000.dat" := by decide
  have vacated : removal.Vacated (Config.narrow.path (.segment 0)) := by
    rw [path]
    exact ⟨done, removed ▸ rfl⟩
  have unused := forGood.unused at_later at_removal (by decide) vacated
  rw [path, of_decide_eq_true fills] at unused
  exact unused rfl

end Queue

end DurableQueue
