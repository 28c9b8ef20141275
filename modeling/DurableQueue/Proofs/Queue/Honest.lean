import DurableQueue.Proofs.Queue.Harmless
import DurableQueue.Proofs.Session.Recovering

/-!
# What the length says of emptiness

The depth of a log is not derived from its cursors or its segments: it is taken from the record and goes
up and down with pushes and deliveries, and only where the cursors meet is it put right (`Log.Shows`).
So a queue whose record says too little holds messages and calls itself empty. `length_honest_iff` says
when: the length is the balance of what was stored, pushed and delivered since the cursors last met
(`Session.balance`), and tells whether something is unread exactly as long as that balance is positive
where something is.
-/

namespace DurableQueue

open FileSystem

namespace Log

variable {log log' : Log} {n : Int} {m : Bytes}

/-- What is waiting where `n` messages were counted: none if the cursors met. -/
def owed (log : Log) (n : Int) : Int := if log.read = log.write then 0 else n

/-- The depth is what is owed, as a word holds it. -/
def Shows (log : Log) (n : Int) : Prop := log.depth = Word.wrap (log.owed n)

theorem owed_of_unread (behind : log.read < log.write) : log.owed n = n := by
  refine if_neg fun meet => ?_
  rw [meet] at behind
  exact Position.lt_irrefl behind

theorem owed_owed : log.owed (log.owed n) = log.owed n := by
  by_cases meet : log.read = log.write
  · rw [owed, owed, if_pos meet, if_pos meet]
  · rw [owed, owed, if_neg meet, if_neg meet]

theorem Shows.of_eq (shown : log.Shows n) (read : log'.read = log.read) (write : log'.write = log.write)
    (depth : log'.depth = log.depth) : log'.Shows n := by
  rw [Shows, owed, read, write, depth]
  exact shown

theorem Shows.owed (shown : log.Shows n) : log.Shows (log.owed n) := by
  rw [Shows, owed_owed]
  exact shown

theorem shows_met (meet : log.read = log.write) (zero : log.depth = 0) : log.Shows n := by
  rw [Shows, Log.owed, if_pos meet, zero]
  rfl

/-- A look at the tail leaves the depth alone unless the cursors have met or crossed. -/
theorem Tail.shows (tail : log.Tail log') (depth : log.depth = Word.wrap n) : log'.Shows n := by
  cases tail with
  | unread behind =>
    rw [Shows, owed_of_unread behind]
    exact depth
  | met meet sync told resets => exact shows_met meet rfl
  | crossed past told resets => exact shows_met rfl rfl

/-- A message that is appended is one more, and one that is not is none. -/
theorem Shows.append (shown : log.Shows n) (ordered : log.InOrder) : (log.append m).2.Shows
    (log.owed n + if (log.append m).1 = .ok () then 1 else 0) := by
  have outcome := log.append_outcome m
  revert outcome
  generalize log.append m = out
  intro outcome
  cases outcome with
  | refused rejected =>
    rw [if_neg nofun, Int.add_zero]
    exact shown.owed
  | closed path e d opens =>
    rw [if_neg nofun, Int.add_zero]
    exact shown.owed.of_eq rfl rfl rfl
  | failed x e d tree by_ opens =>
    rw [if_neg nofun, Int.add_zero]
    exact shown.owed.of_eq rfl rfl rfl
  | made x d d' tree sync told within by_ opens rolls =>
    have further : log.write < (log.appended m).write := Position.lt_past
    have behind : log.read < (log.appended m).write :=
      Position.lt_of_le_of_lt ordered.read_le_write further
    have one : (log.appended m).depth = Word.wrap (log.owed n + 1) := by
      show Word.wrap (log.depth + 1) = _
      rw [show log.depth = _ from shown]
      exact Int.bmod_add_bmod
    have unread : (log.appended m).Shows (log.owed n + 1) := by
      rw [Shows, owed_of_unread behind]
      exact one
    rw [if_pos rfl]
    exact unread.of_eq rfl rfl rfl

theorem Shows.readFrame (shown : log.Shows n) : log.readFrame.2.Shows n := by
  obtain ⟨m, d, reader, eq, -⟩ | ⟨e, d, reader, eq, -⟩ := log.readFrame_outcome
  · rw [eq]
    exact shown.of_eq rfl rfl rfl
  · rw [eq]
    exact shown.of_eq rfl rfl rfl

/-- A message that is delivered is one less. -/
theorem Shows.commit (shown : log.Shows n) : log.commit.2.Shows (log.owed n - 1) := by
  obtain ⟨sync, told, tail⟩ := log.commit_outcome
  refine tail.shows ?_
  show Word.wrap (log.depth - 1) = _
  rw [show log.depth = _ from shown]
  exact Int.bmod_sub_bmod

/-- The messages of a segment that is set aside stay counted. -/
theorem Shows.quarantine (shown : log.Shows n) : log.quarantine.Shows (log.owed n) := by
  obtain ⟨told, tail⟩ := log.quarantine_outcome
  exact tail.shows shown

/-- What a record says is counted if it can be. -/
theorem TakesUp.shows {r : Record} (takes : log.TakesUp r) (words : r.InWords) :
    log.Shows (max r.length 0) := by
  by_cases crossed : r.Crossed
  · obtain ⟨read, write, depth⟩ := takes.crossed crossed
    exact shows_met (read.trans write.symm) depth
  obtain ⟨read, write⟩ := takes.ordered crossed
  by_cases miscounts : r.Miscounts
  · have zero := takes.miscounted crossed miscounts
    rcases miscounts with negative | ⟨meet, -⟩
    · have none_ : max r.length 0 = 0 := by omega
      rw [Shows, zero, none_, Log.owed, ite_self]
      rfl
    · exact shows_met (by rw [read, write, meet]) zero
  · have counted := takes.counted crossed miscounts
    have positive : 0 ≤ r.length := Int.not_lt.1 fun negative => miscounts (Or.inl negative)
    by_cases meet : log.read = log.write
    · have none_ : r.length = 0 := by
        by_contra some_
        exact miscounts (Or.inr ⟨by rw [← read, ← write, meet], some_⟩)
      exact shows_met meet (counted.trans none_)
    · have all : max r.length 0 = r.length := by omega
      have high := words.high
      rw [Shows, Log.owed, if_neg meet, counted, all, Word.wrap_of_fits]
      · omega
      · exact high

end Log

namespace Session

variable {s t : Session} {n : Int} {e : Event}

/-- What an answer adds to the messages that wait. -/
def Answer.change : Answer → Int
  | .pushed (.ok ()) => 1
  | .delivered (some _) => -1
  | _ => 0

/-- The messages that wait after events, where `n` were counted before them: each push that is accepted
adds one and each delivery takes one away, and where the cursors meet none is left. -/
def balance (s : Session) (n : Int) : List Event → Int
  | [] => s.log.owed n
  | e :: events => (s.step e).2.balance (s.log.owed n + (s.step e).1.change) events

theorem FlushRest.shows (rest : FlushRest s t) (shown : s.log.Shows n) : t.log.Shows n := by
  obtain ⟨-, -, d, sync, told, w, eq⟩ := rest
  rw [eq]
  exact shown.of_eq rfl rfl rfl

/-- Settling counts nothing: what is read stays unread until it is delivered, and the messages of a
segment that is given up stay counted. -/
theorem Settles.shows (settles : s.Settles t) (shown : s.log.Shows n) : t.log.Shows n := by
  induction settles generalizing n with
  | @wait s nothing => exact s.flush_rest.shows shown
  | @stage s m log idle read =>
    have after := (s.flush_rest.shows shown).readFrame
    rw [read] at after
    exact after
  | @again s t e log idle read rest ih =>
    have after := (s.flush_rest.shows shown).readFrame
    rw [read] at after
    have told : (log.tell .frameUnreadable).Shows n := after.of_eq rfl rfl rfl
    have unread : log.owed n = n := by
      obtain ⟨m, d, r, eq, -⟩ | ⟨e', d, r, eq, -⟩ := s.flush.log.readFrame_outcome
      · rw [read] at eq
        cases eq
      · rw [read] at eq
        cases eq
        exact Log.owed_of_unread (of_decide_eq_true idle.2)
    refine ih ?_
    rw [← unread]
    exact told.quarantine

theorem handle_shows (ordered : s.log.InOrder) (shown : s.log.Shows n) (passes : ¬s.Passes e) :
    (s.handle e).log.Shows (s.log.owed n + (s.step e).1.change) := by
  cases e with
  | push m =>
    have answer : (s.step (.push m)).1 = .pushed (s.log.append m).1 := rfl
    have one : Answer.change (.pushed (s.log.append m).1) =
        if (s.log.append m).1 = .ok () then 1 else 0 := by
      cases (s.log.append m).1 <;> rfl
    rw [answer, one]
    exact shown.append ordered
  | deliver =>
    obtain ⟨m, staged⟩ : ∃ m, s.staged = some m :=
      Option.ne_none_iff_exists'.1 fun vacant => passes ⟨rfl, vacant⟩
    have answer : (s.step .deliver).1 = .delivered (some m) := by
      simp only [step, deliver, staged, Option.map_some]
    rw [answer]
    have committed := shown.commit
    unfold handle
    revert committed
    cases s.log.commit with
    | mk reset log =>
      intro committed
      cases reset with
      | true => exact committed.of_eq rfl rfl rfl
      | false => exact committed
  | clear =>
    obtain ⟨told, eq⟩ := s.log.deleteAll_outcome
    simp only [handle, eq]
    exact Log.shows_met rfl rfl
  | tick =>
    have same : s.log.owed n + (s.step .tick).1.change = s.log.owed n := Int.add_zero _
    rw [same]
    unfold handle
    simp only
    split
    · exact shown.owed.of_eq rfl rfl rfl
    · exact shown.owed

/-- **An event changes the depth by what its answer says.** -/
theorem step_shows (ordered : s.log.InOrder) (shown : s.log.Shows n) (e : Event) :
    (s.step e).2.log.Shows (s.log.owed n + (s.step e).1.change) := by
  by_cases passes : s.Passes e
  · obtain ⟨rfl, vacant⟩ := passes
    have same : s.step .deliver = (.delivered none, s) := by
      simp only [step, deliver, vacant, Option.map_none]
    have unchanged : s.log.owed n + (Answer.delivered none).change = s.log.owed n := Int.add_zero _
    rw [same, unchanged]
    exact shown.owed
  · have settled := (s.handle e).settles_settle.shows (handle_shows ordered shown passes)
    rw [step_eq, if_neg passes]
    exact settled

/-- **The depth after a run is the balance of the run.** -/
theorem run_shows (ordered : s.log.InOrder) (shown : s.log.Shows n) (events : List Event) :
    (s.run events).2.log.depth = Word.wrap (s.balance n events) := by
  induction events generalizing s n with
  | nil => exact shown
  | cons e events ih =>
    have next : (s.step e).2.log.InOrder := (ordered.leads (s.leads_step e)).1
    exact ih next (step_shows ordered shown e)

theorem balance_bounds (s : Session) (n : Int) (events : List Event) :
    min n 0 - events.length ≤ s.balance n events ∧ s.balance n events ≤ max n 0 + events.length := by
  induction events generalizing s n with
  | nil =>
    simp only [balance, Log.owed, List.length_nil]
    split <;> omega
  | cons e events ih =>
    obtain ⟨low, high⟩ := ih (s.step e).2 (s.log.owed n + (s.step e).1.change)
    have least : -1 ≤ (s.step e).1.change ∧ (s.step e).1.change ≤ 1 := by
      unfold Answer.change
      split <;> omega
    have owed : min n 0 ≤ s.log.owed n ∧ s.log.owed n ≤ max n 0 := by
      unfold Log.owed
      split <;> omega
    rw [balance, List.length_cons]
    omega

end Session

namespace Queue

variable {c : Config} {d d' : Disk} {q : Queue}

/-- The length of a queue is no negative number, and it is said to be empty exactly where the cursors
meet. -/
def Honest (q : Queue) : Prop :=
  0 ≤ q.length ∧ (q.isEmpty = true ↔ q.session.log.read = q.session.log.write)

/-- The queue after events. -/
def after (q : Queue) (events : List Session.Event) : Queue :=
  { q with session := (q.session.run events).2 }

/-- Where the cursors are in order nothing is waiting once they meet, so the length is honest there. -/
theorem honest_iff (ordered : q.session.log.InOrder) :
    q.Honest ↔ q.session.log.read = q.session.log.write ∨ 0 < q.length := by
  have isEmpty_iff : q.isEmpty = true ↔ q.length ≤ 0 := decide_eq_true_iff
  rw [Honest, isEmpty_iff]
  constructor
  · rintro ⟨positive, empty⟩
    by_cases meet : q.session.log.read = q.session.log.write
    · exact Or.inl meet
    · exact Or.inr (Int.not_le.1 fun none_ => meet (empty.1 none_))
  · rintro (meet | some_)
    · have zero : q.length = 0 := ordered.meet meet
      exact ⟨Int.le_of_eq zero.symm, fun _ => meet, fun _ => Int.le_of_eq zero⟩
    · refine ⟨Int.le_of_lt some_, fun none_ => absurd some_ (Int.not_lt.2 none_), fun meet => ?_⟩
      exact Int.le_of_eq (ordered.meet meet)

/-- **A queue tells whether it is empty as long as its record has not said too little.** Whatever its
directory holds and whatever fails on it, the length of a queue that was opened with a record is the
record's, or none if that is negative, and what was pushed since then and not delivered, counted afresh
wherever the cursors meet. So it is honest exactly where the cursors meet or that balance is positive,
and as long as the balance has room in its word it is the length itself. -/
theorem length_honest_iff (opened : (openOn d c).1 = .ok q) : ∃ r,
    Record.ReadAs ((prepared d c).readFile (c.path .record)).1 r ∧
      ∀ events,
        (q.after events).length = Word.wrap (q.session.balance (max r.length 0) events) ∧
        ((q.after events).Honest ↔
          (q.after events).session.log.read = (q.after events).session.log.write ∨
            0 < Word.wrap (q.session.balance (max r.length 0) events)) ∧
        (max r.length 0 + events.length < Word.signedLimit →
          (q.after events).length = q.session.balance (max r.length 0) events) := by
  obtain ⟨r, d₂, looks, taken, rfl⟩ := (openOn_opens d c).of_ok opened
  refine ⟨r, taken, fun events => ?_⟩
  have begun : (Session.opening c d₂ r).log.Shows (max r.length 0) :=
    ((Log.takesUp_ofRecord c d₂ r).shows taken.inWords).of_eq rfl rfl rfl
  have settled := (Session.settles_settle (Session.opening c d₂ r)).shows begun
  have counted := Session.run_shows (Session.inOrder_takingUp c d₂ r []) settled events
  obtain ⟨q, q_eq⟩ : ∃ q : Queue,
      q = { session := Session.start ((Log.ofRecord c d₂ r).tell .opening) } := ⟨_, rfl⟩
  have ordered : (q.after events).session.log.InOrder := by
    rw [q_eq]
    exact Session.inOrder_takingUp c d₂ r events
  have length_eq : (q.after events).length =
      Word.wrap (q.session.balance (max r.length 0) events) := by
    rw [q_eq]
    exact counted
  rw [← q_eq, ← length_eq]
  refine ⟨rfl, honest_iff ordered, fun room => ?_⟩
  have bounds := q.session.balance_bounds (max r.length 0) events
  have fits : max r.length 0 + events.length < 9223372036854775808 := room
  rw [length_eq, Word.wrap_of_fits]
  · omega
  · omega

/-- A queue that is taken up with one message in its record and two in its segment, and is honest as
long as it counts the one: after a push and a delivery, but not after another. -/
theorem length_honest_narrow :
    let d : Disk := { tree := {
      entries := [([.text "data"], .directory),
        ([.text "q.queue.000000.dat", .text "data"], .file 0),
        ([.text "q.queue.meta.dat", .text "data"], .file 1)]
      inodes := #[⟨[0, 0, 0, 1, 97, 0, 0, 0, 1, 98], 0⟩, ⟨Text.encode "1\n0,0\n1,0\n", 0⟩] } }
    ∃ q, (openOn d .narrow).1 = .ok q ∧ (q.after [.push [99], .deliver]).Honest ∧
      ¬(q.after [.deliver]).Honest := by
  intro d
  obtain ⟨q, opened, check⟩ := opened_of_check (d := d) (c := .narrow) (P := fun q => decide (
    (q.after [.push [99], .deliver]).session.log.read ≠
        (q.after [.push [99], .deliver]).session.log.write ∧
      (q.after [.push [99], .deliver]).length = 1 ∧
      (q.after [.deliver]).session.log.read ≠ (q.after [.deliver]).session.log.write ∧
      (q.after [.deliver]).length = 0)) (by decide +kernel)
  obtain ⟨unread, one, unread', none_⟩ := of_decide_eq_true check
  obtain ⟨r, -, counts⟩ := length_honest_iff opened
  obtain ⟨shown, honest, -⟩ := counts [.push [99], .deliver]
  obtain ⟨shown', honest', -⟩ := counts [.deliver]
  refine ⟨q, opened, honest.2 (Or.inr ?_), fun tells => ?_⟩
  · rw [← shown, one]
    decide
  · rcases honest'.1 tells with meet | some_
    · exact unread' meet
    · rw [← shown', none_] at some_
      exact absurd some_ (by decide)

/-- **A record may hide a message.** The record says that no message waits, and its cursors and the
segment that there is one: the queue calls itself empty with that message on offer. -/
theorem empty_with_unread :
    let d : Disk := { tree := {
      entries := [([.text "data"], .directory),
        ([.text "q.queue.000000.dat", .text "data"], .file 0),
        ([.text "q.queue.meta.dat", .text "data"], .file 1)]
      inodes := #[⟨[0, 0, 0, 1, 97], 0⟩, ⟨Text.encode "0\n0,0\n0,5\n", 0⟩] } }
    ∃ q, (openOn d .narrow).1 = .ok q ∧ q.isEmpty = true ∧ q.session.staged = some [97] ∧
      q.session.log.read < q.session.log.write ∧ ¬q.Honest := by
  intro d
  obtain ⟨q, opened, check⟩ := opened_of_check (d := d) (c := .narrow) (P := fun q => decide (
    q.isEmpty = true ∧ q.session.staged = some [97] ∧ q.session.log.read < q.session.log.write))
    (by decide +kernel)
  obtain ⟨empty, staged, behind⟩ := of_decide_eq_true check
  refine ⟨q, opened, empty, staged, behind, fun honest => ?_⟩
  rw [honest.2.1 empty] at behind
  exact Position.lt_irrefl behind

end Queue

end DurableQueue
