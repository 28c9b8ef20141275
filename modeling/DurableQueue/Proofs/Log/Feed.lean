import DurableQueue.Proofs.Log.Keeping

/-!
# Reading and appending in turn

A `Feed` is a log that somebody appends to while somebody else reads one message after the other
and commits it. `Plain` is what a feed would be if a segment always read as it is on disk: the list
of the unread messages, the first of them staged or not. `Faithful` says that a feed answers as the
list does.
-/

namespace DurableQueue

open FileSystem

/-- A log in use, and the message that was read and not committed yet. -/
structure Feed where
  log : Log
  staged : Option Bytes := none

namespace Feed

/-- What is done to a log in use. -/
inductive Action where
  | append (message : Bytes)
  | read
  | commit
  deriving DecidableEq, Repr

/-- What comes of it. -/
inductive Answer where
  | appended (result : Except Error Unit)
  | read (result : Except Error Bytes)
  /-- The message was delivered; `reset` tells whether something had to be put right. -/
  | committed (message : Bytes) (reset : Bool)
  /-- Nothing is unread, or a message waits to be committed, or none does. -/
  | idle

/-- The message that was delivered, if one was. -/
def Answer.delivered : Answer → Option Bytes
  | .committed message _ => some message
  | .appended _ | .read _ | .idle => none

/-- One action and its answer. -/
def act (f : Feed) : Action → Answer × Feed
  | .append message =>
    let (result, log) := f.log.append message
    (.appended result, { f with log })
  | .read =>
    if f.staged.isNone ∧ f.log.hasUnread then
      match f.log.readFrame with
      | (.ok message, log) => (.read (.ok message), { log, staged := some message })
      | (.error e, log) => (.read (.error e), { log })
    else (.idle, f)
  | .commit =>
    match f.staged with
    | none => (.idle, f)
    | some message =>
      let (reset, log) := f.log.commit
      (.committed message reset, { log })

/-- Actions in turn, with the answers in their order. -/
def run (f : Feed) : List Action → List Answer × Feed
  | [] => ([], f)
  | a :: actions =>
    let (answer, f) := f.act a
    let (answers, f) := run f actions
    (answer :: answers, f)

/-- Messages are read and committed `n` times. -/
def drains : Nat → List Action
  | 0 => []
  | n + 1 => .read :: .commit :: drains n

/-- The messages that a queue accepts of those that are appended. -/
def accepted (c : Config) (actions : List Action) : List Bytes :=
  actions.filterMap fun
    | .append m => if c.Admits m then some m else none
    | .read | .commit => none

/-- `P` holds of every action and the feed that it finds. -/
def Throughout (P : Feed → Action → Prop) (f : Feed) : List Action → Prop
  | [] => True
  | a :: actions => P f a ∧ Throughout P (f.act a).2 actions

instance Throughout.decidable {P : Feed → Action → Prop} [∀ f a, Decidable (P f a)] :
    ∀ f actions, Decidable (Throughout P f actions)
  | _, [] => inferInstanceAs (Decidable True)
  | f, a :: actions =>
    have := decidable (P := P) (f.act a).2 actions
    inferInstanceAs (Decidable (P f a ∧ Throughout P (f.act a).2 actions))

/-- The counters have room for what an action makes of them. -/
def RoomFor (f : Feed) : Action → Prop
  | .append _ => f.log.HasRoom
  | .read | .commit => True

instance (f : Feed) : ∀ a, Decidable (f.RoomFor a)
  | .append _ => inferInstanceAs (Decidable f.log.HasRoom)
  | .read => inferInstanceAs (Decidable True)
  | .commit => inferInstanceAs (Decidable True)

end Feed

/-- The unread messages, and the first of them if it is staged. -/
structure Plain where
  waiting : List Bytes
  staged : Option Bytes := none

namespace Plain

open Feed

/-- What the list of unread messages answers. -/
def act (c : Config) (p : Plain) : Action → Answer × Plain
  | .append m =>
    if c.Admits m then (.appended (.ok ()), { p with waiting := p.waiting ++ [m] })
    else (.appended (.error (.invalidMessageSize m.length c.minMsgSize c.maxMsgSize)), p)
  | .read =>
    match p.staged, p.waiting with
    | none, m :: _ => (.read (.ok m), { p with staged := some m })
    | _, _ => (.idle, p)
  | .commit =>
    match p.staged with
    | none => (.idle, p)
    | some m => (.committed m false, { waiting := p.waiting.tail })

/-- Actions in turn, with what the list answers to each. -/
def run (c : Config) (p : Plain) : List Action → List Answer × Plain
  | [] => ([], p)
  | a :: actions =>
    let (answer, p) := p.act c a
    let (answers, p) := run c p actions
    (answer :: answers, p)

/-- The list delivers what it had and what it accepts, in that order. -/
theorem delivered_append_waiting {c : Config} {p : Plain}
    (first : p.staged.toList <+: p.waiting) (actions : List Action) :
    (p.run c actions).1.filterMap Answer.delivered ++ (p.run c actions).2.waiting =
      p.waiting ++ accepted c actions := by
  induction actions generalizing p with
  | nil => simp [run, accepted]
  | cons a actions ih =>
    obtain ⟨waiting, staged⟩ := p
    simp only [run, List.filterMap_cons]
    cases a with
    | append m =>
      by_cases admitted : c.Admits m
      · have rest := ih (p := { waiting := waiting ++ [m], staged })
          (first.trans (List.prefix_append ..))
        simp only [act, if_pos admitted, Answer.delivered, accepted, List.filterMap_cons] at rest ⊢
        rw [rest, List.append_assoc]
        rfl
      · have rest := ih (p := { waiting, staged }) first
        simp only [act, if_neg admitted, Answer.delivered, accepted, List.filterMap_cons] at rest ⊢
        exact rest
    | read =>
      cases staged with
      | none =>
        cases waiting with
        | nil => exact ih (p := { waiting := [] }) List.nil_prefix
        | cons m ms => exact ih (p := { waiting := m :: ms, staged := some m }) ⟨ms, rfl⟩
      | some m => exact ih (p := { waiting, staged := some m }) first
    | commit =>
      cases staged with
      | none => exact ih (p := { waiting }) first
      | some m =>
        obtain ⟨ms, split⟩ := first
        have split : m :: ms = waiting := split
        subst split
        have rest := ih (p := { waiting := ms }) List.nil_prefix
        simp only [act, Answer.delivered, List.tail_cons, accepted, List.filterMap_cons,
          List.cons_append] at rest ⊢
        rw [rest]

end Plain

namespace Feed

/-- A feed answers as the list of its unread messages: it delivers them and what it accepts in
order, nothing has to be put right, and its reader finds what one opened now would find. -/
structure Faithful (f : Feed) (ms : List Bytes) (actions : List Action) : Prop where
  answers : (f.run actions).1 = (Plain.run f.log.config { waiting := ms } actions).1
  ordered : (f.run actions).1.filterMap Answer.delivered <+: ms ++ accepted f.log.config actions
  resets : (f.run actions).2.log.tailResets = f.log.tailResets
  reader : (f.run actions).2.staged = none → (f.run actions).2.log.hasUnread = true →
    (f.run actions).2.log.readFrame.1 =
      { (f.run actions).2.log with reader := none }.readFrame.1

end Feed

end DurableQueue
