import DurableQueue.Proofs.Queue.Recovery
import DurableQueue.Proofs.Shared.Tally

/-!
# What is delivered is what was put

As long as nothing fails and the counters have room, a shared queue is a queue that serves one event
after the other, so what it delivers follows from what the queue does (`Waits.step`): each delivered
message is the one that was put, or was waiting, at the place it is taken from (`Follows.run`).
-/

namespace DurableQueue

open FileSystem

namespace Queue

/-- Where the first message that is not delivered lies. -/
def Course.read (k : Course) (c : Config) : Position :=
  k.start.ends c.maxBytesPerFile (k.accepted.take k.delivered)

/-- The messages that wait, with the places of their frames. -/
def Course.laid (k : Course) (c : Config) : List (Position × Bytes) :=
  placed c.maxBytesPerFile (k.read c) k.waiting

theorem Waits.read_eq {q : Queue} {c : Config} {dir : Location} {k : Course}
    (h : q.Waits c dir k) : q.session.log.read = k.read c := by
  obtain ⟨-, rfl, shelf, holds⟩ := h
  exact holds.keeps.read_eq

end Queue

namespace Shared

/-- The counters have room for what a move makes of them. -/
def RoomFor (s : Shared) : Move → Prop
  | .servePush => s.session.log.HasRoom
  | .serveClear => s.session.log.write.file + 1 < Word.limit
  | .begin _ | .send _ | .finish _ | .serveExit | .deliver _ | .tick => True

/-- No counter runs over while moves are made. -/
def RoomThroughout (s : Shared) : List Move → Prop
  | [] => True
  | move :: moves => s.RoomFor move ∧ ∀ s', s.step move = some s' → s'.RoomThroughout moves

end Shared

namespace Tally

open Shared (Move)
open Queue (Course)

/-- The accepted messages with the places that they were put at. -/
def put (t : Tally) : List (Position × Bytes) := t.puts.map fun p => (p.place, p.message)

/-- The delivered messages with the places that they were taken from. -/
def taken (t : Tally) : List (Position × Bytes) := t.takes.map fun x => (x.place, x.message)

/-- What was taken, in its order, is part of what was there and what was put since; what is left of
that waits in the queue, as long as it runs. -/
structure Follows (t : Tally) (c : Config) (dir : Location) (there : List (Position × Bytes)) :
    Prop where
  taken : t.taken.Sublist (there ++ t.put)
  waits : t.shared.ended = none → ∃ older k, t.taken.Sublist older ∧
    older ++ k.laid c = there ++ t.put ∧ Queue.Waits { session := t.shared.session } c dir k

variable {t t' : Tally} {c : Config} {dir : Location} {there : List (Position × Bytes)}
  {move : Move} {moves : List Move} {k : Course} {m : Bytes}

theorem laid_push (within : k.delivered ≤ k.accepted.length) :
    Course.laid { k with accepted := k.accepted ++ [m] } c = k.laid c ++ [(k.write c, m)] := by
  have whole : (k.read c).ends c.maxBytesPerFile k.waiting = k.write c := by
    rw [Course.read, Course.waiting, ← Position.ends_append, List.take_append_drop]
    rfl
  rw [Course.laid, Course.laid, Course.read, Course.waiting, List.take_append_of_le_length within,
    List.drop_append_of_le_length within, placed_snoc]
  exact congrArg (fun p => _ ++ [(p, m)]) whole

theorem laid_pop {ms : List Bytes} (some : k.waiting = m :: ms) :
    k.laid c = (k.read c, m) :: Course.laid { k with delivered := k.delivered + 1 } c := by
  have rest : k.accepted.drop (k.delivered + 1) = ms := by
    rw [← List.drop_drop]
    rw [Course.waiting] at some
    rw [some]
    rfl
  have within : k.delivered < k.accepted.length := by
    have size := congrArg List.length some
    rw [Course.waiting, List.length_drop, List.length_cons] at size
    omega
  have next : Course.read { k with delivered := k.delivered + 1 } c =
      (k.read c).past c.maxBytesPerFile m.length := by
    have head : k.accepted[k.delivered] = m := by
      have first := congrArg List.head? some
      rw [Course.waiting, List.head?_drop, List.getElem?_eq_getElem within, List.head?_cons] at first
      exact Option.some.inj first
    rw [Course.read, List.take_succ_eq_append_getElem within, Position.ends_append, head]
    rfl
  rw [Course.laid, Course.laid, next, some, placed, Course.waiting, rest]

/-- A move that touches neither the files nor what was put and taken. -/
theorem Follows.same (h : t.Follows c dir there) (session : t'.shared.session = t.shared.session)
    (ended : t'.shared.ended = t.shared.ended) (puts : t'.puts = t.puts) (takes : t'.takes = t.takes) :
    t'.Follows c dir there := by
  have put_eq : t'.put = t.put := by rw [put, puts, put]
  have taken_eq : t'.taken = t.taken := by rw [Tally.taken, takes, Tally.taken]
  constructor
  case taken =>
    rw [put_eq, taken_eq]
    exact h.taken
  case waits =>
    rw [session, ended, put_eq, taken_eq]
    exact h.waits

/-- As long as the queue runs, what it holds decides what was taken. -/
theorem Follows.of_waits {older : List (Position × Bytes)} {session : Session}
    (part : t.taken.Sublist older) (whole : older ++ k.laid c = there ++ t.put)
    (held : t.shared.session = session) (waits : Queue.Waits { session } c dir k) :
    t.Follows c dir there where
  taken := whole ▸ part.trans (List.sublist_append_left ..)
  waits := fun _ => ⟨older, k, part, whole, held ▸ waits⟩

/-- A push that is accepted lays its message behind those that wait, and no other push lays any. -/
theorem laid_of_push {session : Session} (waits : Queue.Waits { session } c dir k) (sound : c.Sound)
    (room : session.log.HasRoom) (m : Bytes) : ∃ k',
      Queue.Waits { session := (session.push m).2 } c dir k' ∧
      ((session.push m).1 = .ok () ∧ k'.laid c = k.laid c ++ [(session.log.write, m)] ∨
        (∃ e, (session.push m).1 = .error e) ∧ k'.laid c = k.laid c) := by
  by_cases admitted : c.Admits m
  · have steps := waits.push sound admitted room
    have write : session.log.write = k.write c := waits.write_eq
    refine ⟨_, steps.waits, Or.inl ⟨Queue.Answer.pushed.inj steps.answer_eq, ?_⟩⟩
    rw [laid_push waits.within, write]
  · have steps := waits.push_refused sound admitted
    exact ⟨k, steps.waits, Or.inr ⟨⟨_, Queue.Answer.pushed.inj steps.answer_eq⟩, rfl⟩⟩

/-- A delivery takes the first message that waits from where it lies. -/
theorem laid_of_deliver {session session' : Session} (waits : Queue.Waits { session } c dir k)
    (sound : c.Sound) (offered : session.deliver = some (m, session')) :
    ∃ k', Queue.Waits { session := session' } c dir k' ∧
      k.laid c = (session.log.read, m) :: k'.laid c := by
  have read : session.log.read = k.read c := waits.read_eq
  have popped : Queue.step { session } .pop = (.popped (.message m), { session := session' }) := by
    simp only [Queue.step, Queue.pop, if_true, offered]
  cases left : k.waiting with
  | nil =>
    have answer := (waits.pop_empty left).answer_eq
    rw [popped] at answer
    cases answer
  | cons m' ms =>
    obtain ⟨answer, after, -⟩ := waits.pop sound left
    rw [popped] at answer after
    cases answer
    exact ⟨_, after, read ▸ laid_pop left⟩

/-- **What a shared queue delivers next is what waits first.** -/
theorem Follows.step (h : t.Follows c dir there) (sound : c.Sound) (room : t.shared.RoomFor move)
    (moves : t.shared.Moves move t'.shared) (puts : t'.puts = t.puts ++ t.shared.putsOf move)
    (takes : t'.takes = t.takes ++ t.shared.takesOf move) : t'.Follows c dir there := by
  have put_eq : t'.put = t.put ++ (t.shared.putsOf move).map fun p => (p.place, p.message) := by
    rw [put, puts, List.map_append, put]
  have taken_eq : t'.taken = t.taken ++ (t.shared.takesOf move).map fun x => (x.place, x.message) := by
    rw [Tally.taken, takes, List.map_append, Tally.taken]
  obtain ⟨s, s_eq⟩ : ∃ s, t'.shared = s := ⟨_, rfl⟩
  rw [s_eq] at moves
  cases moves with
  | refused found idle next may stopped | guarded found idle next may running
  | finished found holds =>
    exact h.same ((congrArg Shared.session s_eq).trans rfl) ((congrArg Shared.ended s_eq).trans rfl)
      (puts.trans (List.append_nil _)) (takes.trans (List.append_nil _))
  | @sent i x call found holds =>
    refine h.same ?_ ?_ (puts.trans (List.append_nil _)) (takes.trans (List.append_nil _))
    · rw [s_eq]
      cases call <;> rfl
    · rw [s_eq]
      cases call <;> rfl
  | @pushed i m pushes on first =>
    obtain ⟨older, k, part, whole, waits⟩ := h.waits on
    have taken_eq := taken_eq.trans (List.append_nil _)
    simp only [Shared.putsOf, first] at put_eq
    obtain ⟨k', after, ⟨ok, laid⟩ | ⟨⟨e, refused⟩, laid⟩⟩ := laid_of_push waits sound room m
    · simp only [ok, List.map_cons, List.map_nil] at put_eq
      refine .of_waits (taken_eq ▸ part) ?_ (congrArg Shared.session s_eq) after
      rw [laid, put_eq, ← List.append_assoc, whole, List.append_assoc]
    · simp only [refused, List.map_nil, List.append_nil] at put_eq
      exact .of_waits (taken_eq ▸ part) (put_eq ▸ laid ▸ whole) (congrArg Shared.session s_eq) after
  | @cleared i clears on first =>
    obtain ⟨older, k, part, whole, waits⟩ := h.waits on
    have put_eq := put_eq.trans (List.append_nil _)
    have taken_eq := taken_eq.trans (List.append_nil _)
    have steps := waits.clear sound room
    have gone : t'.taken.Sublist (older ++ k.laid c) := by
      rw [taken_eq]
      exact part.trans (List.sublist_append_left ..)
    have served : (Queue.step { session := t.shared.session } .clear).2 =
        { session := t.shared.session.clear.2 } := by simp only [Queue.step, Queue.clear, if_true]
    have after := steps.waits
    rw [served] at after
    generalize t.shared.session.clear = cleared at s_eq after
    refine .of_waits gone ?_ (congrArg Shared.session s_eq) after
    rw [put_eq, ← whole]
    exact List.append_nil _
  | @exited i mode exits on first =>
    have put_eq := put_eq.trans (List.append_nil _)
    have taken_eq := taken_eq.trans (List.append_nil _)
    refine ⟨?_, fun runs => ?_⟩
    · rw [put_eq, taken_eq]
      exact h.taken
    · rw [s_eq] at runs
      cases runs
  | @delivered j wants m session on found offered =>
    obtain ⟨older, k, part, whole, waits⟩ := h.waits on
    have put_eq := put_eq.trans (List.append_nil _)
    have offer := Session.staged_of_deliver offered
    obtain ⟨k', after, laid⟩ := laid_of_deliver waits sound offered
    simp only [Shared.takesOf, offer, Option.map_some, Option.toList_some, List.map_cons,
      List.map_nil] at taken_eq
    have taken : t'.taken.Sublist (older ++ [(t.shared.session.log.read, m)]) := by
      rw [taken_eq]
      exact part.append (List.Sublist.refl _)
    refine .of_waits taken ?_ (congrArg Shared.session s_eq) after
    rw [put_eq, ← whole, laid, List.append_assoc]
    rfl
  | ticked on =>
    obtain ⟨older, k, part, whole, waits⟩ := h.waits on
    have put_eq := put_eq.trans (List.append_nil _)
    have taken_eq := taken_eq.trans (List.append_nil _)
    exact .of_waits (taken_eq ▸ part) (put_eq ▸ whole) (congrArg Shared.session s_eq)
      (waits.tick sound).waits

/-- **What a shared queue delivers is what it held and what was put**, in that order, as long as
there is room and nothing fails. -/
theorem Follows.run (h : t.Follows c dir there) (sound : c.Sound)
    (room : t.shared.RoomThroughout moves) (ran : t.run moves = some t') : t'.Follows c dir there := by
  induction moves generalizing t with
  | nil =>
    cases ran
    exact h
  | cons move moves ih =>
    rw [Tally.run, Option.bind_eq_some_iff] at ran
    obtain ⟨t₁, allowed, rest⟩ := ran
    rw [Tally.step, Option.map_eq_some_iff] at allowed
    obtain ⟨s, stepped, rfl⟩ := allowed
    obtain ⟨here, later⟩ := room
    exact ih (h.step sound here (Shared.step_moves stepped) rfl rfl) (later s stepped) rest

theorem follows_start {session : Session} (waits : Queue.Waits { session } c dir k)
    (calls : Array (List Request)) (consumers : Array Nat) :
    (start session calls consumers).Follows c dir (k.laid c) :=
  .of_waits (List.nil_sublist []) (List.append_nil _).symm rfl waits

end Tally

end DurableQueue
