import Mathlib.Data.List.Sort
import DurableQueue.Proofs.Shared.Delivering

/-!
# The protocol of a shared queue

`handle_protocol` says what the users of one queue can rely on, however many there are, whoever
moves when, whatever lies on the disk and whatever fails there. A push that is answered with success
has put one frame, and no other push has put any; the frames of a producer are taken in the order of
its calls, each of them once; and of the calls that end the queue the first to take its guard is the
only one that is let in. It runs when nobody else is in a call, and whatever comes to its guard
later is refused and touches nothing.

If the queue lies in a directory that serves, and no counter runs over, what is taken are the
messages that were put, byte for byte.
-/

namespace DurableQueue

open FileSystem

namespace Shared

variable {s s' : Shared} {move : Move} {moves : List Move} {call : Request}

instance (s : Shared) (move : Move) : Decidable (s.RoomFor move) := by
  cases move <;> unfold RoomFor <;> infer_instance

instance decidableRoomThroughout : (moves : List Move) → (s : Shared) →
    Decidable (s.RoomThroughout moves)
  | [], _ => isTrue trivial
  | move :: moves, s =>
    have : DecidablePred fun s' : Shared => s'.RoomThroughout moves :=
      decidableRoomThroughout moves
    decidable_of_iff (s.RoomFor move ∧ ∀ s' ∈ s.step move, s'.RoomThroughout moves) Iff.rfl

/-- Nobody moves the session of a queue that has ended. -/
theorem Moves.over (h : s.Moves move s') (ended : s.ended.isSome = true) :
    s'.session = s.session ∧ s'.ended.isSome = true := by
  cases h with
  | refused | guarded | finished => exact ⟨rfl, ended⟩
  | @sent i c call found holds => cases call <;> exact ⟨rfl, ended⟩
  | pushed on | cleared on | exited on | delivered on | ticked on =>
    rw [on] at ended
    cases ended

theorem run_over (ended : s.ended.isSome = true) (ran : s.run moves = some s') :
    s'.session = s.session := by
  induction moves generalizing s with
  | nil =>
    cases ran
    rfl
  | cons move moves ih =>
    rw [Shared.run, Option.bind_eq_bind, Option.bind_eq_some_iff] at ran
    obtain ⟨s₁, allowed, rest⟩ := ran
    obtain ⟨session, ceased⟩ := (step_moves allowed).over ended
    rw [ih ceased rest, session]

/-- Whoever takes a guard once no more calls are let in finds the queue ended: the call that ends
it holds its guard alone until then. -/
theorem Guarded.over_of_may (h : s.Guarded) (stopped : s.running = false)
    (may : s.mayGuard call = true) : s.ended.isSome = true := by
  rw [← Option.ne_none_iff_isSome]
  intro on
  obtain ⟨i, mode, stands⟩ := h.ending stopped on
  have held : (s.client i).phase.call? = some (.exit mode) := by
    rcases stands with stands | stands <;> rw [phase] at stands <;> rw [stands] <;> rfl
  cases (mayGuard_iff.1 may i _ held).2

end Shared

namespace Tally

open Shared (Move)

/-- The places that the accepted messages of a client were put at, in the order of its calls. -/
def placesOf (t : Tally) (i : Nat) : List Position := (t.puts.filter (·.client = i)).map (·.place)

variable {t t' : Tally} {c : Config} {before : List (String × Nat × Bytes)} {moves : List Move}
  {s : Shared} {call : Request}

theorem run_shared (ran : t.run moves = some t') : t.shared.run moves = some t'.shared := by
  induction moves generalizing t with
  | nil =>
    cases ran
    rfl
  | cons move moves ih =>
    rw [Tally.run, Option.bind_eq_some_iff] at ran
    obtain ⟨t₁, allowed, rest⟩ := ran
    rw [Tally.step, Option.map_eq_some_iff] at allowed
    obtain ⟨s, stepped, rfl⟩ := allowed
    rw [Shared.run, Option.bind_eq_bind, stepped]
    exact ih rest

/-- What is taken from the places of one producer is taken in the order of its calls. -/
theorem Takes.in_order (takes : t.Takes) (puts : t.Puts c before) (i : Nat) :
    ((t.takes.map (·.place)).filter (· ∈ t.placesOf i)).Sublist (t.placesOf i) := by
  have antisymm : Std.Antisymm fun p q : Position => p < q := by
    refine ⟨fun p q less more => ?_⟩
    simp only [Position.lt_iff] at less more
    omega
  have taken : ((t.takes.map (·.place)).filter (· ∈ t.placesOf i)).Pairwise (· < ·) :=
    takes.ordered.sublist List.filter_sublist
  have put : (t.placesOf i).Pairwise (· < ·) :=
    puts.ordered.sublist (List.filter_sublist.map _)
  refine List.sublist_of_subperm_of_pairwise (List.subperm_of_subset ?_ ?_) taken put
  · refine taken.imp fun less => ?_
    rintro rfl
    exact Position.lt_irrefl less
  · intro p hp
    exact of_decide_eq_true (List.mem_filter.1 hp).2

/-- What the users of a queue can rely on. -/
structure Protocol (t : Tally) (c : Config) (before : List (String × Nat × Bytes)) : Prop where
  /-- A push has put its frame exactly if it succeeded. -/
  puts : t.Puts c before
  /-- No frame is taken twice. -/
  takes : t.Takes
  /-- The frames of a producer are taken in the order of its calls. -/
  in_order : ∀ i, ((t.takes.map (·.place)).filter (· ∈ t.placesOf i)).Sublist (t.placesOf i)
  /-- A call is let in exactly if no call before it ends the queue; any other is answered that the
  queue has ended, and no call that is let in is. -/
  turns : t.Turns
  /-- When the loop comes to the call that ends the queue, nobody else is in a call. -/
  at_exit : ∀ t', t.step .serveExit = some t' → t.shared.pushes = [] ∧ t.shared.clears = [] ∧
    ∃ i mode, (t.shared.client i).phase = .waiting (.exit mode) ∧
      ∀ j, j ≠ i → (t.shared.client j).phase = .idle
  /-- A call that takes its guard after that is answered at once, and from then on the session with
  its depth and its files stays as it is. -/
  after_exit : t.shared.running = false → ∀ i t', t.step (.begin i) = some t' →
    ∃ call calls, (t.shared.client i).calls = call :: calls ∧
      t'.shared.client i = { t.shared.client i with
        calls, returned := (call, .error (.exited c.name)) :: (t.shared.client i).returned } ∧
      ∀ moves t'', t'.run moves = some t'' → t''.shared.session = t.shared.session

theorem Kept.at_exit (h : t.Kept c before) (allowed : t.step .serveExit = some t') :
    t.shared.pushes = [] ∧ t.shared.clears = [] ∧
      ∃ i mode, (t.shared.client i).phase = .waiting (.exit mode) ∧
        ∀ j, j ≠ i → (t.shared.client j).phase = .idle := by
  rw [Tally.step, Option.map_eq_some_iff] at allowed
  obtain ⟨s, stepped, -⟩ := allowed
  cases Shared.step_moves stepped with
  | @exited i mode exits on first =>
    have waiting := h.guarded.first_exit first
    have idle : ∀ j, j ≠ i → t.shared.phase j = .idle := fun j other =>
      h.guarded.alone_at_exit waiting other
    have nobody : ∀ j call, t.shared.phase j = .waiting call → call = .exit mode := by
      intro j call waits
      by_cases other : j = i
      · rw [other, waiting] at waits
        exact (Phase.waiting.inj waits).symm
      · rw [idle j other] at waits
        cases waits
    refine ⟨?_, ?_, i, mode, waiting, idle⟩
    · rw [List.eq_nil_iff_forall_not_mem]
      rintro ⟨j, m⟩ member
      cases nobody j _ ((h.guarded.pushing j m).1 member)
    · rw [List.eq_nil_iff_forall_not_mem]
      intro j member
      cases nobody j _ ((h.guarded.clearing j).1 member)

theorem Kept.after_exit (h : t.Kept c before) (stopped : t.shared.running = false) {i : Nat}
    (allowed : t.step (.begin i) = some t') :
    ∃ call calls, (t.shared.client i).calls = call :: calls ∧
      t'.shared.client i = { t.shared.client i with
        calls, returned := (call, .error (.exited c.name)) :: (t.shared.client i).returned } ∧
      ∀ moves t'', t'.run moves = some t'' → t''.shared.session = t.shared.session := by
  rw [Tally.step, Option.map_eq_some_iff] at allowed
  obtain ⟨s, stepped, rfl⟩ := allowed
  have moves := Shared.step_moves stepped
  cases moves with
  | @refused _ x call calls found idle next may _ =>
    have ceased := h.guarded.over_of_may stopped may
    refine ⟨call, calls, ?_, ?_, fun later t'' ran => ?_⟩
    · rw [Shared.client_eq found, next]
    · simp only [Shared.client_setClient found, Function.update_self, Shared.client_eq found,
        h.config]
    · exact Shared.run_over (s := t.shared.setClient i _) ceased (run_shared ran)
  | guarded found idle next may running =>
    rw [stopped] at running
    cases running

theorem Kept.protocol (h : t.Kept c before) : t.Protocol c before where
  puts := h.puts
  takes := h.takes
  in_order := h.takes.in_order h.puts
  turns := h.turns
  at_exit := fun _ allowed => h.at_exit allowed
  after_exit := fun stopped _ _ allowed => h.after_exit stopped allowed

/-- **Whoever uses a queue, and whenever, can rely on its protocol**, from the moment at which it was
opened on whatever disk. What was taken is what waited then and what was put since, if the queue was
sound and has room throughout. -/
theorem handle_protocol {d : Disk} {q : Queue} (opened : (Queue.openOn d c).1 = .ok q)
    (calls : Array (List Request)) (consumers : Array Nat)
    (ran : (start q.session calls consumers).shared.run moves = some s) :
    ∃ t, (start q.session calls consumers).run moves = some t ∧ t.shared = s ∧
      t.Protocol c q.session.log.frames ∧
      ∀ dir k, q.Waits c dir k → c.Sound →
        (start q.session calls consumers).shared.RoomThroughout moves →
          t.taken.Sublist (k.laid c ++ t.put) := by
  obtain ⟨t, tallied, shared⟩ := run_of_shared ran
  obtain ⟨poised, config⟩ := Session.poised_openOn opened
  have kept := (kept_start poised calls consumers).run tallied
  rw [config] at kept
  refine ⟨t, tallied, shared, kept.protocol, fun dir k waits sound room => ?_⟩
  have alive : Queue.Waits { session := q.session } c dir k := ⟨rfl, waits.config, waits.waits⟩
  exact ((follows_start alive calls consumers).run sound room tallied).taken

/-- Two producers that push together and both end the queue, and a consumer that takes what was put
before the second call to end it is refused. -/
theorem handle_protocol_narrow : ∃ (q : Queue) (s : Shared) (t : Tally),
    (Queue.openOn .blank .narrow).1 = .ok q ∧
    (start q.session #[[.push [1], .exit .close, .push [4]], [.push [2, 2], .exit .delete]]
      #[2]).shared.run [.begin 0, .begin 1, .send 1, .send 0, .servePush, .tick, .servePush,
        .deliver 0, .finish 1, .finish 0, .begin 0, .send 0, .deliver 0, .serveExit, .finish 0,
        .begin 1, .begin 0] = some s ∧
    t.shared = s ∧ t.Protocol .narrow q.session.log.frames ∧
    s.delivered = [(0, [1]), (0, [2, 2])] ∧ t.taken.Sublist t.put := by
  obtain ⟨calls, calls_eq⟩ : ∃ calls : Array (List Request), calls =
      #[[.push [1], .exit .close, .push [4]], [.push [2, 2], .exit .delete]] := ⟨_, rfl⟩
  obtain ⟨moves, moves_eq⟩ : ∃ moves : List Move, moves = [.begin 0, .begin 1, .send 1, .send 0,
      .servePush, .tick, .servePush, .deliver 0, .finish 1, .finish 0, .begin 0, .send 0,
      .deliver 0, .serveExit, .finish 0, .begin 1, .begin 0] := ⟨_, rfl⟩
  obtain ⟨q, opened, waits⟩ := Queue.Waits.of_opened Disk.blank_fresh Config.narrow_sound
  have ran : ((Queue.openOn .blank .narrow).1.toOption.bind fun q =>
      ((start q.session calls #[2]).shared.run moves).map (·.delivered)) =
        some [(0, [1]), (0, [2, 2])] := by
    subst calls_eq moves_eq
    decide +kernel
  have room : ∀ q ∈ (Queue.openOn .blank .narrow).1.toOption,
      (start q.session calls #[2]).shared.RoomThroughout moves := by
    subst calls_eq moves_eq
    decide +kernel
  have there : (Queue.openOn .blank .narrow).1.toOption = some q := by
    rw [opened]
    rfl
  rw [there, Option.bind_some, Option.map_eq_some_iff] at ran
  obtain ⟨s, ran, delivered⟩ := ran
  obtain ⟨t, -, shared, protocol, follows⟩ :=
    handle_protocol (congrArg Prod.fst opened) calls #[2] ran
  subst calls_eq moves_eq
  refine ⟨q, s, t, congrArg Prod.fst opened, ran, shared, protocol, delivered, ?_⟩
  exact follows _ _ waits Config.narrow_sound (room q there)

end Tally

end DurableQueue
