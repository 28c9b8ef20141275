import DurableQueue.Proofs.Session.Poised
import DurableQueue.Proofs.Shared.Guards

/-!
# A tally of a shared queue

`Tally` is a shared queue with a note of what was done: which calls took their guard in which order,
where each accepted message was put, and from where each delivered one was taken. `Tally.Kept` is what
stays true of it, whatever the disk holds, whatever fails and whoever moves when (`Kept.step`,
`Kept.run`).
-/

namespace DurableQueue

open FileSystem

theorem Position.ordered_snoc {ps : List Position} {p : Position} (ordered : ps.Pairwise (· < ·))
    (behind : ∀ q ∈ ps, q < p) : (ps ++ [p]).Pairwise (· < ·) := by
  rw [List.pairwise_append]
  refine ⟨ordered, List.pairwise_singleton .., fun q hq r hr => ?_⟩
  rw [List.mem_singleton.1 hr]
  exact behind q hq

/-- A call that took its guard, and whether the queue still ran then. -/
structure Turn where
  client : Nat
  call : Request
  admitted : Bool

/-- A message that was accepted, whose it is and where its frame was put. -/
structure Put where
  client : Nat
  message : Bytes
  place : Position

/-- A message that was delivered, who took it and where its frame was. -/
structure Take where
  consumer : Nat
  message : Bytes
  place : Position

/-- The frame of an accepted message in its segment. -/
def Put.frame (c : Config) (p : Put) : String × Nat × Bytes :=
  (Naming.segmentPath c.dataPath c.name p.place.file, p.place.offset, Frame.encode p.message)

/-- Whether a call was answered that the queue has ended. -/
def saysExited : Except Error Unit → Bool
  | .error (.exited _) => true
  | _ => false

theorem saysExited_eq_false {result : Except Error Unit}
    (living : ∀ name, result ≠ .error (.exited name)) : saysExited result = false := by
  unfold saysExited
  split
  · next name => exact absurd rfl (living name)
  · rfl

namespace Client

/-- The messages of a client that were accepted, in the order of its calls. -/
def accepted (c : Client) : List Bytes :=
  c.answers.filterMap fun
    | (.push m, .ok ()) => some m
    | _ => none

/-- The call of a client that took its guard and has no answer yet. -/
def pending (c : Client) : List (Request × Bool) :=
  match c.phase with
  | .guarded call | .waiting call => [(call, true)]
  | .idle | .answered _ _ => []

/-- The calls of a client that took their guard, and whether each was let in. -/
def turns (c : Client) : List (Request × Bool) :=
  c.answers.map (fun a => (a.1, !saysExited a.2)) ++ c.pending

end Client

namespace Shared

/-- The call that takes its guard with a move. -/
def turnsOf (s : Shared) : Move → List Turn
  | .begin i => ((s.client i).calls.head?.map fun call => ⟨i, call, s.running⟩).toList
  | _ => []

/-- The message that is put into a segment with a move. -/
def putsOf (s : Shared) : Move → List Put
  | .servePush =>
    match s.pushes with
    | [] => []
    | (i, m) :: _ =>
      match (s.session.push m).1 with
      | .ok () => [⟨i, m, s.session.log.write⟩]
      | .error _ => []
  | _ => []

/-- The message that is taken with a move. -/
def takesOf (s : Shared) : Move → List Take
  | .deliver j => (s.session.staged.map fun m => ⟨j, m, s.session.log.read⟩).toList
  | _ => []

end Shared

/-- A shared queue and what was done, the earliest first. -/
structure Tally where
  shared : Shared
  turns : List Turn := []
  puts : List Put := []
  takes : List Take := []

namespace Tally

open Shared (Move)

/-- A session with its clients and consumers, before anybody moves. -/
def start (session : Session) (calls : Array (List Request)) (consumers : Array Nat) : Tally where
  shared := { session, clients := calls.map fun calls => { calls }, consumers }

/-- A move, if it is allowed, and what it adds. -/
def step (t : Tally) (move : Move) : Option Tally :=
  (t.shared.step move).map fun shared =>
    { shared
      turns := t.turns ++ t.shared.turnsOf move
      puts := t.puts ++ t.shared.putsOf move
      takes := t.takes ++ t.shared.takesOf move }

/-- Moves in turn, as long as they are allowed. -/
def run (t : Tally) : List Move → Option Tally
  | [] => some t
  | move :: moves => (t.step move).bind fun t => t.run moves

variable {t t' : Tally} {move : Move} {moves : List Move} {s : Shared} {c : Config}
  {before : List (String × Nat × Bytes)}

/-- Whatever moves a shared queue allows, its tally follows them. -/
theorem run_of_shared (ran : t.shared.run moves = some s) :
    ∃ t', t.run moves = some t' ∧ t'.shared = s := by
  induction moves generalizing t with
  | nil =>
    cases ran
    exact ⟨t, rfl, rfl⟩
  | cons move moves ih =>
    rw [Shared.run, Option.bind_eq_bind, Option.bind_eq_some_iff] at ran
    obtain ⟨s', allowed, rest⟩ := ran
    rw [run, step, allowed]
    exact ih (t := { t with
      shared := s', turns := t.turns ++ t.shared.turnsOf move
      puts := t.puts ++ t.shared.putsOf move, takes := t.takes ++ t.shared.takesOf move }) rest

/-! ### What a move does to its client -/

end Tally

namespace Client

variable {c : Client} {call : Request} {result : Except Error Unit}

theorem turns_refused (idle : c.phase = .idle) (calls : List Request) (name : String) :
    turns { c with calls, returned := (call, .error (.exited name)) :: c.returned } =
      c.turns ++ [(call, false)] := by
  simp [turns, answers, pending, idle, saysExited]

theorem turns_guarded (idle : c.phase = .idle) (calls : List Request) :
    turns { c with calls, phase := .guarded call } = c.turns ++ [(call, true)] := by
  simp [turns, answers, pending, idle]

theorem turns_sent (holds : c.phase = .guarded call) :
    turns { c with phase := .waiting call } = c.turns := by
  simp [turns, answers, pending, holds]

theorem turns_answered (waiting : c.phase = .waiting call) (living : saysExited result = false) :
    turns { c with phase := .answered call result } = c.turns := by
  simp [turns, answers, pending, waiting, living]

theorem answers_finished (holds : c.phase = .answered call result) :
    answers { c with phase := .idle, returned := (call, result) :: c.returned } = c.answers := by
  simp [answers, holds]

theorem turns_finished (holds : c.phase = .answered call result) :
    turns { c with phase := .idle, returned := (call, result) :: c.returned } = c.turns := by
  rw [turns, answers_finished holds, turns]
  simp [pending, holds]

theorem accepted_refused (idle : c.phase = .idle) (calls : List Request) (name : String) :
    accepted { c with calls, returned := (call, .error (.exited name)) :: c.returned } =
      c.accepted := by
  simp [accepted, answers, idle]

theorem accepted_guarded (idle : c.phase = .idle) (calls : List Request) :
    accepted { c with calls, phase := .guarded call } = c.accepted := by
  simp [accepted, answers, idle]

theorem accepted_sent (holds : c.phase = .guarded call) :
    accepted { c with phase := .waiting call } = c.accepted := by
  simp [accepted, answers, holds]

theorem accepted_answered (waiting : c.phase = .waiting call) :
    accepted { c with phase := .answered call result } = c.accepted ++
      match call, result with
      | .push m, .ok () => [m]
      | _, _ => [] := by
  simp only [accepted, answers, waiting, List.append_nil, List.filterMap_append]
  congr 1
  cases call <;> cases result <;> rfl

theorem accepted_finished (holds : c.phase = .answered call result) :
    accepted { c with phase := .idle, returned := (call, result) :: c.returned } = c.accepted := by
  rw [accepted, answers_finished holds, accepted]

end Client

namespace Shared

variable {s s' : Shared} {move : Move}

theorem client_sent {i : Nat} {c : Client} {call : Request} (found : s.clients[i]? = some c)
    (x : Client) : ((s.setClient i x).sent i call).client = Function.update s.client i x := by
  rw [← client_setClient found]
  cases call <;> rfl

/-- Every move of a poised queue leaves it poised and takes no cursor back. -/
theorem Moves.session (moves : s.Moves move s') (poised : s.ended = none → s.session.Poised) :
    s'.session.log.config = s.session.log.config ∧ s.session.log.Onward s'.session.log ∧
      (s'.ended = none → s'.session.Poised) := by
  have still : ∀ s₁ : Shared, s₁.session = s.session → s₁.ended = s.ended →
      s₁.session.log.config = s.session.log.config ∧ s.session.log.Onward s₁.session.log ∧
        (s₁.ended = none → s₁.session.Poised) := by
    intro s₁ session ended
    rw [session, ended]
    exact ⟨rfl, .refl _, poised⟩
  cases moves with
  | refused found idle next may stopped => exact still _ rfl rfl
  | guarded found idle next may running => exact still _ rfl rfl
  | @sent i c call found holds => cases call <;> exact still _ rfl rfl
  | finished found holds => exact still _ rfl rfl
  | @pushed i m pushes on first =>
    obtain ⟨-, config, onward, -, -, after⟩ | ⟨-, quiet, after⟩ := (poised on).push m
    · exact ⟨config, onward, fun _ => after⟩
    · exact ⟨quiet.config, quiet.onward, fun _ => after⟩
  | cleared on first =>
    obtain ⟨quiet, after⟩ := s.session.quiet_clear
    generalize s.session.clear = cleared at quiet after ⊢
    exact ⟨quiet.config, quiet.onward, fun _ => after⟩
  | @exited i mode exits on first =>
    have quiet := (poised on).finish mode
    exact ⟨quiet.config, quiet.onward, nofun⟩
  | delivered on found offered =>
    obtain ⟨quiet, -, after⟩ := (poised on).deliver offered
    exact ⟨quiet.config, quiet.onward, fun _ => after⟩
  | ticked on =>
    obtain ⟨quiet, after⟩ := (poised on).tick
    exact ⟨quiet.config, quiet.onward, fun _ => after⟩

end Shared

namespace Tally

open Shared (Move)

variable {t t' : Tally} {move : Move} {moves : List Move} {s : Shared} {c : Config}
  {before : List (String × Nat × Bytes)}

/-- The calls that took their guards are those of the clients, and none was let in after one had
ended the queue. -/
structure Turns (t : Tally) : Prop where
  each : ∀ i, (t.shared.client i).turns =
    (t.turns.filter (·.client = i)).map fun u => (u.call, u.admitted)
  admitted : ∀ earlier u later, t.turns = earlier ++ u :: later →
    (u.admitted = true ↔ ∀ v ∈ earlier, v.call.isExit = false)
  running : t.shared.running = true ↔ ∀ v ∈ t.turns, v.call.isExit = false

/-- The accepted messages of each client were put in the order of its calls, one after the other,
and nothing else was written to a segment. -/
structure Puts (t : Tally) (c : Config) (before : List (String × Nat × Bytes)) : Prop where
  each : ∀ i, (t.shared.client i).accepted = (t.puts.filter (·.client = i)).map (·.message)
  frames : t.shared.session.log.frames = before ++ t.puts.map (Put.frame c)
  appended : t.shared.appended = (t.puts.map fun p => (p.client, p.message)).reverse
  ordered : (t.puts.map (·.place)).Pairwise (· < ·)
  behind : ∀ p ∈ t.puts, p.place < t.shared.session.log.write

/-- Each message was taken from a place after those of the messages taken before it. -/
structure Takes (t : Tally) : Prop where
  delivered : t.shared.delivered = (t.takes.map fun x => (x.consumer, x.message)).reverse
  ordered : (t.takes.map (·.place)).Pairwise (· < ·)
  behind : ∀ x ∈ t.takes, x.place < t.shared.session.log.read

/-- What is true of a shared queue and its tally, whatever was done and whatever failed. -/
structure Kept (t : Tally) (c : Config) (before : List (String × Nat × Bytes)) : Prop where
  guarded : t.shared.Guarded
  config : t.shared.session.log.config = c
  poised : t.shared.ended = none → t.shared.session.Poised
  turns : t.Turns
  puts : t.Puts c before
  takes : t.Takes

/-- A move that changes at most how one client stands between its answers adds no turn. -/
theorem Turns.same (h : t.Turns) (noted : t'.turns = t.turns) {i : Nat} {x : Client}
    (clients : t'.shared.client = Function.update t.shared.client i x)
    (turns : x.turns = (t.shared.client i).turns) (running : t'.shared.running = t.shared.running) :
    t'.Turns := by
  refine ⟨fun j => ?_, by rw [noted]; exact h.admitted, by rw [noted, running]; exact h.running⟩
  rw [clients, noted, Function.update_apply]
  split
  · next e =>
    rw [turns, e]
    exact h.each i
  · exact h.each j

/-- A call takes its guard. -/
theorem Turns.snoc (h : t.Turns) {i : Nat} {x : Client} {call : Request}
    (noted : t'.turns = t.turns ++ [⟨i, call, t.shared.running⟩])
    (clients : t'.shared.client = Function.update t.shared.client i x)
    (turns : x.turns = (t.shared.client i).turns ++ [(call, t.shared.running)])
    (running : t'.shared.running = (t.shared.running && !call.isExit)) : t'.Turns := by
  constructor
  case each =>
    intro j
    rw [clients, noted, Function.update_apply, List.filter_append, List.map_append]
    split
    · next e =>
      subst e
      rw [turns, h.each]
      simp
    · next e =>
      rw [h.each j]
      simp [Ne.symm e]
  case admitted =>
    intro earlier u later split
    rw [noted] at split
    rcases List.eq_nil_or_concat later with rfl | ⟨rest, last, rfl⟩
    · obtain ⟨rfl, one⟩ := List.append_inj' split rfl
      cases one
      exact h.running
    · rw [List.concat_eq_append, ← List.cons_append, ← List.append_assoc] at split
      exact h.admitted earlier u rest (List.append_inj' split rfl).1
  case running =>
    rw [running, noted, Bool.and_eq_true, h.running]
    simp [or_imp, forall_and]

/-- **Every move keeps the turns in order.** -/
theorem Turns.step (h : t.Turns) (guarded : t.shared.Guarded)
    (poised : t.shared.ended = none → t.shared.session.Poised)
    (moves : t.shared.Moves move t'.shared)
    (noted : t'.turns = t.turns ++ t.shared.turnsOf move) : t'.Turns := by
  obtain ⟨s, turns, puts, takes⟩ := t'
  simp only at moves noted
  cases moves with
  | @refused i c call calls found idle next may stopped =>
    have begun : t.shared.turnsOf (.begin i) = [⟨i, call, t.shared.running⟩] := by
      rw [Shared.turnsOf, Shared.client_eq found, next]
      rfl
    rw [begun] at noted
    refine h.snoc noted (Shared.client_setClient found _) ?_ ?_
    · rw [stopped, Shared.client_eq found]
      exact Client.turns_refused idle calls _
    · rw [stopped]
      exact stopped
  | @guarded i c call calls found idle next may running =>
    have begun : t.shared.turnsOf (.begin i) = [⟨i, call, t.shared.running⟩] := by
      rw [Shared.turnsOf, Shared.client_eq found, next]
      rfl
    rw [begun] at noted
    refine h.snoc noted (Shared.client_setClient found _) ?_ ?_
    · rw [running, Shared.client_eq found]
      exact Client.turns_guarded idle calls
    · rw [running, Bool.true_and]
  | @sent i c call found holds =>
    simp only [Shared.turnsOf, List.append_nil] at noted
    refine h.same noted (Shared.client_sent found _) ?_ (by cases call <;> rfl)
    rw [Shared.client_eq found]
    exact Client.turns_sent holds
  | @finished i c call result found holds =>
    simp only [Shared.turnsOf, List.append_nil] at noted
    refine h.same noted (Shared.client_setClient found _) ?_ rfl
    rw [Shared.client_eq found]
    exact Client.turns_finished holds
  | @pushed i m pushes on first =>
    simp only [Shared.turnsOf, List.append_nil] at noted
    have waiting := (guarded.first_push first).1
    have living : ∀ name, (t.shared.session.push m).1 ≠ .error (.exited name) := by
      obtain ⟨ok, -⟩ | ⟨⟨e, error, living⟩, -⟩ := (poised on).push m
      · rw [ok]
        nofun
      · rw [error]
        intro name same
        cases same
        exact living name rfl
    exact h.same noted (Shared.client_answer waiting _)
      (Client.turns_answered waiting (saysExited_eq_false living)) rfl
  | @cleared i clears on first =>
    simp only [Shared.turnsOf, List.append_nil] at noted
    have waiting := (guarded.first_clear first).1
    have living : ∀ name, t.shared.session.clear.1 ≠ .error (.exited name) :=
      Session.deleteAll_ne_exited t.shared.session.log
    generalize t.shared.session.clear = cleared at living noted ⊢
    exact h.same noted (Shared.client_answer waiting _)
      (Client.turns_answered waiting (saysExited_eq_false living)) rfl
  | @exited i mode exits on first =>
    simp only [Shared.turnsOf, List.append_nil] at noted
    have waiting := guarded.first_exit first
    have living : ∀ name, (t.shared.session.finish mode).1 ≠ .error (.exited name) := by
      obtain ⟨told, ⟨-, answer, -⟩ | ⟨-, answer, -⟩⟩ := t.shared.session.finish_cases mode
      · rw [answer]
        exact Session.sync_ne_exited _
      · rw [answer]
        exact Session.deleteAll_ne_exited _
    exact h.same noted (Shared.client_answer waiting _)
      (Client.turns_answered waiting (saysExited_eq_false living)) rfl
  | delivered on found offered =>
    simp only [Shared.turnsOf, List.append_nil] at noted
    exact h.same (i := 0) noted (Function.update_eq_self ..).symm rfl rfl
  | ticked on =>
    simp only [Shared.turnsOf, List.append_nil] at noted
    exact h.same (i := 0) noted (Function.update_eq_self ..).symm rfl rfl

/-- A move that puts nothing. -/
theorem Puts.same (h : t.Puts c before) (noted : t'.puts = t.puts) {i : Nat} {x : Client}
    (clients : t'.shared.client = Function.update t.shared.client i x)
    (accepted : x.accepted = (t.shared.client i).accepted)
    (appended : t'.shared.appended = t.shared.appended)
    (frames : t'.shared.session.log.frames = t.shared.session.log.frames)
    (onward : t.shared.session.log.Onward t'.shared.session.log) : t'.Puts c before := by
  constructor
  case each =>
    intro j
    rw [clients, noted, Function.update_apply]
    split
    · next e =>
      rw [accepted, e]
      exact h.each i
    · exact h.each j
  case frames => rw [noted, frames, h.frames]
  case appended => rw [noted, appended, h.appended]
  case ordered =>
    rw [noted]
    exact h.ordered
  case behind =>
    intro p hp
    rw [noted] at hp
    exact Position.lt_of_lt_of_le (h.behind p hp) onward.write

/-- An accepted message is put at the write cursor. -/
theorem Puts.snoc (h : t.Puts c before) (config : t.shared.session.log.config = c) {i : Nat}
    {m : Bytes} {x : Client} (noted : t'.puts = t.puts ++ [⟨i, m, t.shared.session.log.write⟩])
    (clients : t'.shared.client = Function.update t.shared.client i x)
    (accepted : x.accepted = (t.shared.client i).accepted ++ [m])
    (appended : t'.shared.appended = (i, m) :: t.shared.appended)
    (frames : t'.shared.session.log.frames =
      t.shared.session.log.frames ++ [t.shared.session.log.frameOf m])
    (further : t.shared.session.log.write < t'.shared.session.log.write) : t'.Puts c before := by
  constructor
  case each =>
    intro j
    rw [clients, noted, Function.update_apply, List.filter_append, List.map_append]
    split
    · next e =>
      subst e
      rw [accepted, h.each]
      simp
    · next e =>
      rw [h.each j]
      simp [Ne.symm e]
  case frames =>
    rw [frames, noted, h.frames, List.map_append, List.append_assoc, ← config]
    rfl
  case appended =>
    rw [appended, noted, h.appended, List.map_append, List.reverse_append]
    rfl
  case ordered =>
    rw [noted, List.map_append]
    exact Position.ordered_snoc h.ordered (List.forall_mem_map.2 h.behind)
  case behind =>
    intro p hp
    rw [noted] at hp
    rcases List.mem_append.1 hp with old | new
    · exact Position.lt_of_lt_of_le (h.behind p old) (Position.le_of_lt further)
    · obtain rfl := List.mem_singleton.1 new
      exact further

/-- **Only a push that is accepted puts a message, and it puts it once.** -/
theorem Puts.step (h : t.Puts c before) (config : t.shared.session.log.config = c)
    (guarded : t.shared.Guarded) (poised : t.shared.ended = none → t.shared.session.Poised)
    (moves : t.shared.Moves move t'.shared) (noted : t'.puts = t.puts ++ t.shared.putsOf move) :
    t'.Puts c before := by
  obtain ⟨s, turns, puts, takes⟩ := t'
  simp only at moves noted
  have onward := (moves.session poised).2.1
  cases moves with
  | @refused i c call calls found idle next may stopped =>
    simp only [Shared.putsOf, List.append_nil] at noted
    refine h.same noted (Shared.client_setClient found _) ?_ rfl rfl onward
    rw [Shared.client_eq found]
    exact Client.accepted_refused idle calls _
  | @guarded i c call calls found idle next may running =>
    simp only [Shared.putsOf, List.append_nil] at noted
    refine h.same noted (Shared.client_setClient found _) ?_ rfl rfl onward
    rw [Shared.client_eq found]
    exact Client.accepted_guarded idle calls
  | @sent i c call found holds =>
    simp only [Shared.putsOf, List.append_nil] at noted
    refine h.same noted (Shared.client_sent found _) ?_ (by cases call <;> rfl)
      (by cases call <;> rfl) onward
    rw [Shared.client_eq found]
    exact Client.accepted_sent holds
  | @finished i c call result found holds =>
    simp only [Shared.putsOf, List.append_nil] at noted
    refine h.same noted (Shared.client_setClient found _) ?_ rfl rfl onward
    rw [Shared.client_eq found]
    exact Client.accepted_finished holds
  | @pushed i m pushes on first =>
    have waiting := (guarded.first_push first).1
    have accepted := @Client.accepted_answered (t.shared.client i) (.push m)
      (t.shared.session.push m).1 waiting
    simp only [Shared.putsOf, first] at noted
    obtain ⟨ok, -, -, further, frames, -⟩ | ⟨⟨e, error, -⟩, quiet, -⟩ := (poised on).push m
    · simp only [ok] at noted accepted
      refine h.snoc config noted (Shared.client_answer waiting _) ?_ ?_ frames further
      · rw [ok]
        exact accepted
      · rw [ok]
        rfl
    · simp only [error, List.append_nil] at noted accepted
      refine h.same noted (Shared.client_answer waiting _) ?_ ?_ quiet.frames onward
      · rw [error]
        exact accepted
      · rw [error]
        rfl
  | @cleared i clears on first =>
    simp only [Shared.putsOf, List.append_nil] at noted
    have waiting := (guarded.first_clear first).1
    have quiet := t.shared.session.quiet_clear.1
    generalize t.shared.session.clear = cleared at quiet onward noted ⊢
    refine h.same noted (Shared.client_answer waiting _) ?_ rfl quiet.frames onward
    rw [Client.accepted_answered waiting]
    exact List.append_nil _
  | @exited i mode exits on first =>
    simp only [Shared.putsOf, List.append_nil] at noted
    have waiting := guarded.first_exit first
    have quiet := (poised on).finish mode
    refine h.same noted (Shared.client_answer waiting _) ?_ rfl quiet.frames onward
    rw [Client.accepted_answered waiting]
    exact List.append_nil _
  | delivered on found offered =>
    simp only [Shared.putsOf, List.append_nil] at noted
    have quiet := ((poised on).deliver offered).1
    exact h.same (i := 0) noted (Function.update_eq_self ..).symm rfl rfl quiet.frames onward
  | ticked on =>
    simp only [Shared.putsOf, List.append_nil] at noted
    have quiet := (poised on).tick.1
    exact h.same (i := 0) noted (Function.update_eq_self ..).symm rfl rfl quiet.frames onward

/-- A move that takes nothing. -/
theorem Takes.same (h : t.Takes) (noted : t'.takes = t.takes)
    (delivered : t'.shared.delivered = t.shared.delivered)
    (onward : t.shared.session.log.Onward t'.shared.session.log) : t'.Takes := by
  refine ⟨by rw [noted, delivered, h.delivered], by rw [noted]; exact h.ordered, fun x hx => ?_⟩
  rw [noted] at hx
  exact Position.lt_of_lt_of_le (h.behind x hx) onward.read

/-- **No two deliveries take from one place.** -/
theorem Takes.step (h : t.Takes) (poised : t.shared.ended = none → t.shared.session.Poised)
    (moves : t.shared.Moves move t'.shared) (noted : t'.takes = t.takes ++ t.shared.takesOf move) :
    t'.Takes := by
  obtain ⟨s, turns, puts, takes⟩ := t'
  simp only at moves noted
  have onward := (moves.session poised).2.1
  cases moves with
  | @delivered j wants m session on found offered =>
    have staged := Session.staged_of_deliver offered
    obtain ⟨-, further, -⟩ := (poised on).deliver offered
    simp only [Shared.takesOf, staged, Option.map_some, Option.toList_some] at noted
    constructor
    case delivered =>
      simp only [noted, h.delivered, List.map_append, List.reverse_append]
      rfl
    case ordered =>
      simp only [noted]
      rw [List.map_append]
      exact Position.ordered_snoc h.ordered (List.forall_mem_map.2 h.behind)
    case behind =>
      intro x hx
      simp only [noted] at hx
      rcases List.mem_append.1 hx with old | new
      · exact Position.lt_of_lt_of_le (h.behind x old) (Position.le_of_lt further)
      · obtain rfl := List.mem_singleton.1 new
        exact further
  | @sent i c call found holds =>
    simp only [Shared.takesOf, List.append_nil] at noted
    exact h.same noted (by cases call <;> rfl) onward
  | refused found idle next may stopped | guarded found idle next may running
  | finished found holds | pushed on first | cleared on first | exited on first | ticked on =>
    simp only [Shared.takesOf, List.append_nil] at noted
    exact h.same noted rfl onward

/-- **Every move keeps what is true of a shared queue.** -/
theorem Kept.step (h : t.Kept c before) (allowed : t.step move = some t') : t'.Kept c before := by
  rw [Tally.step, Option.map_eq_some_iff] at allowed
  obtain ⟨s, stepped, rfl⟩ := allowed
  have moves := Shared.step_moves stepped
  obtain ⟨config, -, poised⟩ := moves.session h.poised
  exact ⟨h.guarded.step moves, config.trans h.config, poised,
    h.turns.step h.guarded h.poised moves rfl,
    h.puts.step h.config h.guarded h.poised moves rfl, h.takes.step h.poised moves rfl⟩

theorem Kept.run (h : t.Kept c before) (ran : t.run moves = some t') : t'.Kept c before := by
  induction moves generalizing t with
  | nil =>
    cases ran
    exact h
  | cons move moves ih =>
    rw [Tally.run, Option.bind_eq_some_iff] at ran
    obtain ⟨t₁, allowed, rest⟩ := ran
    exact ih (h.step allowed) rest

theorem kept_start {session : Session} (poised : session.Poised) (calls : Array (List Request))
    (consumers : Array Nat) :
    (start session calls consumers).Kept session.log.config session.log.frames := by
  have clients : ∀ i, ((start session calls consumers).shared.client i) =
      { calls := ((start session calls consumers).shared.client i).calls } := by
    intro i
    rw [Shared.client, start, Array.getElem?_map]
    cases calls[i]? <;> rfl
  have idle : ∀ i, (start session calls consumers).shared.phase i = .idle := by
    intro i
    rw [Shared.phase, clients]
  have guarded : (start session calls consumers).shared.Guarded := by
    constructor
    case pushes_once => exact List.nodup_nil
    case clears_once => exact List.nodup_nil
    case exits_once => exact List.nodup_nil
    all_goals simp only [idle]
    case alone => intros; contradiction
    case pushing => simp [start]
    case clearing => simp [start]
    case exiting => simp [start]
    case running => exact fun _ => ⟨rfl, by intros; contradiction⟩
    case ending => intros; contradiction
    case ended => intros; contradiction
  refine ⟨guarded, rfl, fun _ => poised, ?_, ?_, ?_⟩
  · constructor
    case each =>
      intro i
      rw [clients]
      rfl
    all_goals simp [start]
  · constructor
    case each =>
      intro i
      rw [clients]
      rfl
    all_goals simp [start]
  · constructor
    all_goals simp [start]

end Tally

end DurableQueue
