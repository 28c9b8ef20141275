import DurableQueue.Shared
import Mathlib.Logic.Function.Basic

/-!
# Guards and channels

What a move of a shared queue does is said once (`Shared.Moves`, `step_moves`), in terms of the one
client that it changes. From it comes what is true of every state that the clients, the consumers and
the loop can bring about (`Shared.Guarded`, `Guarded.step`): a call that holds its guard alone is the
only one that holds any, each request on its way belongs to one client that waits for its answer, and
from the moment at which a call to end the queue takes its guard no other call holds one until the
queue has ended.
-/

namespace DurableQueue

/-- What a client was answered so far, the first answer first. -/
def Client.answers (c : Client) : List (Request × Except Error Unit) :=
  c.returned.reverse ++
    match c.phase with
    | .answered call result => [(call, result)]
    | .idle | .guarded _ | .waiting _ => []

/-- The call during which a client in this phase holds a guard. -/
def Phase.call? : Phase → Option Request
  | idle => none
  | guarded call | waiting call | answered call _ => some call

theorem Client.guarding_eq (c : Client) : c.guarding = c.phase.call? := by
  unfold guarding Phase.call?
  cases c.phase <;> rfl

namespace Request

/-- Whether a call ends the queue. -/
def isExit : Request → Bool
  | exit _ => true
  | push _ | clear => false

end Request

namespace Shared

/-- The client at an index; one that is not there has no calls to make. -/
def client (s : Shared) (i : Nat) : Client := s.clients[i]?.getD { calls := [] }

/-- The state after a client sent its request. -/
def sent (s : Shared) (i : Nat) : Request → Shared
  | .push message => { s with pushes := s.pushes ++ [(i, message)] }
  | .clear => { s with clears := s.clears ++ [i] }
  | .exit mode => { s with exits := s.exits ++ [(i, mode)] }

variable {s s' : Shared} {i j : Nat} {c : Client} {call : Request}

theorem client_eq (found : s.clients[i]? = some c) : s.client i = c := by
  rw [client, found, Option.getD_some]

theorem client_setClient (found : s.clients[i]? = some c) (c' : Client) :
    (s.setClient i c').client = Function.update s.client i c' := by
  obtain ⟨inside, -⟩ := Array.getElem?_eq_some_iff.1 found
  funext j
  by_cases e : j = i
  · subst e
    rw [Function.update_self]
    simp [client, setClient, inside]
  · rw [Function.update_of_ne e]
    simp [client, setClient, Ne.symm e]

/-- An answer reaches the client that waits for it. -/
theorem client_answer (waiting : (s.client i).phase = .waiting call) (result : Except Error Unit) :
    (s.answer i result).client =
      Function.update s.client i { s.client i with phase := .answered call result } := by
  funext j
  by_cases e : j = i
  · subst e
    rw [Function.update_self]
    rw [client] at waiting ⊢
    cases found : s.clients[j]? with
    | none =>
      rw [found] at waiting
      cases waiting
    | some c =>
      rw [found, Option.getD_some] at waiting
      simp [answer, Array.getElem?_modify, found, waiting, client]
  · rw [Function.update_of_ne e]
    simp [client, answer, Array.getElem?_modify, Ne.symm e]

theorem mem_guards : call ∈ s.guards ↔ ∃ i, (s.client i).phase.call? = some call := by
  rw [guards, List.mem_filterMap]
  constructor
  · rintro ⟨c, member, holds⟩
    obtain ⟨i, found⟩ := List.mem_iff_getElem?.1 member
    rw [Array.getElem?_toList] at found
    exact ⟨i, by rw [client_eq found, ← Client.guarding_eq]; exact holds⟩
  · rintro ⟨i, holds⟩
    rw [client] at holds
    cases found : s.clients[i]? with
    | none =>
      rw [found] at holds
      cases holds
    | some c =>
      rw [found, Option.getD_some, ← Client.guarding_eq] at holds
      refine ⟨c, List.mem_iff_getElem?.2 ⟨i, ?_⟩, holds⟩
      rw [Array.getElem?_toList]
      exact found

/-- A call takes its guard alone, or together with calls that do not need it alone. -/
theorem mayGuard_iff : s.mayGuard call = true ↔
    ∀ i held, (s.client i).phase.call? = some held →
      call.isExclusive = false ∧ held.isExclusive = false := by
  rw [mayGuard]
  split
  · next alone =>
    rw [List.isEmpty_iff, List.eq_nil_iff_forall_not_mem]
    constructor
    · intro none i held holds
      exact absurd (mem_guards.2 ⟨i, holds⟩) (none held)
    · intro all held member
      obtain ⟨i, holds⟩ := mem_guards.1 member
      rw [(all i held holds).1] at alone
      cases alone
  · next shared =>
    simp only [List.all_eq_true, Bool.not_eq_eq_eq_not, Bool.not_true]
    constructor
    · exact fun all i held holds => ⟨by simpa using shared, all held (mem_guards.2 ⟨i, holds⟩)⟩
    · intro all held member
      obtain ⟨i, holds⟩ := mem_guards.1 member
      exact (all i held holds).2

/-- What a move does. -/
inductive Moves (s : Shared) : Move → Shared → Prop where
  | refused {i : Nat} {c : Client} {call : Request} {calls : List Request} (found : s.clients[i]? = some c)
    (idle : c.phase = .idle) (next : c.calls = call :: calls) (may : s.mayGuard call = true)
    (stopped : s.running = false) :
    Moves s (.begin i) (s.setClient i { c with
      calls
      returned := (call, .error (.exited s.session.log.config.name)) :: c.returned })
  | guarded {i : Nat} {c : Client} {call : Request} {calls : List Request} (found : s.clients[i]? = some c)
    (idle : c.phase = .idle) (next : c.calls = call :: calls) (may : s.mayGuard call = true)
    (running : s.running = true) :
    Moves s (.begin i) { s.setClient i { c with calls, phase := .guarded call } with
      running := !call.isExit }
  | sent {i : Nat} {c : Client} {call : Request} (found : s.clients[i]? = some c)
    (holds : c.phase = .guarded call) :
    Moves s (.send i) ((s.setClient i { c with phase := .waiting call }).sent i call)
  | finished {i : Nat} {c : Client} {call : Request} {result : Except Error Unit}
    (found : s.clients[i]? = some c) (holds : c.phase = .answered call result) :
    Moves s (.finish i)
      (s.setClient i { c with phase := .idle, returned := (call, result) :: c.returned })
  | pushed {i : Nat} {m : Bytes} {pushes : List (Nat × Bytes)} (on : s.ended = none)
    (first : s.pushes = (i, m) :: pushes) :
    Moves s .servePush ({ s with
      session := (s.session.push m).2, pushes
      appended := match (s.session.push m).1 with
        | .ok () => (i, m) :: s.appended
        | .error _ => s.appended }.answer i (s.session.push m).1)
  | cleared {i : Nat} {clears : List Nat} (on : s.ended = none) (first : s.clears = i :: clears) :
    Moves s .serveClear
      ({ s with session := s.session.clear.2, clears }.answer i s.session.clear.1)
  | exited {i : Nat} {mode : ExitMode} {exits : List (Nat × ExitMode)} (on : s.ended = none)
    (first : s.exits = (i, mode) :: exits) :
    Moves s .serveExit ({ s with
      session := (s.session.finish mode).2, exits
      ended := some (s.session.finish mode).1 }.answer i (s.session.finish mode).1)
  | delivered {j wants : Nat} {m : Bytes} {session : Session} (on : s.ended = none)
    (found : s.consumers[j]? = some (wants + 1)) (offered : s.session.deliver = some (m, session)) :
    Moves s (.deliver j) { s with
      session, consumers := s.consumers.setIfInBounds j wants
      delivered := (j, m) :: s.delivered }
  | ticked (on : s.ended = none) : Moves s .tick { s with session := s.session.tick }

theorem step_moves {move : Move} (allowed : s.step move = some s') : s.Moves move s' := by
  cases move with
  | begin i =>
    rw [step, Option.bind_eq_bind, Option.bind_eq_some_iff] at allowed
    obtain ⟨c, found, allowed⟩ := allowed
    split at allowed
    · next call calls idle next =>
      by_cases may : s.mayGuard call = true
      · by_cases running : s.running = true
        · simp only [if_pos may, if_pos running, Option.some.injEq] at allowed
          have moved := Moves.guarded found idle next may running
          cases call with
          | exit mode => exact allowed ▸ moved
          | push m =>
            rw [← allowed]
            cases s
            cases running
            exact moved
          | clear =>
            rw [← allowed]
            cases s
            cases running
            exact moved
        · simp only [if_pos may, if_neg running, Option.some.injEq] at allowed
          rw [← allowed]
          exact .refused found idle next may (Bool.eq_false_iff.2 running)
      · rw [if_neg may] at allowed
        cases allowed
    · cases allowed
  | send i =>
    rw [step, Option.bind_eq_bind, Option.bind_eq_some_iff] at allowed
    obtain ⟨c, found, allowed⟩ := allowed
    split at allowed
    · next call holds =>
      rw [Option.some.injEq] at allowed
      rw [← allowed]
      have moved := Moves.sent found holds
      cases call <;> exact moved
    · cases allowed
  | finish i =>
    rw [step, Option.bind_eq_bind, Option.bind_eq_some_iff] at allowed
    obtain ⟨c, found, allowed⟩ := allowed
    split at allowed
    · next call result holds =>
      rw [Option.some.injEq] at allowed
      rw [← allowed]
      exact .finished found holds
    · cases allowed
  | servePush =>
    rw [step] at allowed
    split at allowed
    · next i m pushes on first =>
      rw [Option.some.injEq] at allowed
      rw [← allowed]
      exact .pushed on first
    · cases allowed
  | serveClear =>
    rw [step] at allowed
    split at allowed
    · next i clears on first =>
      rw [Option.some.injEq] at allowed
      rw [← allowed]
      exact .cleared on first
    · cases allowed
  | serveExit =>
    rw [step] at allowed
    split at allowed
    · next i mode exits on first =>
      rw [Option.some.injEq] at allowed
      rw [← allowed]
      exact .exited on first
    · cases allowed
  | deliver j =>
    rw [step, Option.bind_eq_bind, Option.bind_eq_some_iff] at allowed
    obtain ⟨wants, found, allowed⟩ := allowed
    split at allowed
    · next wants m session on offered =>
      rw [Option.some.injEq] at allowed
      rw [← allowed]
      exact .delivered on found offered
    · cases allowed
  | tick =>
    rw [step] at allowed
    split at allowed
    · next on =>
      rw [Option.some.injEq] at allowed
      rw [← allowed]
      exact .ticked (Option.isNone_iff_eq_none.1 on)
    · cases allowed

/-- Where the client at an index stands. -/
def phase (s : Shared) (i : Nat) : Phase := (s.client i).phase

/-- What is true of the calls and the requests in every state. -/
structure Guarded (s : Shared) : Prop where
  /-- A call that holds its guard alone is the only one that holds any. -/
  alone : ∀ i j call held, (s.phase i).call? = some call → call.isExclusive = true →
    (s.phase j).call? = some held → j = i
  pushing : ∀ i m, (i, m) ∈ s.pushes ↔ s.phase i = .waiting (.push m)
  clearing : ∀ i, i ∈ s.clears ↔ s.phase i = .waiting .clear
  exiting : ∀ i mode, (i, mode) ∈ s.exits ↔ s.phase i = .waiting (.exit mode)
  pushes_once : (s.pushes.map Prod.fst).Nodup
  clears_once : s.clears.Nodup
  exits_once : (s.exits.map Prod.fst).Nodup
  /-- As long as the queue runs, no call to end it holds a guard. -/
  running : s.running = true → s.ended = none ∧ ∀ i call, (s.phase i).call? = some call →
    call.isExit = false
  /-- The call that ends the queue holds its guard until the queue has ended. -/
  ending : s.running = false → s.ended = none →
    ∃ i mode, s.phase i = .guarded (.exit mode) ∨ s.phase i = .waiting (.exit mode)
  /-- Once the queue has ended, nobody waits for an answer. -/
  ended : s.ended.isSome = true → ∀ i call, s.phase i ≠ .guarded call ∧ s.phase i ≠ .waiting call

theorem phase_setClient (found : s.clients[i]? = some c) (c' : Client) :
    (s.setClient i c').phase = Function.update s.phase i c'.phase := by
  funext j
  simp only [phase, client_setClient found, Function.update_apply]
  split <;> rfl

theorem phase_answer (waiting : s.phase i = .waiting call) (result : Except Error Unit) :
    (s.answer i result).phase = Function.update s.phase i (.answered call result) := by
  funext j
  simp only [phase, client_answer waiting, Function.update_apply]
  split <;> rfl

/-- A client that changes nothing but what it still has to do and what it was answered. -/
theorem Guarded.same (h : s.Guarded) (phases : s'.phase = s.phase) (pushes : s'.pushes = s.pushes)
    (clears : s'.clears = s.clears) (exits : s'.exits = s.exits) (running : s'.running = s.running)
    (ended : s'.ended = s.ended) : s'.Guarded := by
  obtain ⟨alone, pushing, clearing, exiting, once₁, once₂, once₃, run, ending, ceased⟩ := h
  constructor
  all_goals simp only [phases, pushes, clears, exits, running, ended]
  all_goals assumption

/-- A call takes its guard. If it is to end the queue it is the only one from now on. -/
theorem Guarded.begin (h : s.Guarded) {calls : List Request} (found : s.clients[i]? = some c)
    (idle : c.phase = .idle) (may : s.mayGuard call = true) (running : s.running = true) :
    Guarded { s.setClient i { c with calls, phase := .guarded call } with
      running := !call.isExit } := by
  have phases : ({ s.setClient i { c with calls, phase := .guarded call } with
      running := !call.isExit } : Shared).phase = Function.update s.phase i (.guarded call) :=
    phase_setClient found _
  have free : ∀ j held, (s.phase j).call? = some held →
      call.isExclusive = false ∧ held.isExclusive = false := mayGuard_iff.1 may
  have was : s.phase i = .idle := by rw [phase, client_eq found, idle]
  obtain ⟨on, living⟩ := h.running running
  constructor
  case pushes_once => exact h.pushes_once
  case clears_once => exact h.clears_once
  case exits_once => exact h.exits_once
  all_goals rw [phases]
  case alone => grind [Function.update_apply, Phase.call?, h.alone]
  case pushing => grind [Function.update_apply, h.pushing, setClient]
  case clearing => grind [Function.update_apply, h.clearing, setClient]
  case exiting => grind [Function.update_apply, h.exiting, setClient]
  case running =>
    intro goes
    refine ⟨on, fun j held holds => ?_⟩
    grind [Function.update_apply, Phase.call?]
  case ending =>
    intro stops _
    cases call with
    | exit mode => exact ⟨i, mode, Or.inl (Function.update_self ..)⟩
    | push m => cases stops
    | clear => cases stops
  case ended =>
    intro ceased
    simp only [setClient, on] at ceased
    cases ceased

/-- A client sends its request and waits. -/
theorem Guarded.send (h : s.Guarded) (found : s.clients[i]? = some c)
    (holds : c.phase = .guarded call) :
    ((s.setClient i { c with phase := .waiting call }).sent i call).Guarded := by
  have phases : ((s.setClient i { c with phase := .waiting call }).sent i call).phase =
      Function.update s.phase i (.waiting call) := by
    cases call <;> exact phase_setClient found _
  have was : s.phase i = .guarded call := by rw [phase, client_eq found, holds]
  have on : s.ended = none := by
    rw [← Option.not_isSome_iff_eq_none]
    exact fun ceased => (h.ended ceased i call).1 was
  have calls : ∀ j, (Function.update s.phase i (.waiting call) j).call? = (s.phase j).call? := by
    grind [Function.update_apply, Phase.call?]
  constructor
  all_goals try rw [phases]
  case alone =>
    simp only [calls]
    exact h.alone
  case pushing => cases call <;> grind [Function.update_apply, h.pushing, sent, setClient]
  case clearing => cases call <;> grind [Function.update_apply, h.clearing, sent, setClient]
  case exiting => cases call <;> grind [Function.update_apply, h.exiting, sent, setClient]
  case pushes_once => cases call <;> grind [h.pushing, h.pushes_once, sent, setClient]
  case clears_once => cases call <;> grind [h.clearing, h.clears_once, sent, setClient]
  case exits_once => cases call <;> grind [h.exiting, h.exits_once, sent, setClient]
  case running =>
    simp only [calls]
    intro goes
    cases call <;> exact h.running goes
  case ending =>
    intro stops _
    obtain ⟨j, mode, standing⟩ := h.ending (by cases call <;> exact stops) on
    grind [Function.update_apply]
  case ended =>
    intro ceased
    have none : ((s.setClient i { c with phase := .waiting call }).sent i call).ended = none := by
      cases call <;> exact on
    rw [none] at ceased
    cases ceased

/-- A client that has its answer gives its guard back. -/
theorem Guarded.finish (h : s.Guarded) {result : Except Error Unit} (found : s.clients[i]? = some c)
    (holds : c.phase = .answered call result) :
    (s.setClient i { c with phase := .idle, returned := (call, result) :: c.returned }).Guarded := by
  have phases : (s.setClient i { c with
      phase := .idle, returned := (call, result) :: c.returned }).phase =
        Function.update s.phase i .idle := phase_setClient found _
  have was : s.phase i = .answered call result := by rw [phase, client_eq found, holds]
  constructor
  case pushes_once => exact h.pushes_once
  case clears_once => exact h.clears_once
  case exits_once => exact h.exits_once
  all_goals rw [phases]
  case alone => grind [Function.update_apply, Phase.call?, h.alone]
  case pushing => grind [Function.update_apply, h.pushing, setClient]
  case clearing => grind [Function.update_apply, h.clearing, setClient]
  case exiting => grind [Function.update_apply, h.exiting, setClient]
  case running =>
    intro goes
    obtain ⟨on, living⟩ := h.running goes
    refine ⟨on, fun j held holds => ?_⟩
    grind [Function.update_apply, Phase.call?]
  case ending =>
    intro stops on
    obtain ⟨j, mode, standing⟩ := h.ending stops on
    have other : j ≠ i := by
      rintro rfl
      rw [was] at standing
      rcases standing with e | e <;> cases e
    exact ⟨j, mode, by rwa [Function.update_of_ne other]⟩
  case ended =>
    intro ceased j call
    have still := h.ended ceased j call
    grind [Function.update_apply]

/-- The loop answers a request that it took off its channel, and goes on. -/
theorem Guarded.served (h : s.Guarded) (on : s.ended = none) (waiting : s.phase i = .waiting call)
    (living : call.isExit = false) {result : Except Error Unit}
    (phases : s'.phase = Function.update s.phase i (.answered call result))
    (pushing : ∀ j m, (j, m) ∈ s'.pushes ↔ (j, m) ∈ s.pushes ∧ j ≠ i)
    (pushes_once : (s'.pushes.map Prod.fst).Nodup)
    (clearing : ∀ j, j ∈ s'.clears ↔ j ∈ s.clears ∧ j ≠ i) (clears_once : s'.clears.Nodup)
    (exits : s'.exits = s.exits) (running : s'.running = s.running) (ended : s'.ended = s.ended) :
    s'.Guarded := by
  have calls : ∀ j, (Function.update s.phase i (.answered call result) j).call? =
      (s.phase j).call? := by
    grind [Function.update_apply, Phase.call?]
  constructor
  case pushes_once => exact pushes_once
  case clears_once => exact clears_once
  case exits_once =>
    rw [exits]
    exact h.exits_once
  all_goals simp only [phases, exits, running, ended, on]
  case alone =>
    simp only [calls]
    exact h.alone
  case pushing => grind [Function.update_apply, h.pushing]
  case clearing => grind [Function.update_apply, h.clearing]
  case exiting => grind [Function.update_apply, h.exiting, Request.isExit]
  case running =>
    simp only [calls]
    exact fun goes => ⟨trivial, (h.running goes).2⟩
  case ending =>
    intro stops _
    obtain ⟨j, mode, standing⟩ := h.ending stops on
    grind [Function.update_apply, Request.isExit]
  case ended => exact fun ceased => by cases ceased

/-- When the loop comes to a call that ends the queue, no other client is in a call. -/
theorem Guarded.alone_at_exit (h : s.Guarded) {mode : ExitMode}
    (waiting : s.phase i = .waiting (.exit mode)) (other : j ≠ i) : s.phase j = .idle := by
  cases stands : s.phase j with
  | idle => rfl
  | guarded held | waiting held | answered held r =>
    refine absurd (h.alone i j (.exit mode) held ?_ rfl ?_) other
    · rw [waiting]
      rfl
    · rw [stands]
      rfl

/-- The first call to end the queue that is on its way is from a client that waits. -/
theorem Guarded.first_exit (h : s.Guarded) {mode : ExitMode} {exits : List (Nat × ExitMode)}
    (first : s.exits = (i, mode) :: exits) : s.phase i = .waiting (.exit mode) := by
  rw [← h.exiting, first]
  exact List.mem_cons_self

/-- The loop ends. -/
theorem Guarded.ends (h : s.Guarded) {mode : ExitMode} {exits : List (Nat × ExitMode)}
    (first : s.exits = (i, mode) :: exits) {result : Except Error Unit}
    (phases : s'.phase = Function.update s.phase i (.answered (.exit mode) result))
    (pushes : s'.pushes = s.pushes) (clears : s'.clears = s.clears) (rest : s'.exits = exits)
    (running : s'.running = s.running) (ended : s'.ended.isSome = true) : s'.Guarded := by
  have waiting := h.first_exit first
  have others : ∀ j, j ≠ i → s.phase j = .idle := fun j other => h.alone_at_exit waiting other
  have once := h.exits_once
  rw [first, List.map_cons, List.nodup_cons] at once
  constructor
  case pushes_once =>
    rw [pushes]
    exact h.pushes_once
  case clears_once =>
    rw [clears]
    exact h.clears_once
  case exits_once =>
    rw [rest]
    exact once.2
  all_goals simp only [phases, pushes, clears, rest, running]
  case alone => grind [Function.update_apply, Phase.call?]
  case pushing => grind [Function.update_apply, h.pushing]
  case clearing => grind [Function.update_apply, h.clearing]
  case exiting => grind [Function.update_apply, h.exiting]
  case running =>
    intro goes
    have living := (h.running goes).2 i (.exit mode) (by rw [waiting]; rfl)
    cases living
  case ending =>
    intro _ on
    rw [on] at ended
    cases ended
  case ended => grind [Function.update_apply]

/-- The first push on its way is from a client that waits, and no other push is from it. -/
theorem Guarded.first_push (h : s.Guarded) {m : Bytes} {pushes : List (Nat × Bytes)}
    (first : s.pushes = (i, m) :: pushes) : s.phase i = .waiting (.push m) ∧
      (pushes.map Prod.fst).Nodup ∧ ∀ j m', (j, m') ∈ pushes ↔ (j, m') ∈ s.pushes ∧ j ≠ i := by
  have waiting : s.phase i = .waiting (.push m) := by
    rw [← h.pushing, first]
    exact List.mem_cons_self
  have once := h.pushes_once
  rw [first, List.map_cons, List.nodup_cons] at once
  refine ⟨waiting, once.2, fun j m' => ?_⟩
  have absent : ∀ m', (i, m') ∉ pushes := fun m' member =>
    once.1 (List.mem_map.2 ⟨(i, m'), member, rfl⟩)
  rw [first]
  grind

theorem Guarded.first_clear (h : s.Guarded) {clears : List Nat} (first : s.clears = i :: clears) :
    s.phase i = .waiting .clear ∧ clears.Nodup ∧ ∀ j, j ∈ clears ↔ j ∈ s.clears ∧ j ≠ i := by
  have waiting : s.phase i = .waiting .clear := by
    rw [← h.clearing, first]
    exact List.mem_cons_self
  have once := h.clears_once
  rw [first, List.nodup_cons] at once
  refine ⟨waiting, once.2, fun j => ?_⟩
  rw [first]
  grind

/-- **Every move keeps the guards and the channels in order.** -/
theorem Guarded.step (h : s.Guarded) {move : Move} (moves : s.Moves move s') : s'.Guarded := by
  cases moves with
  | refused found idle next may stopped =>
    refine h.same ?_ rfl rfl rfl rfl rfl
    rw [phase_setClient found, ← client_eq found]
    exact Function.update_eq_self ..
  | guarded found idle next may running => exact h.begin found idle may running
  | sent found holds => exact h.send found holds
  | finished found holds => exact h.finish found holds
  | @pushed i m pushes on first =>
    obtain ⟨waiting, once, rest⟩ := h.first_push first
    have others : ∀ j, j ∈ s.clears ↔ j ∈ s.clears ∧ j ≠ i := by
      intro j
      refine ⟨fun member => ⟨member, ?_⟩, And.left⟩
      rintro rfl
      rw [h.clearing, waiting] at member
      cases member
    exact h.served on waiting rfl (phase_answer waiting _) rest once others h.clears_once rfl rfl rfl
  | @cleared i clears on first =>
    obtain ⟨waiting, once, rest⟩ := h.first_clear first
    have others : ∀ j m, (j, m) ∈ s.pushes ↔ (j, m) ∈ s.pushes ∧ j ≠ i := by
      intro j m
      refine ⟨fun member => ⟨member, ?_⟩, And.left⟩
      rintro rfl
      rw [h.pushing, waiting] at member
      cases member
    generalize s.session.clear = cleared
    exact h.served on waiting rfl (phase_answer waiting _) others h.pushes_once rest once rfl rfl rfl
  | @exited i mode exits on first =>
    have waiting := h.first_exit first
    exact h.ends first (phase_answer waiting _) rfl rfl rfl rfl rfl
  | delivered on found offered => exact h.same rfl rfl rfl rfl rfl rfl
  | ticked on => exact h.same rfl rfl rfl rfl rfl rfl

end Shared

end DurableQueue
