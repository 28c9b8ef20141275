import DurableQueue.Proofs.Queue.Fifo

/-!
# Queues at rest

Between two processes a queue is nothing but its files. They are at rest in a stage of the queue's
course if whoever opens the queue next finds it waiting in that stage (`Rests`): closing a queue
leaves such files (`Waits.rests`), deleting it leaves those of a new one (`Waits.deleted`), and a
directory with nothing in it holds them too (`rests_bare`).
-/

namespace DurableQueue.Queue

open FileSystem

variable {c : Config} {dir : Location} {q : Queue} {k : Course} {shelf : Shelf} {n : Nat}

/-- Whoever opens the queue with these files finds it waiting in a stage of its course. -/
def Rests (c : Config) (dir : Location) (k : Course) (shelf : Shelf) : Prop :=
  ∀ d : Disk, d.Serves c dir shelf → ∃ q, openOn d c = (.ok q, q.disk) ∧ q.Waits c dir k

theorem rests_bare (sound : c.Sound) (bare : Bare shelf) : Rests c dir {} shelf := by
  intro d serves
  obtain ⟨q, opened⟩ := openOn_bare serves sound bare
  exact ⟨q, opened.result_eq, opened.toHolds⟩

theorem Waits.rests (h : q.Waits c dir k) (sound : c.Sound) :
    ∃ left shelf, q.close = (.ok (), left) ∧ left.disk.Serves c dir shelf ∧ Rests c dir k shelf := by
  obtain ⟨left, staged, shelf, shelf', closed, -, keeps, done, stored, closing⟩ := h.closing sound
  have same : q.session.log.config = c := h.config
  refine ⟨left, shelf', closed, closing.toServes, fun d serves => ?_⟩
  rw [← same] at serves sound
  obtain ⟨q', opened⟩ := openOn_closed keeps sound done stored serves
  rw [same] at opened
  exact ⟨q', opened.result_eq, opened.toHolds⟩

theorem Waits.deleted (h : q.Waits c dir k) (sound : c.Sound) :
    ∃ left shelf, q.delete = (.ok (), left) ∧ left.running = false ∧
      left.disk.Serves c dir shelf ∧ Rests c dir {} shelf := by
  obtain ⟨running, rfl, shelf, holds⟩ := h
  obtain ⟨log, log_eq⟩ : ∃ log, log = q.session.log.tell .stopping := ⟨_, rfl⟩
  have told : log.Keeps dir shelf q.session.staged k.start k.accepted k.delivered := by
    rw [log_eq]
    exact Session.keeps_told holds.keeps ⟨q.session.log.needSync, _, rfl⟩
  have config : log.config = q.session.log.config := by rw [log_eq]; rfl
  obtain ⟨d, deleted, reached⟩ := Log.deleteAll_spec told.reads.serves (config ▸ sound)
    told.read_words.1 told.words.1
  have left : q.delete = (.ok (), { q with
      session := { q.session with
        log := Log.tell (Log.closeFiles { log.fresh with disk := d }) Notice.loopStopped }
      running := false }) := by
    simp only [Queue.delete, exit, running, if_true, Session.finish, ← log_eq, deleted]
  exact ⟨_, _, left, rfl, config ▸ reached.toServes, rests_bare sound told.bare_deleted⟩

/-! ### What a process does meanwhile -/

theorem push_of_step {m : Bytes} {result : Except Error Unit}
    (answer : (q.step (.push m)).1 = .pushed result) : q.push m = (result, (q.step (.push m)).2) :=
  Prod.ext (Answer.pushed.inj answer) rfl

theorem pop_of_step {taken : Taken} (answer : (q.step .pop).1 = .popped taken) :
    q.pop = (taken, (q.step .pop).2) :=
  Prod.ext (Answer.popped.inj answer) rfl

theorem clear_of_step {result : Except Error Unit} (answer : (q.step .clear).1 = .cleared result) :
    q.clear = (result, (q.step .clear).2) :=
  Prod.ext (Answer.cleared.inj answer) rfl

/-- Telling something changes nothing that waits. -/
theorem Waits.tell (h : q.Waits c dir k) (notice : Notice) :
    Waits { q with session := { q.session with log := q.session.log.tell notice } } c dir k := by
  obtain ⟨running, config, shelf, holds⟩ := h
  exact ⟨running, config, shelf,
    Session.keeps_told holds.keeps ⟨q.session.log.needSync, _, rfl⟩, holds.offer⟩

/-- Of the waiting messages the first are taken. -/
theorem Waits.popMany (h : q.Waits c dir k) (sound : c.Sound) (count : Nat) :
    (popMany count q).1 = k.waiting.take count ∧ ∃ u,
      (popMany count q).2.Waits c dir { k with delivered := u } ∧
      Course.waiting { k with delivered := u } = k.waiting.drop count := by
  induction count generalizing q k with
  | zero => exact ⟨rfl, k.delivered, h, rfl⟩
  | succ count ih =>
    cases waiting : k.waiting with
    | nil =>
      have steps := h.pop_empty waiting
      rw [Queue.popMany, pop_of_step steps.answer_eq]
      exact ⟨rfl, k.delivered, steps.waits, waiting⟩
    | cons m ms =>
      have steps := h.pop sound waiting
      have rest : Course.waiting { k with delivered := k.delivered + 1 } = ms := by
        have step := Course.waiting_step (e := .pop) (c := c) h.within
        simpa only [Course.step, waiting, listStep] using step
      obtain ⟨taken, u, waits, left⟩ := ih steps.waits
      rw [rest] at taken left
      rw [Queue.popMany, pop_of_step steps.answer_eq]
      refine ⟨?_, u, waits, left⟩
      simp only [taken, List.take_succ_cons]

end DurableQueue.Queue
