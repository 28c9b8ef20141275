import DurableQueue.Proofs.Queue.Opening
import DurableQueue.Proofs.Session.Steady
import DurableQueue.Proofs.Session.Taking

/-!
# How much a crash may lose

The record is stored from time to time, so what it says lags behind what a session has done. As long
as no sync has failed it lags by the pushes and deliveries that the session has counted toward the next
sync, which are fewer than make one due, and by nothing else: whatever moves the cursors otherwise is
stored before the session waits again (`Session.Bounded`). At each moment of the next event, whatever
fails then, the record is the same or one that the session has come to meanwhile, unless that event is
a clear (`crash_loses_few`).

The queue's files have to be its own. If the name of a segment leads to the record, then pushing a
message overwrites the record (`overwritten_through_link`).
-/

namespace DurableQueue

open FileSystem

/-! ### Moments of which the record is told -/

/-- What is taken up from a stock is a record of which `R` holds. -/
def Stock.Records (R : Record → Prop) (σ : Stock) : Prop := ∃ r, Record.Kept σ.record r ∧ R r

variable {R : Record → Prop} {c : Config} {dir : Location}

/-- Which segments there are makes no difference. -/
theorem Stock.records_hereditary : Hereditary (Stock.Records R) := fun _ _ le records => by
  obtain ⟨r, kept, holds⟩ := records
  exact ⟨r, le.1 ▸ kept, holds⟩

theorem Stock.records_text {σ : Stock} {r : Record} (words : r.InWords) (holds : R r) :
    Stock.Records R { σ with record := some (Text.encode r.text) } :=
  ⟨r, Record.kept_text words, holds⟩

theorem FileSystem.Disk.Through.persists {d d' : Disk} (h : Disk.Through c dir (Stock.Records R) d d')
    (homes : d.tree.Homes c dir) (named : c.Named) (short : c.isLong .record = false)
    (now : Stock.Records R (d.tree.stock c dir)) :
    ∀ t ∈ d'.since d, ∃ r, t.Persists c r ∧ R r := by
  intro t moment
  obtain ⟨homes', r, kept, holds⟩ := h.since ⟨homes, now⟩ t moment
  exact ⟨r, (homes'.persists_iff named).2 ⟨short, kept⟩, holds⟩

namespace Session

variable {s begun : Session} {d : Disk} {r : Record} {e : Event} {events before since : List Event}
  {n : Nat} {t : Tree}

/-! ### Lagging behind -/

/-- How many of the events are pushes, or deliveries of a message on offer. -/
def handled (s : Session) : List Event → Nat
  | [] => 0
  | e :: events => (s.counts e).toNat + handled (s.step e).2 events

theorem handled_snoc (s : Session) (events : List Event) (e : Event) :
    s.handled (events ++ [e]) = s.handled events + ((s.run events).2.counts e).toNat := by
  induction events generalizing s with
  | nil => exact Nat.add_comm ..
  | cons e' events ih =>
    rw [List.cons_append, handled, handled, ih, Nat.add_assoc]
    rfl

/-- What is taken up from a tree is the record of a session as it waited after the events `before`, and
at most `n` pushes and deliveries have happened since: there was no clear, no segment was set aside, and
no cursor and no depth had to be put right. -/
structure LagsSince (s : Session) (c : Config) (before since : List Event) (n : Nat) (t : Tree) :
    Prop where
  record : t.Persists c (s.run before).2.log.record
  few : (s.run before).2.handled since ≤ n
  not_cleared : .clear ∉ since
  corruptions : (s.run (before ++ since)).2.corruptions = (s.run before).2.corruptions
  resets : (s.run (before ++ since)).2.log.tailResets = (s.run before).2.log.tailResets

/-- What is taken up from a tree lags behind a session by at most `n` pushes and deliveries. -/
def Lags (s : Session) (c : Config) (events : List Event) (n : Nat) (t : Tree) : Prop :=
  ∃ before since, events = before ++ since ∧ s.LagsSince c before since n t

/-- The record that a session has now lags behind nothing. -/
theorem lags_now (persists : t.Persists c (s.run events).2.log.record) : s.Lags c events n t :=
  ⟨events, [], (List.append_nil _).symm, persists, Nat.zero_le _, List.not_mem_nil,
    by rw [List.append_nil], by rw [List.append_nil]⟩

/-- What holds of a session that waits and has had no sync fail. -/
structure Bounded (begun : Session) (c : Config) (events : List Event) : Prop where
  needSync : (begun.run events).2.log.needSync = false
  current : (begun.run events).2.dirty = 0 →
    (begun.run events).2.log.disk.tree.Persists c (begun.run events).2.log.record
  lags : begun.Lags c events (begun.run events).2.dirty (begun.run events).2.log.disk.tree

/-- An event that is left to the next sync is one more to lag behind. -/
theorem Lags.deferred (lags : begun.Lags c events (begun.run events).2.dirty t)
    (deferred : (begun.run events).2.Deferred e dir (begun.run (events ++ [e])).2) {t' : Tree}
    (same : ∀ r, t.Persists c r → t'.Persists c r) :
    begun.Lags c (events ++ [e]) (begun.run (events ++ [e])).2.dirty t' := by
  obtain ⟨before, since, rfl, lag⟩ := lags
  refine ⟨before, since ++ [e], List.append_assoc .., same _ lag.record, ?_, ?_, ?_, ?_⟩
  · rw [handled_snoc, ← run_append, deferred.dirty]
    exact Nat.add_le_add_right lag.few _
  · intro cleared
    rcases List.mem_append.1 cleared with earlier | last
    · exact lag.not_cleared earlier
    · exact deferred.not_clear (List.mem_singleton.1 last).symm
  · rw [← List.append_assoc, deferred.corruptions, lag.corruptions]
  · rw [← List.append_assoc, deferred.resets, lag.resets]

/-! ### The session -/

section Takes

variable (takes : Takes c d dir r)
include takes

/-- **A session that waits lags behind by no more than it has counted**, if no sync has failed. -/
theorem Takes.bounded (small : ((takingUp c d r).run events).2.log.write.file < Word.limit)
    (none : ((takingUp c d r).run events).2.log.NoSyncFailed) :
    (takingUp c d r).Bounded c events := by
  induction events using List.reverseRecOn with
  | nil =>
    obtain ⟨needSync, kept⟩ := takes.kept_begun small none
    have persists := (takes.persists_run []).2 kept
    exact ⟨needSync, fun _ => persists, lags_now persists⟩
  | append_singleton events e ih =>
    have step := leads_step ((takingUp c d r).run events).2 e
    have advances := advances_step (e := e) (takes.housed events) (takes.named_run events)
    rw [← run_snoc] at step advances
    have bounded := ih (small_of_leads events step small) (none.before step.tells)
    rcases advances with landed | deferred | failed
    · have persists := (takes.persists_run _).2 (takes.kept_of_landed _ small landed)
      exact ⟨landed.needSync, fun _ => persists, lags_now persists⟩
    · have same : ∀ r', ((takingUp c d r).run events).2.log.disk.tree.Persists c r' →
          ((takingUp c d r).run (events ++ [e])).2.log.disk.tree.Persists c r' := by
        intro r' persists
        rw [takes.persists_run, deferred.stored, ← takes.persists_run]
        exact persists
      refine ⟨deferred.needSync.trans bounded.needSync, fun clean => ?_, bounded.lags.deferred deferred same⟩
      rw [deferred.dirty] at clean
      have nothing : ((takingUp c d r).run events).2.counts e = false := by
        cases counts : ((takingUp c d r).run events).2.counts e with
        | false => rfl
        | true =>
          rw [counts] at clean
          exact absurd clean (Nat.succ_ne_zero _)
      rw [deferred.same nothing]
      exact same _ (bounded.current (by omega))
    · exact absurd none failed

/-- **At every moment of the opening the record is the one that was found or the session's own after
some of the rounds.** -/
theorem Takes.moments_opening (small : (takingUp c d r).log.write.file < Word.limit) :
    ∀ t ∈ (takingUp c d r).log.disk.since d, t.Persists c r ∨
      ∃ k, t.Persists c ((opening c d r).settleWithin k).log.record := by
  obtain ⟨R, R_eq⟩ : ∃ R : Record → Prop, R = fun r' => r' = r ∨
      ∃ k, r' = ((opening c d r).settleWithin k).log.record := ⟨_, rfl⟩
  have now : Stock.Records R (d.tree.stock c dir) := ⟨r, takes.kept, by rw [R_eq]; exact Or.inl rfl⟩
  have opened := takes.opening_since (P := Stock.Records R) Stock.records_hereditary now
    fun k lead further _ =>
      Stock.records_text (takes.inWords lead further small) (by rw [R_eq]; exact Or.inr ⟨k, rfl⟩)
  intro t moment
  obtain ⟨r', persists, holds⟩ := opened.persists takes.homes takes.named takes.short now t moment
  rw [R_eq] at holds
  rcases holds with rfl | ⟨k, rfl⟩
  · exact Or.inl persists
  · exact Or.inr ⟨k, persists⟩

/-- What is told of the moments of a session that does something while the record satisfies `R`. -/
theorem Takes.moments {log : Log} (events : List Event)
    (goes : Log.Goes dir (Stock.Records R) ((takingUp c d r).run events).2.log log)
    (now : Stock.Records R (((takingUp c d r).run events).2.log.stock dir)) :
    ∀ t ∈ log.disk.since ((takingUp c d r).run events).2.log.disk, ∃ r', t.Persists c r' ∧ R r' := by
  have through := goes.toThrough
  have homes := (takes.housed events).homes
  rw [config_takingUp] at through homes
  rw [Log.stock, config_takingUp] at now
  exact through.persists homes takes.named takes.short now

/-- **At every moment of an event the record is the last one or the session's own after some of the
rounds**, unless the event is a clear. -/
theorem Takes.moments_step (lags : (takingUp c d r).Lags c events n
      ((takingUp c d r).run events).2.log.disk.tree)
    (small : (((takingUp c d r).run events).2.step e).2.log.write.file < Word.limit) :
    ∀ t ∈ (((takingUp c d r).run events).2.step e).2.log.disk.since
        ((takingUp c d r).run events).2.log.disk,
      (takingUp c d r).Lags c events n t ∨
      (∃ k, t.Persists c ((((takingUp c d r).run events).2.handle e).settleWithin k).log.record) ∨
      e = .clear ∧ t.Persists c {} := by
  obtain ⟨before, since, split, lag⟩ := lags
  obtain ⟨s, s_eq⟩ : ∃ s, s = ((takingUp c d r).run events).2 := ⟨_, rfl⟩
  have lead := leads_takingUp c d r events
  have kept := (takes.persists_run events).1 lag.record
  have housed := takes.housed events
  have named := takes.named_run events
  rw [← s_eq] at small lead kept housed named ⊢
  obtain ⟨R, R_eq⟩ : ∃ R : Record → Prop, R = fun r' =>
      r' = ((takingUp c d r).run before).2.log.record ∨
      (∃ k, r' = ((s.handle e).settleWithin k).log.record) ∨ e = .clear ∧ r' = {} := ⟨_, rfl⟩
  have now : Stock.Records R (s.log.stock dir) := ⟨_, kept, by rw [R_eq]; exact Or.inl rfl⟩
  have stepped : Log.Goes dir (Stock.Records R) s.log (s.step e).2.log := by
    refine step_through housed named Stock.records_hereditary now ?_ ?_ ?_
    · intro m push
      subst push
      have words := takes.inWords (lead.trans (s.leads_handle (.push m))) (s.leads_push m) small
      exact ⟨now, Stock.records_text words (by rw [R_eq]; exact Or.inr (Or.inl ⟨0, rfl⟩))⟩
    · intro clear
      exact ⟨{}, Or.inl ⟨rfl, rfl⟩, by rw [R_eq]; exact Or.inr (Or.inr ⟨clear, rfl⟩)⟩
    · intro k before_ further _
      exact Stock.records_text (takes.inWords (lead.trans before_) further small)
        (by rw [R_eq]; exact Or.inr (Or.inl ⟨k, rfl⟩))
  intro t moment
  subst s_eq
  obtain ⟨r', persists, holds⟩ := takes.moments events stepped now t moment
  rw [R_eq] at holds
  rcases holds with rfl | ⟨k, rfl⟩ | ⟨clear, rfl⟩
  · exact Or.inl ⟨before, since, split, { lag with record := persists }⟩
  · exact Or.inr (Or.inl ⟨k, persists⟩)
  · exact Or.inr (Or.inr ⟨clear, persists⟩)

/-- **At every moment of the end the record is the last one or the session's own**, unless the session
deletes everything. -/
theorem Takes.moments_finish (lags : (takingUp c d r).Lags c events n
      ((takingUp c d r).run events).2.log.disk.tree)
    (small : ((takingUp c d r).run events).2.log.write.file < Word.limit) (mode : ExitMode) :
    ∀ t ∈ (((takingUp c d r).run events).2.finish mode).2.log.disk.since
        ((takingUp c d r).run events).2.log.disk,
      (takingUp c d r).Lags c events n t ∨ mode = .delete ∧ t.Persists c {} := by
  obtain ⟨before, since, split, lag⟩ := lags
  obtain ⟨s, s_eq⟩ : ∃ s, s = ((takingUp c d r).run events).2 := ⟨_, rfl⟩
  have words := takes.inWords (leads_takingUp c d r events) .refl small
  have kept := (takes.persists_run events).1 lag.record
  have housed := takes.housed events
  have named := takes.named_run events
  have current := fun t => @lags_now c (takingUp c d r) events n t
  rw [← s_eq] at words kept housed named current ⊢
  obtain ⟨R, R_eq⟩ : ∃ R : Record → Prop, R = fun r' =>
      r' = ((takingUp c d r).run before).2.log.record ∨ r' = s.log.record ∨
        mode = .delete ∧ r' = {} := ⟨_, rfl⟩
  have now : Stock.Records R (s.log.stock dir) := ⟨_, kept, by rw [R_eq]; exact Or.inl rfl⟩
  have finished : Log.Goes dir (Stock.Records R) s.log (s.finish mode).2.log :=
    finish_through housed named Stock.records_hereditary now
      (fun _ => Stock.records_text words (by rw [R_eq]; exact Or.inr (Or.inl rfl)))
      (fun delete => ⟨{}, Or.inl ⟨rfl, rfl⟩, by rw [R_eq]; exact Or.inr (Or.inr ⟨delete, rfl⟩)⟩)
  intro t moment
  subst s_eq
  obtain ⟨r', persists, holds⟩ := takes.moments events finished now t moment
  rw [R_eq] at holds
  rcases holds with rfl | rfl | ⟨delete, rfl⟩
  · exact Or.inl ⟨before, since, split, { lag with record := persists }⟩
  · exact Or.inl (current t persists)
  · exact Or.inr ⟨delete, persists⟩

end Takes

/-- **A crash loses few.** A session takes up the record `r` from a disk on which the queue's files are
its own and on which anything may fail. Whenever it waits, less is left to be synced than makes a sync
due, and at every moment of its opening the record is the one that was found or its own.

As long as no sync has failed, no sync is asked for while it waits, and the record is that of the session
or lags behind it by the pushes and deliveries that it has counted. At each moment of the next event,
which is one more to lose, the record is still that one, or it is the session's own after some of the
rounds of the event; only a clear or a session that deletes everything takes it away. -/
theorem crash_loses_few (events : List Event) (named : c.Named) (every : 0 < c.syncEvery)
    (limit : c.maxBytesPerFile < Word.limit) (homes : d.tree.Homes c dir)
    (found : d.tree.Persists c r)
    (room : ((takingUp c d r).run events).2.log.write.file < Word.limit) :
    let begun := takingUp c d r
    let s := (begun.run events).2
    s.dirty < c.syncEvery ∧
    (∀ t ∈ begun.log.disk.since d, t.Persists c r ∨
      ∃ k, t.Persists c ((opening c d r).settleWithin k).log.record) ∧
    (s.log.NoSyncFailed →
      s.log.needSync = false ∧
      (s.dirty = 0 → s.log.disk.tree.Persists c s.log.record) ∧
      begun.Lags c events s.dirty s.log.disk.tree ∧
      (∀ e, (s.step e).2.log.write.file < Word.limit →
        ∀ t ∈ (s.step e).2.log.disk.since s.log.disk,
          begun.Lags c events s.dirty t ∨
          (∃ k, t.Persists c ((s.handle e).settleWithin k).log.record) ∨
          e = .clear ∧ t.Persists c {}) ∧
      ∀ mode, ∀ t ∈ (s.finish mode).2.log.disk.since s.log.disk,
        begun.Lags c events s.dirty t ∨ mode = .delete ∧ t.Persists c {}) := by
  intro begun s
  have takes : Takes c d dir r := ⟨named, limit, homes, found⟩
  have small : (takingUp c d r).log.write.file < Word.limit :=
    small_of_leads [] (leads_run (takingUp c d r) events) room
  refine ⟨dirty_lt every d r events, takes.moments_opening small, fun none => ?_⟩
  have bounded := takes.bounded room none
  exact ⟨bounded.needSync, bounded.current, bounded.lags,
    fun e small => takes.moments_step bounded.lags small, takes.moments_finish bounded.lags room⟩

/-- A session that has left a segment, whose record is therefore stored, and has counted on since. -/
theorem crash_loses_few_narrow :
    let s := ((takingUp .narrow .blank {}).run [.push [97], .push [98], .deliver, .push [99]]).2
    s.log.write.file < Word.limit ∧ s.log.NoSyncFailed ∧ s.dirty = 4 ∧ s.log.needSync = false ∧
      (takingUp .narrow .blank {}).Lags .narrow [.push [97], .push [98], .deliver, .push [99]] 4
        s.log.disk.tree := by
  have homes := Disk.blank_fresh.hosts.homes
  have named := Config.narrow_sound.named
  have found : Disk.blank.tree.Persists .narrow {} := by
    refine (homes.persists_iff named).2 ⟨by decide +kernel, Or.inl ⟨?_, rfl⟩⟩
    rw [Tree.stock, Disk.blank_fresh.shelf_eq]
    rfl
  obtain ⟨s, s_eq⟩ : ∃ s, s = ((takingUp .narrow .blank {}).run
      [.push [97], .push [98], .deliver, .push [99]]).2 := ⟨_, rfl⟩
  have ran : s.log.write.file < Word.limit ∧
      (.syncFailed ∉ s.log.journal ∧ .rollSyncFailed ∉ s.log.journal) ∧ s.dirty = 4 := by
    rw [s_eq]
    decide +kernel
  obtain ⟨room, none, dirty⟩ := ran
  rw [s_eq] at room none dirty
  obtain ⟨-, -, bounded⟩ := crash_loses_few [.push [97], .push [98], .deliver, .push [99]]
    named (by decide) (by decide) homes found room
  obtain ⟨needSync, -, lags, -⟩ := bounded none
  rw [dirty] at lags
  exact ⟨room, none, dirty, needSync, lags⟩

/-- A message that is pushed into a segment whose name leads to the record is written over the record.
No sync has failed, and the next process finds no record that it can read. -/
theorem overwritten_through_link :
    (Record.load linked (Naming.recordPath Config.narrow.dataPath Config.narrow.name)).1.toOption =
        some none ∧
      let s := ((takingUp .narrow linked {}).run [.push [97]]).2
      s.log.NoSyncFailed ∧ ∀ r, ¬s.log.disk.tree.Persists .narrow r := by
  have told : let s := ((takingUp .narrow linked {}).run [.push [97]]).2
      .syncFailed ∉ s.log.journal ∧ .rollSyncFailed ∉ s.log.journal := by decide +kernel
  refine ⟨by decide +kernel, told, fun r persists => ?_⟩
  obtain ⟨d, d_eq⟩ : ∃ d : Disk, d =
      { tree := ((takingUp .narrow linked {}).run [.push [97]]).2.log.disk.tree } := ⟨_, rfl⟩
  obtain ⟨found, loaded, -⟩ := persists d (by rw [d_eq]) (by rw [d_eq]; exact fun _ _ => rfl)
  have unreadable : (Record.load d (Naming.recordPath Config.narrow.dataPath
      Config.narrow.name)).1.toOption.isNone = true := by
    rw [d_eq]
    decide +kernel
  rw [loaded] at unreadable
  cases unreadable

end Session

end DurableQueue
