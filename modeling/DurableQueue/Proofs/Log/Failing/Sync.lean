import DurableQueue.Proofs.Log.Syncing

/-!
# Syncs that may fail

A sync brings at most the open segment to the medium, and stores a record only after that
(`sync_faulty`). So if it says that all is well, both were done; if not, a segment is at least what
it was.
-/

namespace DurableQueue

open FileSystem

namespace Log

variable {log : Log} {dir : Location}

/-- The next call would bring file `number` to the medium: it is open for writing, and the call
succeeds. -/
def Brings (log : Log) (number : Nat) : Prop :=
  ∃ h ∈ log.writer, h.node = .file number ∧ (log.disk.sync h).1 = .ok ()

/-- What a sync came to. -/
structure Syncs (log : Log) (dir : Location) (result : Except Error Unit) (log' : Log) : Prop where
  rest : ∃ d sync told w, log' = { log with disk := d, needSync := sync, journal := told, writer := w }
  writer : log'.writer = log.writer ∨ log'.writer = none
  hosts : log'.disk.tree.Hosts log.config.dataPath dir
  brought : ∀ k number inode, log.disk.tree.shelf log.config dir (.segment k) = some (number, inode) →
    log.Brings number →
    log'.disk.tree.shelf log.config dir (.segment k) = some (number, Disk.synced inode)
  left : ∀ k number inode, log.disk.tree.shelf log.config dir (.segment k) = some (number, inode) →
    ¬log.Brings number → log'.disk.tree.shelf log.config dir (.segment k) = some (number, inode)
  synced : result = .ok () → ∀ h ∈ log.writer, (log.disk.sync h).1 = .ok ()
  stored : result = .ok () →
    (View.of (log'.disk.tree.shelf log.config dir)).record = some (Text.encode log.record.text)

theorem Syncs.config_eq {log' : Log} {result : Except Error Unit} (h : log.Syncs dir result log') :
    log'.config = log.config := by
  obtain ⟨d, sync, told, w, rfl⟩ := h.rest
  rfl

theorem Syncs.read_eq {log' : Log} {result : Except Error Unit} (h : log.Syncs dir result log') :
    log'.read = log.read := by
  obtain ⟨d, sync, told, w, rfl⟩ := h.rest
  rfl

theorem storeRecord_faulty (log : Log) (hosts : log.disk.tree.Hosts log.config.dataPath dir)
    (sound : log.config.Sound) :
    log.disk.tree.Spares log.config dir (fun f => ∃ k, f = .segment k)
        log.storeRecord.2.disk.tree ∧
      (log.storeRecord.1 = .ok () →
        (View.of (log.storeRecord.2.disk.tree.shelf log.config dir)).record =
          some (Text.encode log.record.text)) := by
  have stored := Record.store_faulty hosts sound log.record
  have path : log.recordPath = log.config.path .record := rfl
  unfold storeRecord
  rw [path]
  revert stored
  cases log.record.store log.disk (log.config.path .record) with
  | mk result disk leftover =>
    intro stored
    cases result with
    | ok u => exact stored
    | error e =>
      cases leftover with
      | false => exact ⟨stored.1, nofun⟩
      | true => exact ⟨stored.1, nofun⟩

/-- A sync that gets to the record, once the segments are what they should be. -/
theorem Syncs.of_brought {d : Disk} (sound : log.config.Sound)
    (hosts : d.tree.Hosts log.config.dataPath dir)
    (brought : ∀ k number inode,
      log.disk.tree.shelf log.config dir (.segment k) = some (number, inode) → log.Brings number →
      d.tree.shelf log.config dir (.segment k) = some (number, Disk.synced inode))
    (left : ∀ k number inode,
      log.disk.tree.shelf log.config dir (.segment k) = some (number, inode) → ¬log.Brings number →
      d.tree.shelf log.config dir (.segment k) = some (number, inode))
    (synced : ∀ h ∈ log.writer, (log.disk.sync h).1 = .ok ()) :
    log.Syncs dir ({ log with disk := d } : Log).storeRecord.1
      ({ log with disk := d } : Log).storeRecord.2 := by
  obtain ⟨spares, stored⟩ := storeRecord_faulty { log with disk := d } hosts sound
  obtain ⟨d', sync, told, rest⟩ := storeRecord_rest { log with disk := d }
  exact
    { rest := ⟨d', sync, told, log.writer, rest⟩
      writer := Or.inl (by rw [rest])
      hosts := spares.hosts
      brought := fun k number inode found brings =>
        spares.same _ _ ⟨k, rfl⟩ (brought k number inode found brings)
      left := fun k number inode found idle =>
        spares.same _ _ ⟨k, rfl⟩ (left k number inode found idle)
      synced := fun _ => synced
      stored }

/-- A sync that fails at the segment changes nothing on disk. -/
theorem Syncs.of_failed {d : Disk} {e : Error} (hosts : log.disk.tree.Hosts log.config.dataPath dir)
    (same : d.tree = log.disk.tree) (idle : ∀ number, ¬log.Brings number) :
    log.Syncs dir (.error e) { log with disk := d, writer := none } where
  rest := ⟨d, log.needSync, log.journal, none, rfl⟩
  writer := Or.inr rfl
  hosts := same ▸ hosts
  brought _ number _ _ brings := absurd brings (idle number)
  left _ _ _ found _ := by
    simp only [same]
    exact found
  synced := nofun
  stored := nofun

/-- A sync brings the open segment to the medium before it says that all is well. -/
theorem sync_faulty (log : Log) (hosts : log.disk.tree.Hosts log.config.dataPath dir)
    (sound : log.config.Sound) (writes : log.Writes (log.disk.tree.shelf log.config dir)) :
    log.Syncs dir log.sync.1 log.sync.2 := by
  rcases Option.eq_none_or_eq_some log.writer with closed | ⟨h, writing⟩
  · have idle : ∀ number, ¬log.Brings number := by
      rintro number ⟨h, writing, -⟩
      rw [closed] at writing
      cases writing
    have eq : log.sync = log.storeRecord := by simp only [sync, closed]
    rw [eq]
    refine Syncs.of_brought sound hosts (fun _ number _ _ brings => absurd brings (idle number))
      (fun _ _ _ found _ => found) fun h writing => ?_
    rw [closed] at writing
    cases writing
  obtain ⟨k, number, inode, found, node⟩ := writes h writing
  obtain ⟨first, outcome⟩ := Disk.sync_faulty hosts h node found
  obtain ⟨d, d_eq⟩ : ∃ d, d = (log.disk.sync h).2 := ⟨_, rfl⟩
  rw [← d_eq] at first outcome
  rcases outcome with ⟨done, there⟩ | ⟨⟨e, failed⟩, same⟩
  · have eq : log.sync = ({ log with disk := d } : Log).storeRecord := by
      have call : log.disk.sync h = (.ok (), d) := Prod.ext done d_eq.symm
      simp only [sync, writing, call]
    rw [eq]
    refine Syncs.of_brought sound first.hosts (fun j n i here brings => ?_)
      (fun j n i here idle => ?_) fun h' writing' => ?_
    · obtain ⟨h', writing', node', -⟩ := brings
      rw [writing] at writing'
      cases writing'
      rw [node] at node'
      cases node'
      have same : j = k := by
        apply Decidable.byContradiction
        intro ne
        exact hosts.number_ne found here (by simpa using ne) rfl
      subst same
      rw [here] at found
      cases found
      exact there
    · refine first.same _ _ ?_ here
      intro e
      cases e
      rw [here] at found
      cases found
      exact idle ⟨h, writing, node, done⟩
    · rw [writing] at writing'
      cases writing'
      exact done
  · have eq : log.sync =
        (.error (.syncSegment h.path e), { log with disk := d, writer := none }) := by
      have call : log.disk.sync h = (.error e, d) := Prod.ext failed d_eq.symm
      simp only [sync, writing, call]
    rw [eq]
    refine Syncs.of_failed hosts same ?_
    rintro n ⟨h', writing', -, done⟩
    rw [writing] at writing'
    cases writing'
    rw [failed] at done
    cases done

end Log

end DurableQueue
