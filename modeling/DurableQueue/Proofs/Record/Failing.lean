import DurableQueue.Proofs.FileSystem.Calm
import DurableQueue.Proofs.Record.Storing

/-!
# Storing a record that may fail to be stored

On a disk on which only syncs fail, storing a record may fail at any of its calls, and giving the
temporary record up may fail as well. Whatever comes of it, nothing but the record and temporary
names is touched (`store_any`).
-/

namespace DurableQueue

open FileSystem

variable {c : Config} {dir : Location} {d : Disk} {s : Shelf}

namespace Record

/-- Whatever fails of it, writing a temporary record disturbs nothing. -/
theorem writeSynced_any (calm : d.Calm c dir s) (named : c.Named) (tag : Tag) (bs : Bytes) :
    ∃ s', (writeSynced d (c.path (.temporary tag)) bs).2.Calm c dir s' ∧ Undisturbed s s' := by
  obtain ⟨s₁, calm₁, same₁, created⟩ := calm.createNew_any named tag
  unfold writeSynced
  revert calm₁ created
  cases d.createNew (c.path (.temporary tag)) with
  | mk result d₁ =>
    intro calm₁ created
    cases result with
    | error e => exact ⟨s₁, calm₁, same₁⟩
    | ok handle =>
      obtain ⟨number, inode, there, node⟩ := created handle rfl
      obtain ⟨s₂, inode₂, calm₂, same₂, there₂⟩ := calm₁.write_any tag handle node there bs
      have moved : ∀ h, (d₁.write handle bs).1 = .ok h → h.node = .file number := by
        intro h ok
        obtain ⟨e, tree, eq⟩ | ⟨tree, eq⟩ := d₁.write_outcome handle bs
        · rw [eq] at ok
          cases ok
        · rw [eq] at ok
          cases ok
          exact node
      simp only
      revert calm₂ moved
      cases d₁.write handle bs with
      | mk result d₂ =>
        intro calm₂ moved
        cases result with
        | error e => exact ⟨s₂, calm₂, same₁.trans same₂⟩
        | ok h =>
          obtain ⟨s₃, calm₃, same₃⟩ :=
            calm₂.sync_any h (moved h rfl) there₂ (.update_temporary tag _)
          exact ⟨s₃, calm₃, same₁.trans (same₂.trans same₃)⟩

/-- Whatever fails of it, giving a temporary record up disturbs nothing. -/
theorem abandon_any (calm : d.Calm c dir s) (named : c.Named) (tag : Tag) (e : Error) :
    ∃ s', (abandon d (c.path (.temporary tag)) e).disk.Calm c dir s' ∧ Undisturbed s s' := by
  obtain ⟨s', calm', same⟩ := calm.remove_any named tag
  unfold abandon
  revert calm'
  cases d.remove (c.path (.temporary tag)) with
  | mk result d' =>
    intro calm'
    cases result with
    | error e' => exact ⟨s', calm', same⟩
    | ok u => exact ⟨s', calm', same⟩

/-- **Whatever fails of it, storing a record disturbs nothing.** -/
theorem store_any (calm : d.Calm c dir s) (named : c.Named) (r : Record) :
    ∃ s', (r.store d (c.path .record)).disk.Calm c dir s' ∧ Undisturbed s s' := by
  have temporary : Naming.temporaryPath (c.path .record) d.freshTag =
      c.path (.temporary (nextTag d)) := named.path_temporary (nextTag d)
  obtain ⟨s₁, calm₁, same₁⟩ := writeSynced_any calm named (nextTag d) (Text.encode r.text)
  rw [store, temporary]
  revert calm₁
  cases writeSynced d (c.path (.temporary (nextTag d))) (Text.encode r.text) with
  | mk result d₁ =>
    intro calm₁
    cases result with
    | error e =>
      obtain ⟨s₂, calm₂, same₂⟩ := abandon_any calm₁ named (nextTag d)
        (.writeRecord (c.path (.temporary (nextTag d))) e)
      exact ⟨s₂, calm₂, same₁.trans same₂⟩
    | ok u =>
      obtain ⟨s₂, calm₂, same₂⟩ := calm₁.rename_any named (nextTag d)
      simp only
      revert calm₂
      cases d₁.rename (c.path (.temporary (nextTag d))) (c.path .record) with
      | mk result d₂ =>
        intro calm₂
        cases result with
        | error e =>
          obtain ⟨s₃, calm₃, same₃⟩ := abandon_any calm₂ named (nextTag d)
            (.writeRecord (c.path .record) e)
          exact ⟨s₃, calm₃, same₁.trans (same₂.trans same₃)⟩
        | ok u => exact ⟨s₂, calm₂, same₁.trans same₂⟩

end Record

end DurableQueue
