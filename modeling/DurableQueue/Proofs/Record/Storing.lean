import DurableQueue.Proofs.FileSystem.Faults
import DurableQueue.Proofs.Record.RoundTrip
import DurableQueue.Record.Store

/-!
# Storing the record

Storing a record leaves the segments alone, and at every moment of it the directory shows the
last record whole or the new one whole (`store_spec`). It fails only if the temporary name that
it picks is taken, and then the last record stays. What was stored is what the next opening
loads (`load_spec`).
-/

namespace DurableQueue

open FileSystem

/-- No record is left under a temporary name. -/
def Tidy (s : Shelf) : Prop := ∀ tag, s (.temporary tag) = none

/-- The two shelves have the same segments. -/
def SameSegments (s s' : Shelf) : Prop := ∀ k, s' (.segment k) = s (.segment k)

namespace Record

variable {c : Config} {dir : Location} {P : View → Prop} {d : Disk} {s : Shelf}

/-- The tag that the next temporary record gets. -/
def nextTag (d : Disk) : Tag := ⟨(d.seed + d.calls) % Disk.tagCount, Nat.mod_lt _ (by decide)⟩

/-- What storing the record `r` came to on a shelf `s`. -/
structure Settled (r : Record) (s s' : Shelf) (result : Except Error Unit) : Prop where
  segments : SameSegments s s'
  tidy : Tidy s → Tidy s'
  outcome : (result = .ok () ∧ (View.of s').record = some (Text.encode r.text)) ∨
    ((∃ e, result = .error e) ∧ (View.of s').record = (View.of s).record ∧ ¬Tidy s)

theorem writeSynced_spec (h : d.Serves c dir s) (sound : c.Sound) {tag : Tag}
    (free : s (.temporary tag) = none) (before : P (.of s)) (bs : Bytes) :
    ∃ number inode d', writeSynced d (c.path (.temporary tag)) bs = (.ok (), d') ∧
      inode.contents = bs ∧
      Disk.Reaches c dir P d d' (Function.update s (.temporary tag) (some (number, inode))) := by
  obtain ⟨number, d₁, created, first⟩ := h.createNew sound (QueueFile.numbered_temporary _) free
    (fun number => by simpa using before)
  have there : Function.update s (.temporary tag) (some (number, ({} : Inode))) (.temporary tag) =
      some (number, {}) := Function.update_self ..
  obtain ⟨d₂, wrote, second⟩ := first.write (P := P)
    ⟨c.path (.temporary tag), .file number, 0⟩ rfl there bs (by simpa using before)
  rw [Function.update_idem] at second
  have there' : Function.update s (.temporary tag) (some (number, Disk.written {} 0 bs))
      (.temporary tag) = some (number, Disk.written {} 0 bs) := Function.update_self ..
  obtain ⟨d₃, synced, third⟩ := second.sync (P := P)
    ⟨c.path (.temporary tag), .file number, 0 + bs.length⟩ rfl there'
    (by simpa using before)
  rw [Function.update_idem] at third
  refine ⟨number, _, d₃, ?_, ?_, first.trans (second.trans third)⟩
  · simp only [writeSynced, created, wrote, synced]
  · exact Bytes.overwrite_length [] bs

/-- Storing shows the last record or the new one, whole, at every moment. -/
theorem store_spec (h : d.Serves c dir s) (sound : c.Sound) (r : Record) (before : P (.of s))
    (after : P { View.of s with record := some (Text.encode r.text) }) :
    ∃ s', Disk.Reaches c dir P d (r.store d (c.path .record)).disk s' ∧
      Settled r s s' (r.store d (c.path .record)).result := by
  have temporary : Naming.temporaryPath (c.path .record) d.freshTag =
      c.path (.temporary (nextTag d)) := sound.named.path_temporary (nextTag d)
  rw [store, temporary]
  rcases taken : s (.temporary (nextTag d)) with _ | ⟨number, inode⟩
  · obtain ⟨number, inode, d₁, wrote, contents, first⟩ :=
      writeSynced_spec h sound taken before (Text.encode r.text)
    have there : Function.update s (.temporary (nextTag d)) (some (number, inode))
        (.temporary (nextTag d)) = some (number, inode) := Function.update_self ..
    obtain ⟨d₂, renamed, second⟩ := first.rename (P := P) (f := .temporary (nextTag d)) (g := .record) sound
      (QueueFile.numbered_temporary _) QueueFile.numbered_record (by simp) there (by simpa [contents] using after)
    simp only [wrote, renamed]
    refine ⟨_, first.trans second, ⟨fun k => ?_, fun tidy tag => ?_, Or.inl ⟨rfl, ?_⟩⟩⟩
    · simp [Function.update]
    · rw [Function.update_idem, Function.update_of_ne (by simp)]
      by_cases e : QueueFile.temporary tag = .temporary (nextTag d)
      · rw [e, Function.update_self]
      · rw [Function.update_of_ne e, tidy tag]
    · simp [contents]
  · obtain ⟨d₁, refused, first⟩ := h.createNew_taken (P := P) sound (QueueFile.numbered_temporary _) taken before
    obtain ⟨d₂, removed, second⟩ := first.remove (P := P) (f := .temporary (nextTag d)) sound
      (QueueFile.numbered_temporary _) taken (by simpa using before)
    simp only [writeSynced, refused, abandon, removed]
    refine ⟨_, first.trans second, ⟨fun k => ?_, fun tidy => ?_, Or.inr ⟨⟨_, rfl⟩, ?_, ?_⟩⟩⟩
    · simp [Function.update]
    · have := tidy (nextTag d)
      rw [taken] at this
      cases this
    · simp
    · intro tidy
      have := tidy (nextTag d)
      rw [taken] at this
      cases this

/-- Opening loads the record that is there. -/
theorem load_spec (h : d.Serves c dir s) (sound : c.Sound) {r : Record} (fits : r.InWords)
    (found : (View.of s).record = some (Text.encode r.text)) (shown : P (.of s)) :
    ∃ d', load d (c.path .record) = (.ok (some r), d') ∧ Disk.Reaches c dir P d d' s := by
  simp only [View.of, Option.map_eq_some_iff] at found
  obtain ⟨⟨number, inode⟩, there, contents⟩ := found
  obtain ⟨d₁, opened, first⟩ := h.openRead (P := P) sound QueueFile.numbered_record there shown
  obtain ⟨-, file⟩ := Tree.lookup_of_shelf (first.shelf_eq ▸ there)
  obtain ⟨d₂, read, second⟩ := first.read (P := P) ⟨c.path .record, .file number, 0⟩ rfl
    there inode.contents.length shown
  refine ⟨d₂, ?_, first.trans second⟩
  simp only [List.drop_zero, List.take_length] at read
  simp only [load, Disk.readFile, opened, file, read]
  simp only at contents
  rw [contents]
  simp only [Text.decode_encode, parse_text fits]

/-- A queue that never stored a record has none to load. -/
theorem load_spec_none (h : d.Serves c dir s) (sound : c.Sound) (missing : (View.of s).record = none)
    (shown : P (.of s)) :
    ∃ d', load d (c.path .record) = (.ok none, d') ∧ Disk.Reaches c dir P d d' s := by
  have none : s .record = none := by simpa [View.of] using missing
  obtain ⟨d', opened, reached⟩ := h.openRead_none (P := P) sound QueueFile.numbered_record none shown
  refine ⟨d', ?_, reached⟩
  simp only [load, Disk.readFile, opened]

/-- Removing a record leaves none, whether or not there was one. -/
theorem remove_spec (h : d.Serves c dir s) (sound : c.Sound)
    (after : P { View.of s with record := none }) :
    ∃ d', remove d (c.path .record) = (.ok (), d') ∧
      Disk.Reaches c dir P d d' (Function.update s .record none) := by
  rcases there : s .record with _ | ⟨number, inode⟩
  · have same : Function.update s .record none = s := by rw [← there, Function.update_eq_self]
    have shown : P (.of s) := by
      rw [← same]
      simpa using after
    obtain ⟨d', refused, reached⟩ := h.remove_none (P := P) sound QueueFile.numbered_record there shown
    refine ⟨d', ?_, by rw [same]; exact reached⟩
    simp only [remove, refused]
  · obtain ⟨d', removed, reached⟩ := h.remove (P := P) sound QueueFile.numbered_record there (by simpa using after)
    refine ⟨d', ?_, reached⟩
    simp only [remove, removed]

/-! ### Whatever fails -/

section Faulty

variable (hosts : d.tree.Hosts c.dataPath dir) (sound : c.Sound)
include hosts sound

/-- Writing a new file touches no other; if it succeeds the file holds the bytes. -/
theorem writeSynced_faulty (f : QueueFile) (bs : Bytes) :
    d.tree.Spares c dir (· ≠ f) (writeSynced d (c.path f) bs).2.tree ∧
      ((writeSynced d (c.path f) bs).1 = .ok () → ∃ number inode,
        (writeSynced d (c.path f) bs).2.tree.shelf c dir f = some (number, inode) ∧
          inode.contents = bs) := by
  obtain ⟨spares, made⟩ := Disk.createNew_faulty hosts sound f
  unfold writeSynced
  revert spares made
  cases d.createNew (c.path f) with
  | mk created d₁ =>
    intro spares made
    have first : d.tree.Spares c dir (· ≠ f) d₁.tree := spares.mono fun _ _ => trivial
    cases created with
    | error e => exact ⟨first, nofun⟩
    | ok h =>
      obtain ⟨number, there, rfl⟩ := made h rfl
      obtain ⟨second, wrote⟩ := Disk.write_faulty first.hosts ⟨c.path f, .file number, 0⟩ rfl there bs
      simp only
      rcases wrote with ⟨ok, there'⟩ | ⟨⟨e, failed⟩, -⟩
      · revert second there' ok
        cases d₁.write ⟨c.path f, .file number, 0⟩ bs with
        | mk wrote d₂ =>
          rintro second rfl there'
          obtain ⟨third, synced⟩ := Disk.sync_faulty second.hosts
            ⟨c.path f, .file number, 0 + bs.length⟩ rfl there'
          refine ⟨first.trans (second.trans third), ?_⟩
          intro ok
          rcases synced with ⟨-, there''⟩ | ⟨⟨e, failed⟩, -⟩
          · exact ⟨number, _, there'', Bytes.overwrite_length [] bs⟩
          · exact absurd (ok.symm.trans failed) nofun
      · revert second failed
        cases d₁.write ⟨c.path f, .file number, 0⟩ bs with
        | mk wrote d₂ =>
          rintro second rfl
          exact ⟨first.trans second, nofun⟩

/-- Storing a record touches no segment; if it succeeds, the record is the one that was stored. -/
theorem store_faulty (r : Record) :
    d.tree.Spares c dir (fun f => ∃ k, f = .segment k) (r.store d (c.path .record)).disk.tree ∧
      ((r.store d (c.path .record)).result = .ok () →
        (View.of ((r.store d (c.path .record)).disk.tree.shelf c dir)).record =
          some (Text.encode r.text)) := by
  have temporary : Naming.temporaryPath (c.path .record) d.freshTag =
      c.path (.temporary (nextTag d)) := sound.named.path_temporary (nextTag d)
  have apart : ∀ f : QueueFile, (∃ k, f = .segment k) → f ≠ .temporary (nextTag d) := by
    rintro _ ⟨k, rfl⟩
    nofun
  have abandoned : ∀ d' : Disk, ∀ e, d.tree.Spares c dir (fun f => ∃ k, f = .segment k) d'.tree →
      d.tree.Spares c dir (fun f => ∃ k, f = .segment k)
          (abandon d' (c.path (.temporary (nextTag d))) e).disk.tree ∧
        (abandon d' (c.path (.temporary (nextTag d))) e).result = .error e := by
    intro d' e spares
    have more := Disk.remove_faulty spares.hosts sound (.temporary (nextTag d))
    unfold abandon
    revert more
    cases d'.remove (c.path (.temporary (nextTag d))) with
    | mk removed d'' =>
      intro more
      cases removed with
      | error e' => exact ⟨spares.trans (more.mono apart), rfl⟩
      | ok u => exact ⟨spares.trans (more.mono apart), rfl⟩
  rw [store, temporary]
  obtain ⟨first, wrote⟩ :=
    writeSynced_faulty hosts sound (.temporary (nextTag d)) (Text.encode r.text)
  revert first wrote
  cases writeSynced d (c.path (.temporary (nextTag d))) (Text.encode r.text) with
  | mk result d₁ =>
    intro first wrote
    cases result with
    | error e =>
      obtain ⟨spares, failed⟩ := abandoned d₁ (.writeRecord (c.path (.temporary (nextTag d))) e)
        (first.mono apart)
      exact ⟨spares, fun ok => absurd (ok.symm.trans failed) nofun⟩
    | ok u =>
      obtain ⟨number, inode, there, contents⟩ := wrote rfl
      have ne : QueueFile.record ≠ .temporary (nextTag d) := nofun
      obtain ⟨second, moved⟩ := Disk.rename_faulty first.hosts sound ne
      simp only
      revert second moved
      cases d₁.rename (c.path (.temporary (nextTag d))) (c.path .record) with
      | mk result d₂ =>
        intro second moved
        have spares : d.tree.Spares c dir (fun f => ∃ k, f = .segment k) d₂.tree := by
          refine (first.mono apart).trans (second.mono ?_)
          rintro _ ⟨k, rfl⟩
          exact ⟨nofun, nofun⟩
        cases result with
        | error e =>
          obtain ⟨spares', failed⟩ := abandoned d₂ (.writeRecord (c.path .record) e) spares
          exact ⟨spares', fun ok => absurd (ok.symm.trans failed) nofun⟩
        | ok u =>
          refine ⟨spares, ?_⟩
          intro _
          have now := (moved rfl).trans there
          simp only [View.of, now, Option.map_some, contents]

/-- Removing the record touches no other file. -/
theorem remove_faulty :
    d.tree.Spares c dir (· ≠ .record) (remove d (c.path .record)).2.tree := by
  have removed := Disk.remove_faulty hosts sound .record
  unfold remove
  split
  · next d' eq =>
    rw [eq] at removed
    exact removed
  · next result d' _ eq =>
    rw [eq] at removed
    exact removed

end Faulty

end Record

end DurableQueue
