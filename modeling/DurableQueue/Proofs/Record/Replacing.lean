import DurableQueue.Proofs.FileSystem.Stock
import DurableQueue.Proofs.Record.Storing

/-!
# Replacing the record, whatever fails

Any call of a store may fail. At every moment of it the directory holds the last record whole or the
new one whole, and the answer tells which of the two it holds in the end: the new one exactly if the
store succeeds (`store_through`). What a queue that starts on the directory takes up is told from the
bytes of the record (`persists_iff`).
-/

namespace DurableQueue

open FileSystem

variable {c : Config} {dir : Location} {P : Stock → Prop} {d : Disk} {tag : Tag} {number : Nat}
  {inode : Inode}

namespace FileSystem.Disk

section Temporary

variable (homes : d.tree.Homes c dir) (now : P (d.tree.stock c dir))
include homes now

/-- A temporary record that is created is empty; the stock does not tell. -/
theorem createNew_through (named : c.Named) (tag : Tag) :
    Through c dir P d (d.createNew (c.path (.temporary tag))).2 ∧
      (d.createNew (c.path (.temporary tag))).2.tree.stock c dir = d.tree.stock c dir ∧
      ∀ h, (d.createNew (c.path (.temporary tag))).1 = .ok h →
        ∃ number, h = ⟨c.path (.temporary tag), .file number, 0⟩ ∧
          (d.createNew (c.path (.temporary tag))).2.tree.shelf c dir (.temporary tag) =
            some (number, {}) := by
  obtain ⟨act, act_eq, call⟩ : ∃ act : Tree → Except FileError Handle × Tree,
      (act d.tree = ((d.tree.createNew (Path.parts (c.path (.temporary tag)))).1.map fun node =>
          ⟨c.path (.temporary tag), node, 0⟩,
        (d.tree.createNew (Path.parts (c.path (.temporary tag)))).2)) ∧
      d.createNew (c.path (.temporary tag)) =
        d.perform (.createNew (c.path (.temporary tag))) act :=
    ⟨fun t => ((t.createNew (Path.parts (c.path (.temporary tag)))).1.map fun node =>
      ⟨c.path (.temporary tag), node, 0⟩,
      (t.createNew (Path.parts (c.path (.temporary tag)))).2), rfl, d.createNew_eq _⟩
  have creates : Tree.Turns c dir d.tree (act d.tree).2 ∧
      (act d.tree).2.stock c dir = d.tree.stock c dir ∧
      ∀ h, (act d.tree).1 = .ok h → ∃ number, h = ⟨c.path (.temporary tag), .file number, 0⟩ ∧
        (act d.tree).2.shelf c dir (.temporary tag) = some (number, {}) := by
    rw [act_eq]
    rcases homes.createNew_cases named (.temporary tag) with ⟨e, eq⟩ | ⟨missing, eq⟩
    · rw [eq]
      exact ⟨.refl homes, rfl, nofun⟩
    · rw [eq]
      obtain ⟨homes', shelf⟩ := homes.putFile (f := .temporary tag) {}
      refine ⟨homes.putFile_turns _, ?_, fun h ok => ?_⟩
      · rw [Tree.stock, shelf, Stock.of_update_temporary]
        rfl
      · cases ok
        exact ⟨_, rfl, by rw [shelf, Function.update_self]⟩
  obtain ⟨turns, same, made⟩ := creates
  obtain ⟨through, ⟨⟨e, failed⟩, tree, -⟩ | ⟨done, tree⟩⟩ := perform_through homes now
    (.createNew (c.path (.temporary tag))) act turns (by rw [same]; exact now)
  · rw [call, tree]
    refine ⟨through, rfl, fun h ok => ?_⟩
    rw [failed] at ok
    cases ok
  · rw [call, tree]
    exact ⟨through, same, fun h ok => made h (done ▸ ok)⟩

omit now in
/-- The number of a temporary record is not the record's. -/
theorem temporary_apart (found : d.tree.shelf c dir (.temporary tag) = some (number, inode)) :
    number < d.tree.inodes.size ∧
      d.tree.lookup (Tree.place c dir .record) ≠ some (.file number) := by
  obtain ⟨there, -⟩ := Tree.lookup_of_shelf found
  exact ⟨homes.small there, fun same => by cases homes.alone there same⟩

/-- Renaming a temporary record gives it the place of the record, or fails. -/
theorem rename_record_through (named : c.Named)
    (found : d.tree.shelf c dir (.temporary tag) = some (number, inode))
    (after : P { d.tree.stock c dir with record := some inode.contents }) :
    Through c dir P d (d.rename (c.path (.temporary tag)) (c.path .record)).2 ∧
      ((d.rename (c.path (.temporary tag)) (c.path .record)).1 = .ok () ∧
          (d.rename (c.path (.temporary tag)) (c.path .record)).2.tree.stock c dir =
            { d.tree.stock c dir with record := some inode.contents } ∨
        (∃ e, (d.rename (c.path (.temporary tag)) (c.path .record)).1 = .error e) ∧
          (d.rename (c.path (.temporary tag)) (c.path .record)).2.tree.stock c dir =
            d.tree.stock c dir) := by
  have stock : ∀ number' inode', d.tree.shelf c dir (.temporary tag) = some (number', inode') →
      ((d.tree.erase (Tree.place c dir (.temporary tag))).put
        (Tree.place c dir .record) (.file number')).stock c dir =
        { d.tree.stock c dir with record := some inode.contents } := by
    intro number' inode' found'
    rw [found] at found'
    cases found'
    rw [Tree.stock, Tree.shelf_move found, Stock.of_update_record, Stock.of_update_temporary]
    rfl
  obtain ⟨through, ⟨e, failed, tree, -⟩ | ⟨done, number', inode', found', tree⟩⟩ :=
    rename_ends (P := P) (f := .temporary tag) (g := .record) homes named (by simp) (fun _ => trivial)
      now fun number' inode' found' => by rw [stock number' inode' found']; exact after
  · rw [tree]
    exact ⟨through, Or.inr ⟨⟨e, failed⟩, rfl⟩⟩
  · rw [tree]
    exact ⟨through, Or.inl ⟨done, stock number' inode' found'⟩⟩

/-- Removing a temporary record changes no stock. -/
theorem remove_temporary_through (named : c.Named) (tag : Tag) :
    Through c dir P d (d.remove (c.path (.temporary tag))).2 ∧
      (d.remove (c.path (.temporary tag))).2.tree.stock c dir = d.tree.stock c dir := by
  have same : (d.tree.erase (Tree.place c dir (.temporary tag))).stock c dir =
      d.tree.stock c dir := by
    rw [Tree.stock, Tree.shelf_erase, Stock.of_update_temporary]
    rfl
  obtain ⟨through, ⟨e, -, tree, -⟩ | ⟨-, -, tree⟩⟩ :=
    remove_ends homes named (.temporary tag) now (by rw [same]; exact now)
  · rw [tree]
    exact ⟨through, rfl⟩
  · rw [tree]
    exact ⟨through, same⟩

/-- What a write to a temporary record leaves in it, if it succeeds. -/
theorem write_temporary_through (h : Handle) (node : h.node = .file number)
    (found : d.tree.shelf c dir (.temporary tag) = some (number, inode)) (new : Bytes) :
    Through c dir P d (d.write h new).2 ∧
      (d.write h new).2.tree.stock c dir = d.tree.stock c dir ∧
      ∀ h', (d.write h new).1 = .ok h' → h'.node = .file number ∧
        (d.write h new).2.tree.shelf c dir (.temporary tag) =
          some (number, written inode h.offset new) := by
  obtain ⟨small, apart⟩ := temporary_apart homes found
  obtain ⟨through, same⟩ := write_through homes now h node small apart new
  refine ⟨through, same, fun h' ok => ?_⟩
  unfold Disk.write at ok ⊢
  simp only at ok ⊢
  split at ok
  · cases ok
  · simp only [Tree.write, node, Except.map] at ok ⊢
    cases ok
    obtain ⟨-, shelf⟩ := homes.modify found fun file => written file h.offset new
    exact ⟨rfl, (congrFun shelf _).trans (Function.update_self ..)⟩

/-- Bringing a temporary record to the medium leaves its bytes. -/
theorem sync_temporary_through (h : Handle) (node : h.node = .file number)
    (found : d.tree.shelf c dir (.temporary tag) = some (number, inode)) :
    Through c dir P d (d.sync h).2 ∧
      (d.sync h).2.tree.stock c dir = d.tree.stock c dir ∧
      ∃ inode', (d.sync h).2.tree.shelf c dir (.temporary tag) = some (number, inode') ∧
        inode'.contents = inode.contents := by
  obtain ⟨small, apart⟩ := temporary_apart homes found
  obtain ⟨through, same⟩ := sync_through homes now h node small apart
  refine ⟨through, same, ?_⟩
  rcases d.perform_cases (.sync h.path) fun t => t.sync h.node with ⟨-, tree⟩ | ⟨-, tree⟩
  · rw [Disk.sync, tree]
    exact ⟨inode, found, rfl⟩
  · obtain ⟨-, shelf⟩ := homes.modify found synced
    refine ⟨synced inode, ?_, rfl⟩
    rw [Disk.sync, tree, node]
    exact (congrFun shelf _).trans (Function.update_self ..)

end Temporary

end FileSystem.Disk

namespace Record

section Storing

variable (homes : d.tree.Homes c dir) (named : c.Named) (now : P (d.tree.stock c dir))
include homes named now

theorem writeSynced_through (tag : Tag) (bs : Bytes) :
    Disk.Through c dir P d (writeSynced d (c.path (.temporary tag)) bs).2 ∧
      (writeSynced d (c.path (.temporary tag)) bs).2.tree.stock c dir = d.tree.stock c dir ∧
      ((writeSynced d (c.path (.temporary tag)) bs).1 = .ok () → ∃ number inode,
        (writeSynced d (c.path (.temporary tag)) bs).2.tree.shelf c dir (.temporary tag) =
          some (number, inode) ∧ inode.contents = bs) := by
  obtain ⟨first, same, created⟩ := Disk.createNew_through homes now named tag
  unfold writeSynced
  revert first same created
  cases d.createNew (c.path (.temporary tag)) with
  | mk result d₁ =>
    intro first same created
    cases result with
    | error e => exact ⟨first, same, nofun⟩
    | ok h =>
      obtain ⟨number, rfl, there⟩ := created h rfl
      obtain ⟨second, same', wrote⟩ := Disk.write_temporary_through (P := P) first.homes
        (by rw [same]; exact now) ⟨c.path (.temporary tag), .file number, 0⟩ rfl there bs
      simp only
      revert second same' wrote
      cases d₁.write ⟨c.path (.temporary tag), .file number, 0⟩ bs with
      | mk result d₂ =>
        intro second same' wrote
        cases result with
        | error e => exact ⟨first.trans second, same'.trans same, nofun⟩
        | ok h' =>
          obtain ⟨node, there'⟩ := wrote h' rfl
          obtain ⟨third, same'', inode, there'', contents⟩ := Disk.sync_temporary_through (P := P)
            second.homes (by rw [same', same]; exact now) h' node there'
          refine ⟨first.trans (second.trans third), same''.trans (same'.trans same), fun _ => ?_⟩
          exact ⟨number, inode, there'', contents.trans (Bytes.overwrite_length [] bs)⟩

theorem abandon_through (tag : Tag) (e : Error) :
    Disk.Through c dir P d (abandon d (c.path (.temporary tag)) e).disk ∧
      (abandon d (c.path (.temporary tag)) e).disk.tree.stock c dir = d.tree.stock c dir ∧
      (abandon d (c.path (.temporary tag)) e).result = .error e := by
  obtain ⟨through, same⟩ := Disk.remove_temporary_through homes now named tag
  unfold abandon
  revert through same
  cases d.remove (c.path (.temporary tag)) with
  | mk result d' =>
    intro through same
    cases result with
    | error e' => exact ⟨through, same, rfl⟩
    | ok u => exact ⟨through, same, rfl⟩

/-- **Whatever fails of a store, the record is the last one or the new one**, and the answer says
which. -/
theorem store_through (r : Record)
    (after : P { d.tree.stock c dir with record := some (Text.encode r.text) }) :
    Disk.Through c dir P d (r.store d (c.path .record)).disk ∧
      ((r.store d (c.path .record)).result = .ok () ∧
          (r.store d (c.path .record)).disk.tree.stock c dir =
            { d.tree.stock c dir with record := some (Text.encode r.text) } ∨
        (∃ e, (r.store d (c.path .record)).result = .error e) ∧
          (r.store d (c.path .record)).disk.tree.stock c dir = d.tree.stock c dir) := by
  have temporary : Naming.temporaryPath (c.path .record) d.freshTag =
      c.path (.temporary (nextTag d)) := named.path_temporary (nextTag d)
  obtain ⟨first, same, wrote⟩ :=
    writeSynced_through homes named now (nextTag d) (Text.encode r.text)
  rw [store, temporary]
  revert first same wrote
  cases writeSynced d (c.path (.temporary (nextTag d))) (Text.encode r.text) with
  | mk result d₁ =>
    intro first same wrote
    have now₁ : P (d₁.tree.stock c dir) := by rw [same]; exact now
    cases result with
    | error e =>
      obtain ⟨second, same', failed⟩ := abandon_through first.homes named now₁ (nextTag d)
        (.writeRecord (c.path (.temporary (nextTag d))) e)
      exact ⟨first.trans second, Or.inr ⟨⟨_, failed⟩, same'.trans same⟩⟩
    | ok u =>
      obtain ⟨number, inode, there, contents⟩ := wrote rfl
      obtain ⟨second, outcome⟩ := Disk.rename_record_through first.homes now₁ named there
        (by rw [contents, same]; exact after)
      simp only
      rw [contents, same] at outcome
      revert second outcome
      cases d₁.rename (c.path (.temporary (nextTag d))) (c.path .record) with
      | mk result d₂ =>
        intro second outcome
        rcases outcome with ⟨rfl, stock⟩ | ⟨⟨e, rfl⟩, stock⟩
        · exact ⟨first.trans second, Or.inl ⟨rfl, stock⟩⟩
        · have now₂ : P (d₂.tree.stock c dir) := by rw [stock]; exact now
          obtain ⟨third, same', failed⟩ := abandon_through second.homes named now₂ (nextTag d)
            (.writeRecord (c.path .record) e)
          exact ⟨first.trans (second.trans third), Or.inr ⟨⟨_, failed⟩, same'.trans stock⟩⟩

/-- Removing the record leaves it or leaves none; without faults it leaves none. -/
theorem remove_through (after : P { d.tree.stock c dir with record := none }) :
    Disk.Through c dir P d (remove d (c.path .record)).2 ∧
      ((remove d (c.path .record)).2.tree.stock c dir = { d.tree.stock c dir with record := none } ∨
        (remove d (c.path .record)).2.tree.stock c dir = d.tree.stock c dir) ∧
      (d.Faultless → c.isLong .record = false → (remove d (c.path .record)).1 = .ok () ∧
        (remove d (c.path .record)).2.tree.stock c dir =
          { d.tree.stock c dir with record := none }) := by
  have gone : (d.tree.erase (Tree.place c dir .record)).stock c dir =
      { d.tree.stock c dir with record := none } := by
    rw [Tree.stock, Tree.shelf_erase, Stock.of_update_record]
    rfl
  -- that the file was missing is no failure
  have answered : (remove d (c.path .record)).2 = (d.remove (c.path .record)).2 ∧
      ((d.remove (c.path .record)).1 = .ok () ∨ (d.remove (c.path .record)).1 = .error .notFound →
        (remove d (c.path .record)).1 = .ok ()) := by
    unfold remove
    cases d.remove (c.path .record) with
    | mk result d' =>
      split
      · next eq =>
        cases eq
        exact ⟨rfl, fun _ => rfl⟩
      · next found eq =>
        cases eq
        exact ⟨rfl, fun came => came.resolve_right found⟩
  obtain ⟨disk, ok⟩ := answered
  obtain ⟨through, ⟨e, failed, tree, why⟩ | ⟨done, -, tree⟩⟩ :=
    Disk.remove_ends homes named .record now (by rw [gone]; exact after)
  · rw [disk, tree]
    refine ⟨through, Or.inr rfl, fun faultless short => ?_⟩
    rcases why faultless with long | ⟨missing, rfl⟩
    · rw [short] at long
      cases long
    · have none : d.tree.stock c dir = { d.tree.stock c dir with record := none } := by
        rw [Tree.stock, Stock.of, missing]
        rfl
      exact ⟨ok (Or.inr failed), none⟩
  · rw [disk, tree]
    exact ⟨through, Or.inl gone, fun _ _ => ⟨ok (Or.inl done), gone⟩⟩

end Storing

/-! ### Loading -/

/-- The record that a queue makes of what it finds: the one that is kept, or a new queue's. -/
def Kept (bs : Option Bytes) (r : Record) : Prop :=
  (bs = none ∧ r = {}) ∨ ∃ kept s, bs = some kept ∧ Text.decode kept = some s ∧ parse s = .ok r

variable {bs : Option Bytes} {kept : Bytes} {r : Record}

theorem Kept.inWords (kept : Kept bs r) : r.InWords := by
  rcases kept with ⟨-, rfl⟩ | ⟨-, s, -, -, parsed⟩
  · exact ⟨by decide, by decide, by constructor <;> decide, by constructor <;> decide⟩
  · exact inWords_of_parse parsed

/-- One record is made of what is found. -/
theorem Kept.unique {r' : Record} (kept : Kept bs r) (kept' : Kept bs r') : r = r' := by
  rcases kept with ⟨rfl, rfl⟩ | ⟨_, s, rfl, decoded, parsed⟩
  · rcases kept' with ⟨-, rfl⟩ | ⟨_, _, no, -⟩
    · rfl
    · cases no
  · rcases kept' with ⟨no, -⟩ | ⟨_, s', same, decoded', parsed'⟩
    · cases no
    · cases same
      rw [decoded] at decoded'
      cases decoded'
      rw [parsed] at parsed'
      cases parsed'
      rfl

/-- A record that was stored is the one that is found. -/
theorem kept_text (words : r.InWords) : Kept (some (Text.encode r.text)) r :=
  Or.inr ⟨_, _, rfl, Text.decode_encode _, parse_text words⟩

/-! What loading answers, told from what reading its file does. -/

section Answers

variable {path : String}

theorem load_of_missing (missing : (d.readFile path).1 = .error .notFound) :
    (load d path).1 = .ok none := by
  unfold load
  revert missing
  cases d.readFile path with
  | mk result d' =>
    rintro rfl
    rfl

theorem load_of_error {e : FileError} (failed : (d.readFile path).1 = .error e)
    (there : e ≠ .notFound) : (load d path).1 = .error (.readRecord path e) := by
  unfold load
  revert failed
  cases d.readFile path with
  | mk result d' =>
    rintro rfl
    split
    · next eq =>
      cases eq
      exact absurd rfl there
    · next eq =>
      cases eq
      rfl
    · next eq => cases eq

theorem load_ok_iff {found : Option Record} (read : (d.readFile path).1 = .ok kept) :
    (load d path).1 = .ok found ↔
      ∃ s r, Text.decode kept = some s ∧ parse s = .ok r ∧ found = some r := by
  unfold load
  revert read
  cases d.readFile path with
  | mk result d' =>
    rintro rfl
    simp only
    cases Text.decode kept with
    | none => exact ⟨nofun, fun ⟨_, _, no, _⟩ => nomatch no⟩
    | some s =>
      simp only
      cases parsed : parse s with
      | error flaw =>
        refine ⟨nofun, fun ⟨_, r, same, ok, _⟩ => ?_⟩
        cases same
        rw [parsed] at ok
        cases ok
      | ok r =>
        refine ⟨fun ok => ?_, fun ⟨_, r', same, ok, eq⟩ => ?_⟩
        · cases ok
          exact ⟨s, r, rfl, parsed, rfl⟩
        · cases same
          rw [parsed] at ok
          cases ok
          rw [eq]

end Answers

/-- Loading a record changes nothing. -/
theorem load_looks (d : Disk) (path : String) : d.Looks (load d path).2 := by
  have read := Disk.looks_readFile (d := d) path
  unfold load
  revert read
  cases d.readFile path with
  | mk result d' =>
    intro read
    split
    · next eq =>
      cases eq
      exact read
    · next eq =>
      cases eq
      exact read
    · next eq =>
      cases eq
      split
      · exact read
      · split
        · exact read
        · exact read

end Record

/-- A queue that starts on a tree and meets no failure takes up the record `r`. -/
def FileSystem.Tree.Persists (t : Tree) (c : Config) (r : Record) : Prop :=
  ∀ d : Disk, d.tree = t → d.Faultless →
    ∃ found, (Record.load d (Naming.recordPath c.dataPath c.name)).1 = .ok found ∧ found.getD {} = r

/-- **What is taken up is told from the bytes of the record.** -/
theorem FileSystem.Tree.Homes.persists_iff {t : Tree} {r : Record} (homes : t.Homes c dir)
    (named : c.Named) :
    t.Persists c r ↔ c.isLong .record = false ∧ Record.Kept (t.stock c dir).record r := by
  have path : Naming.recordPath c.dataPath c.name = c.path .record := rfl
  -- what loading comes to on any disk with this tree
  have loads : ∀ d : Disk, d.tree = t → d.Faultless →
      ((∃ found, (Record.load d (c.path .record)).1 = .ok found ∧ found.getD {} = r) ↔
        c.isLong .record = false ∧ Record.Kept (t.stock c dir).record r) := by
    rintro d rfl faultless
    cases long : c.isLong .record with
    | true =>
      have failed : (Record.load d (c.path .record)).1 =
          .error (.readRecord (c.path .record) .invalidName) :=
        Record.load_of_error (Disk.readFile_long homes named faultless long) nofun
      rw [failed]
      refine ⟨?_, fun no => absurd no.1 Bool.noConfusion⟩
      rintro ⟨_, ok, -⟩
      cases ok
    | false =>
      rw [and_iff_right rfl]
      rcases Option.eq_none_or_eq_some (d.tree.shelf c dir .record) with
        missing | ⟨⟨number, inode⟩, found⟩
      · have none : (d.tree.stock c dir).record = none := by rw [Tree.stock, Stock.of, missing]; rfl
        rw [Record.load_of_missing (Disk.readFile_missing homes named faultless long missing), none]
        constructor
        · rintro ⟨_, ok, rfl⟩
          cases ok
          exact Or.inl ⟨rfl, rfl⟩
        · rintro (⟨-, rfl⟩ | ⟨_, _, no, -⟩)
          · exact ⟨_, rfl, rfl⟩
          · cases no
      · have there : (d.tree.stock c dir).record = some inode.contents := by
          rw [Tree.stock, Stock.of, found]
          rfl
        have read := Disk.readFile_found homes named faultless long found
        rw [there]
        constructor
        · rintro ⟨_, ok, rfl⟩
          obtain ⟨s, r, decoded, parsed, rfl⟩ := (Record.load_ok_iff read).1 ok
          exact Or.inr ⟨_, s, rfl, decoded, parsed⟩
        · rintro (⟨no, -⟩ | ⟨_, s, kept, decoded, parsed⟩)
          · cases no
          · cases kept
            exact ⟨some r, (Record.load_ok_iff read).2 ⟨s, r, decoded, parsed, rfl⟩, rfl⟩
  constructor
  · intro persists
    exact (loads { tree := t } rfl fun _ _ => rfl).1 (persists { tree := t } rfl fun _ _ => rfl)
  · intro kept d tree faultless
    exact (loads d tree faultless).2 kept

end DurableQueue
