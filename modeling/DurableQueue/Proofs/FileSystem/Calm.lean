import DurableQueue.Proofs.FileSystem.Faults
import DurableQueue.Proofs.FileSystem.Footprint
import DurableQueue.Proofs.FileSystem.Homes

/-!
# Disks on which only syncs fail

On a calm disk every call but those of a sync meets no fault (`Disk.Calm`). Each call on a file of
the queue then does what it is for, or fails because the file's name is too long or because nothing
is there, and says nothing of how earlier syncs went. The calls of a sync may fail at any time; what
they leave behind differs at most in the record, in temporary names and in what is on the medium
(`Undisturbed`).
-/

namespace DurableQueue

open FileSystem

/-- A path ends as the name of the file does. -/
theorem Config.getLast?_path (c : Config) (f : QueueFile) :
    (c.path f).toList.getLast? = f.ending.getLast? := by
  have name : (f.name c.name).toList.getLast? = f.ending.getLast? := by
    have some : f.ending ≠ [] := by cases f <;> simp [QueueFile.ending]
    obtain ⟨last, eq⟩ := Option.ne_none_iff_exists'.1 (mt List.getLast?_eq_none_iff.1 some)
    rw [QueueFile.toList_name, List.getLast?_append, eq]
    rfl
  have some : (f.name c.name).toList.getLast? ≠ none := by
    rw [name]
    cases f <;> simp [QueueFile.ending]
  rw [Config.path, Path.join, ← name]
  obtain ⟨last, eq⟩ := Option.ne_none_iff_exists'.1 some
  split
  · rfl
  · split <;> simp [List.getLast?_append, List.getLast?_cons, eq]

/-- Only temporary records have names that a sync writes under. -/
theorem Config.path_ne_temporary {c : Config} {f : QueueFile}
    (ends : f.ending.getLast? ≠ some 'p') (tag : String) :
    c.path f ≠ Naming.temporaryPath (c.path .record) tag := by
  intro same
  have last := c.getLast?_path f
  rw [same] at last
  refine ends (last.symm.trans ?_)
  simp [Naming.temporaryPath, List.getLast?_append, List.getLast?_cons]

/-- The two shelves differ at most in the record, in temporary records and in how much of a segment
is on the medium. -/
structure Undisturbed (s s' : Shelf) : Prop where
  alike : Alike s s'
  aside : ∀ k, s' (.quarantined k) = s (.quarantined k)

namespace Undisturbed

variable {s s' s'' : Shelf}

theorem refl (s : Shelf) : Undisturbed s s := ⟨.refl s, fun _ => rfl⟩

theorem trans (first : Undisturbed s s') (second : Undisturbed s' s'') : Undisturbed s s'' :=
  ⟨first.alike.trans second.alike, fun k => (second.aside k).trans (first.aside k)⟩

theorem update_record (entry : Option (Nat × Inode)) :
    Undisturbed s (Function.update s .record entry) :=
  ⟨fun _ => by rw [Function.update_of_ne (by simp)], fun _ => Function.update_of_ne (by simp) ..⟩

theorem update_temporary (tag : Tag) (entry : Option (Nat × Inode)) :
    Undisturbed s (Function.update s (.temporary tag) entry) :=
  ⟨fun _ => by rw [Function.update_of_ne (by simp)], fun _ => Function.update_of_ne (by simp) ..⟩

theorem update_segment {k number : Nat} {inode inode' : Inode}
    (found : s (.segment k) = some (number, inode)) (same : inode'.contents = inode.contents) :
    Undisturbed s (Function.update s (.segment k) (some (number, inode'))) := by
  refine ⟨fun j => ?_, fun j => Function.update_of_ne (by simp) ..⟩
  by_cases e : j = k
  · subst e
    rw [Function.update_self, found, Option.map_some, Option.map_some, same]
  · rw [Function.update_of_ne (by simpa using e)]

end Undisturbed

namespace FileSystem.Disk

/-- No calls are planned to fail but those of a sync: bringing a file to the medium, and creating,
writing, renaming and removing a temporary record. -/
def OnlySyncsFail (d : Disk) (c : Config) : Prop :=
  ∀ n call, ¬call.Stores (c.path .record) → d.faults n call = none

/-- Only syncs fail, and the directory holds `s` under the names of the queue's files. -/
structure Calm (d : Disk) (c : Config) (dir : Location) (s : Shelf) : Prop where
  plan : d.OnlySyncsFail c
  homes : d.tree.Homes c dir
  shelf_eq : d.tree.shelf c dir = s

variable {c : Config} {dir : Location} {d : Disk} {s s' : Shelf} {f g : QueueFile} {number : Nat}
  {inode : Inode}

theorem Serves.calm (h : d.Serves c dir s) : d.Calm c dir s :=
  ⟨fun n call _ => h.faultless n call, h.hosts.homes, h.shelf_eq⟩

namespace Calm

theorem noted (h : d.Calm c dir s) {t : Tree} (homes : t.Homes c dir) (shelf : t.shelf c dir = s')
    (call : Call) (error : Option FileError) : (d.noted call error t).Calm c dir s' :=
  ⟨h.plan, homes, shelf⟩

theorem perform (h : d.Calm c dir s) {α : Type} (call : Call)
    (other : ¬call.Stores (c.path .record)) (act : Tree → Except FileError α × Tree) :
    d.perform call act =
      ((act d.tree).1, d.noted call (errorOf (act d.tree).1) (act d.tree).2) := by
  rw [Disk.perform, h.plan _ _ other]

/-- A call that does not look at the tree any further leaves it as it is. -/
theorem observe (h : d.Calm c dir s) {α : Type} (call : Call)
    (other : ¬call.Stores (c.path .record)) (look : Tree → Except FileError α) :
    ∃ d', d.observe call look = (look d.tree, d') ∧ d'.Calm c dir s :=
  ⟨_, h.perform call other _, h.noted h.homes h.shelf_eq _ _⟩

section Paths

variable (h : d.Calm c dir s) (named : c.Named)
include h named

theorem locate (f : QueueFile) (last : Bool) : d.tree.locate last (Path.parts (c.path f)) =
    if c.isLong f then .error .invalidName else .ok (Tree.place c dir f) := h.homes.locate named f last

theorem openRead (short : c.isLong f = false) (found : s f = some (number, inode)) :
    ∃ d', d.openRead (c.path f) = (.ok ⟨c.path f, .file number, 0⟩, d') ∧ d'.Calm c dir s := by
  obtain ⟨d', read, calm⟩ := h.observe (.openRead (c.path f)) id fun t =>
    (t.openRead (Path.parts (c.path f))).map fun node => (⟨c.path f, node, 0⟩ : Handle)
  refine ⟨d', ?_, calm⟩
  rw [Disk.openRead, read, Tree.openRead, Tree.find?, h.locate named, short]
  simp [bind, Except.bind, (Tree.lookup_of_shelf (h.shelf_eq ▸ found)).1, Except.map]

theorem openRead_fails (gone : c.isLong f = true ∨ s f = none) :
    ∃ e d', d.openRead (c.path f) = (.error e, d') ∧ d'.Calm c dir s := by
  obtain ⟨d', read, calm⟩ := h.observe (.openRead (c.path f)) id fun t =>
    (t.openRead (Path.parts (c.path f))).map fun node => (⟨c.path f, node, 0⟩ : Handle)
  rw [Disk.openRead, read, Tree.openRead, Tree.find?, h.locate named]
  cases long : c.isLong f with
  | true => exact ⟨_, d', rfl, calm⟩
  | false =>
    rw [long, or_iff_right Bool.false_ne_true] at gone
    rw [if_neg Bool.false_ne_true]
    simp only [bind, Except.bind, h.homes.lookup_none (h.shelf_eq ▸ gone), Except.map]
    exact ⟨_, d', rfl, calm⟩

/-- A file that is opened for writing is there afterwards. -/
theorem openWrite (short : c.isLong f = false) :
    ∃ number inode d' s', d.openWrite (c.path f) = (.ok ⟨c.path f, .file number, 0⟩, d') ∧
      d'.Calm c dir s' ∧ s' = Function.update s f (some (number, inode)) ∧
      (s f = some (number, inode) ∨ s f = none ∧ inode = {}) := by
  rw [Disk.openWrite, h.perform (.openWrite (c.path f)) id]
  simp only [Tree.openWrite, h.locate named, short, Bool.false_eq_true, if_false]
  rcases Option.eq_none_or_eq_some (s f) with missing | ⟨⟨number, inode⟩, found⟩
  · obtain ⟨homes, shelf⟩ := h.homes.putFile (f := f) {}
    rw [h.shelf_eq] at shelf
    simp only [h.homes.lookup_none (h.shelf_eq ▸ missing)]
    exact ⟨d.tree.inodes.size, {}, _, _, rfl, h.noted homes shelf _ _, rfl, Or.inr ⟨missing, rfl⟩⟩
  · simp only [(Tree.lookup_of_shelf (h.shelf_eq ▸ found)).1]
    refine ⟨number, inode, _, s, rfl, h.noted h.homes h.shelf_eq _ _, ?_, Or.inl found⟩
    rw [← found, Function.update_eq_self]

theorem openWrite_fails (long : c.isLong f = true) :
    ∃ d', d.openWrite (c.path f) = (.error .invalidName, d') ∧ d'.Calm c dir s := by
  refine ⟨_, ?_, h.noted h.homes h.shelf_eq (.openWrite (c.path f)) (some .invalidName)⟩
  rw [Disk.openWrite, h.perform (.openWrite (c.path f)) id]
  simp only [Tree.openWrite, h.locate named, long, if_true, Except.map, errorOf]

/-- What comes of removing a file. -/
theorem remove (ends : f.ending.getLast? ≠ some 'p') : ∃ d',
    d.remove (c.path f) = (if c.isLong f then .error .invalidName
      else if (s f).isSome then .ok () else .error .notFound, d') ∧
      d'.Calm c dir (if c.isLong f then s else Function.update s f none) := by
  have other : ¬(Call.remove (c.path f)).Stores (c.path .record) := fun ⟨tag, same⟩ =>
    Config.path_ne_temporary ends tag same
  rw [Disk.remove, h.perform _ other]
  simp only [Tree.remove, h.locate named]
  cases long : c.isLong f with
  | true =>
    simp only [if_true]
    exact ⟨_, rfl, h.noted h.homes h.shelf_eq _ _⟩
  | false =>
    simp only [Bool.false_eq_true, if_false]
    rcases Option.eq_none_or_eq_some (s f) with missing | ⟨⟨number, inode⟩, found⟩
    · have same : Function.update s f none = s := by rw [← missing, Function.update_eq_self]
      simp only [h.homes.lookup_none (h.shelf_eq ▸ missing), missing, same]
      exact ⟨_, rfl, h.noted h.homes h.shelf_eq _ _⟩
    · simp only [(Tree.lookup_of_shelf (h.shelf_eq ▸ found)).1, found]
      have shelf := @Tree.shelf_erase d.tree c dir f
      rw [h.shelf_eq] at shelf
      exact ⟨_, rfl, h.noted h.homes.erase shelf _ _⟩

/-- What a rename leaves behind. -/
theorem rename (ends : f.ending.getLast? ≠ some 'p') (ne : g ≠ f) : ∃ result d',
    d.rename (c.path f) (c.path g) = (result, d') ∧
      d'.Calm c dir (if c.isLong f || c.isLong g || (s f).isNone then s
        else Function.update (Function.update s f none) g (s f)) := by
  have other : ¬(Call.rename (c.path f) (c.path g)).Stores (c.path .record) := fun ⟨⟨tag, same⟩, _⟩ =>
    Config.path_ne_temporary ends tag same
  rw [Disk.rename, h.perform _ other]
  simp only [Tree.rename, h.locate named]
  cases long : c.isLong f with
  | true =>
    simp only [if_true, Bool.true_or]
    exact ⟨_, _, rfl, h.noted h.homes h.shelf_eq _ _⟩
  | false =>
    cases long' : c.isLong g with
    | true =>
      simp only [Bool.false_eq_true, if_false, if_true, Bool.true_or, Bool.or_true]
      exact ⟨_, _, rfl, h.noted h.homes h.shelf_eq _ _⟩
    | false =>
      simp only [Bool.false_eq_true, if_false, Bool.false_or]
      rcases Option.eq_none_or_eq_some (s f) with missing | ⟨⟨number, inode⟩, found⟩
      · simp only [h.homes.lookup_none (h.shelf_eq ▸ missing), missing, Option.isNone_none, if_true]
        exact ⟨_, _, rfl, h.noted h.homes h.shelf_eq _ _⟩
      · have here : d.tree.shelf c dir f = some (number, inode) := h.shelf_eq ▸ found
        have apart : Tree.place c dir f ≠ Tree.place c dir g := fun e =>
          ne (Tree.place_inj.1 e).symm
        have shelf := Tree.shelf_move (g := g) here
        rw [h.shelf_eq] at shelf
        have homes := h.homes.move (g := g) here
        simp only [(Tree.lookup_of_shelf here).1, if_neg apart, found, Option.isNone_some,
          Bool.false_eq_true, if_false]
        rcases h.homes.plain g with none | ⟨n, there, -⟩
        · simp only [none]
          exact ⟨_, _, rfl, h.noted homes shelf _ _⟩
        · simp only [there]
          exact ⟨_, _, rfl, h.noted homes shelf _ _⟩

end Paths

section Handles

variable (h : d.Calm c dir s) (handle : Handle)
include h

/-- A file can be moved to any offset below `Word.signedLimit`, and to no other. -/
theorem seek (offset : Nat) (start : handle.offset = 0) : ∃ d',
    d.seek handle offset = (if offset < Word.signedLimit then .ok { handle with offset }
      else .error .invalidInput, d') ∧ d'.Calm c dir s := by
  rw [Disk.seek]
  split
  · next zero =>
    refine ⟨d, ?_, h⟩
    rw [zero, if_pos (by decide), ← start]
  · obtain ⟨d', sought, calm⟩ := h.observe (.seek handle.path offset) id fun _ =>
      if offset < Word.signedLimit then .ok { handle with offset } else .error .invalidInput
    exact ⟨d', sought, calm⟩

variable (node : handle.node = .file number) (found : s f = some (number, inode))
include node found

theorem read (size : Nat) : ∃ d', d.read handle size =
    (.ok ((inode.contents.drop handle.offset).take size,
      { handle with offset :=
          handle.offset + ((inode.contents.drop handle.offset).take size).length }), d') ∧
      d'.Calm c dir s := by
  obtain ⟨d', read, calm⟩ := h.observe (.read handle.path handle.offset size) id fun t =>
    (t.read handle.node handle.offset size).map fun bs =>
      (bs, { handle with offset := handle.offset + bs.length })
  refine ⟨d', ?_, calm⟩
  rw [Disk.read, read]
  simp [Tree.read, node, (Tree.lookup_of_shelf (h.shelf_eq ▸ found)).2, Except.map]

theorem write (path : handle.path = c.path f) (ends : f.ending.getLast? ≠ some 'p') (new : Bytes) :
    ∃ d', d.write handle new = (.ok { handle with offset := handle.offset + new.length }, d') ∧
      d'.Calm c dir (Function.update s f (some (number, written inode handle.offset new))) := by
  have other : ¬(Call.write handle.path handle.offset new).Stores (c.path .record) := by
    rintro ⟨tag, same⟩
    exact Config.path_ne_temporary ends tag (path.symm.trans same)
  obtain ⟨homes, shelf⟩ := h.homes.modify (h.shelf_eq ▸ found) fun file =>
    written file handle.offset new
  refine ⟨d.noted (.write handle.path handle.offset new) none _, ?_,
    h.noted homes (by rw [shelf, h.shelf_eq]) _ _⟩
  rw [Disk.write, h.plan _ _ other]
  simp [Tree.write, node, Except.map, errorOf, written]

end Handles

/-! ### Calls that may fail -/

section Failing

/-- A call that may fail does nothing then. -/
theorem perform_any (h : d.Calm c dir s) {α : Type} (call : Call)
    (act : Tree → Except FileError α × Tree) :
    ((∃ e, (d.perform call act).1 = .error e) ∧ (d.perform call act).2.Calm c dir s) ∨
    (d.perform call act).1 = (act d.tree).1 ∧ ∀ s', (act d.tree).2.Homes c dir →
      (act d.tree).2.shelf c dir = s' → (d.perform call act).2.Calm c dir s' := by
  unfold Disk.perform
  split
  · exact Or.inl ⟨⟨_, rfl⟩, h.noted h.homes h.shelf_eq _ _⟩
  · exact Or.inr ⟨rfl, fun s' homes shelf => h.noted homes shelf _ _⟩

variable (h : d.Calm c dir s) (named : c.Named) (tag : Tag)
include h

section Paths

include named

theorem createNew_any : ∃ s', (d.createNew (c.path (.temporary tag))).2.Calm c dir s' ∧
    Undisturbed s s' ∧ ∀ handle, (d.createNew (c.path (.temporary tag))).1 = .ok handle →
      ∃ number inode, s' (.temporary tag) = some (number, inode) ∧ handle.node = .file number := by
  obtain ⟨parts, parts_eq⟩ : ∃ parts, parts = Path.parts (c.path (.temporary tag)) := ⟨_, rfl⟩
  have there : d.tree.locate false parts = if c.isLong (.temporary tag) then .error .invalidName
      else .ok (Tree.place c dir (.temporary tag)) := parts_eq ▸ h.locate named _ false
  obtain ⟨act, act_eq, call⟩ : ∃ act : Tree → Except FileError Handle × Tree,
      (∀ t, act t = ((t.createNew parts).1.map fun node => ⟨c.path (.temporary tag), node, 0⟩,
        (t.createNew parts).2)) ∧
      d.createNew (c.path (.temporary tag)) =
        d.perform (.createNew (c.path (.temporary tag))) act :=
    ⟨_, fun t => by rw [parts_eq], rfl⟩
  rw [call]
  rcases h.perform_any (.createNew (c.path (.temporary tag))) act with
    ⟨⟨e, failed⟩, calm⟩ | ⟨done, calm⟩
  · rw [failed]
    exact ⟨s, calm, .refl s, nofun⟩
  rw [done]
  by_cases refused : ∃ e, act d.tree = (.error e, d.tree)
  · obtain ⟨e, refused⟩ := refused
    rw [refused] at calm ⊢
    exact ⟨s, calm s h.homes h.shelf_eq, .refl s, nofun⟩
  cases short : c.isLong (.temporary tag) with
  | true =>
    rw [short, if_pos rfl] at there
    exact absurd ⟨.invalidName, by rw [act_eq]; simp only [Tree.createNew, there, Except.map]⟩ refused
  | false =>
    rw [short, if_neg Bool.false_ne_true] at there
    cases found : d.tree.lookup (Tree.place c dir (.temporary tag)) with
    | some node =>
      refine absurd ⟨.alreadyExists, ?_⟩ refused
      rw [act_eq]
      simp only [Tree.createNew, there, found, Except.map]
    | none =>
      have created : act d.tree =
          (.ok ⟨c.path (.temporary tag), .file d.tree.inodes.size, 0⟩,
            (d.tree.putFile (Tree.place c dir (.temporary tag)) {}).2) := by
        rw [act_eq]
        simp only [Tree.createNew, there, found, Except.map]
        rfl
      obtain ⟨homes, shelf⟩ := h.homes.putFile (f := .temporary tag) {}
      rw [h.shelf_eq] at shelf
      rw [created] at calm ⊢
      refine ⟨_, calm _ homes shelf, .update_temporary .., ?_⟩
      intro handle ok
      cases ok
      exact ⟨_, _, Function.update_self .., rfl⟩

theorem remove_any : ∃ s', (d.remove (c.path (.temporary tag))).2.Calm c dir s' ∧ Undisturbed s s' := by
  obtain ⟨parts, parts_eq⟩ : ∃ parts, parts = Path.parts (c.path (.temporary tag)) := ⟨_, rfl⟩
  have there : d.tree.locate false parts = if c.isLong (.temporary tag) then .error .invalidName
      else .ok (Tree.place c dir (.temporary tag)) := parts_eq ▸ h.locate named _ false
  have call : d.remove (c.path (.temporary tag)) =
      d.perform (.remove (c.path (.temporary tag))) fun t => t.remove parts := by
    rw [parts_eq]
    rfl
  rw [call]
  rcases h.perform_any (.remove (c.path (.temporary tag))) fun t => t.remove parts with
    ⟨-, calm⟩ | ⟨-, calm⟩
  · exact ⟨s, calm, .refl s⟩
  by_cases stays : (d.tree.remove parts).2 = d.tree
  · rw [stays] at calm
    exact ⟨s, calm s h.homes h.shelf_eq, .refl s⟩
  cases short : c.isLong (.temporary tag) with
  | true =>
    rw [short, if_pos rfl] at there
    exact absurd (by simp only [Tree.remove, there]) stays
  | false =>
    rw [short, if_neg Bool.false_ne_true] at there
    have erased : (d.tree.remove parts).2 = d.tree.erase (Tree.place c dir (.temporary tag)) := by
      revert stays
      simp only [Tree.remove, there]
      split
      · exact fun stays => absurd rfl stays
      · exact fun stays => absurd rfl stays
      · exact fun _ => rfl
    rw [erased] at calm
    exact ⟨_, calm _ h.homes.erase (by rw [Tree.shelf_erase, h.shelf_eq]), .update_temporary ..⟩

/-- A rename of a temporary record may fail. -/
theorem rename_any : ∃ s', (d.rename (c.path (.temporary tag)) (c.path .record)).2.Calm c dir s' ∧
    Undisturbed s s' := by
  obtain ⟨source, source_eq⟩ : ∃ source, source = Path.parts (c.path (.temporary tag)) := ⟨_, rfl⟩
  obtain ⟨target, target_eq⟩ : ∃ target, target = Path.parts (c.path .record) := ⟨_, rfl⟩
  have here : d.tree.locate false source = if c.isLong (.temporary tag) then .error .invalidName
      else .ok (Tree.place c dir (.temporary tag)) := source_eq ▸ h.locate named _ false
  have there : d.tree.locate false target = if c.isLong .record then .error .invalidName
      else .ok (Tree.place c dir .record) := target_eq ▸ h.locate named _ false
  have call : d.rename (c.path (.temporary tag)) (c.path .record) =
      d.perform (.rename (c.path (.temporary tag)) (c.path .record)) fun t =>
        t.rename source target := by
    rw [source_eq, target_eq]
    rfl
  rw [call]
  rcases h.perform_any (.rename (c.path (.temporary tag)) (c.path .record))
    fun t => t.rename source target with ⟨-, calm⟩ | ⟨-, calm⟩
  · exact ⟨s, calm, .refl s⟩
  by_cases stays : (d.tree.rename source target).2 = d.tree
  · rw [stays] at calm
    exact ⟨s, calm s h.homes h.shelf_eq, .refl s⟩
  cases short : c.isLong (.temporary tag) with
  | true =>
    rw [short, if_pos rfl] at here
    exact absurd (by simp only [Tree.rename, here]) stays
  | false =>
    rw [short, if_neg Bool.false_ne_true] at here
    cases short' : c.isLong .record with
    | true =>
      rw [short', if_pos rfl] at there
      exact absurd (by simp only [Tree.rename, here, there]) stays
    | false =>
      rw [short', if_neg Bool.false_ne_true] at there
      rcases Option.eq_none_or_eq_some (s (.temporary tag)) with missing | ⟨⟨number, inode⟩, found⟩
      · have none := h.homes.lookup_none (h.shelf_eq ▸ missing)
        exact absurd (by simp only [Tree.rename, here, there, none]) stays
      · have found : d.tree.shelf c dir (.temporary tag) = some (number, inode) :=
          h.shelf_eq ▸ found
        have shelf := Tree.shelf_move (g := .record) found
        rw [h.shelf_eq] at shelf
        have homes := h.homes.move (g := .record) found
        have apart : Tree.place c dir (.temporary tag) ≠ Tree.place c dir .record := fun e => by
          cases Tree.place_inj.1 e
        have moved : (d.tree.rename source target).2 =
            (d.tree.erase (Tree.place c dir (.temporary tag))).put (Tree.place c dir .record)
              (.file number) := by
          simp only [Tree.rename, here, there, (Tree.lookup_of_shelf found).1, if_neg apart]
          rcases h.homes.plain .record with none | ⟨n, there, -⟩
          · simp only [none]
          · simp only [there]
        rw [moved] at calm
        exact ⟨_, calm _ homes shelf, (Undisturbed.update_temporary ..).trans (.update_record _)⟩

end Paths

variable (handle : Handle) (node : handle.node = .file number)
include node

/-- A write to a temporary record may stop anywhere. -/
theorem write_any (found : s (.temporary tag) = some (number, inode)) (new : Bytes) :
    ∃ s' inode', (d.write handle new).2.Calm c dir s' ∧ Undisturbed s s' ∧
      s' (.temporary tag) = some (number, inode') := by
  have wrote : ∀ bs, d.tree.write handle.node handle.offset bs =
      (.ok (), d.tree.modify number fun file => written file handle.offset bs) := by
    intro bs
    rw [node]
    rfl
  have after : ∀ bs, (d.tree.modify number fun file => written file handle.offset bs).Homes c dir ∧
      (d.tree.modify number fun file => written file handle.offset bs).shelf c dir =
        Function.update s (.temporary tag) (some (number, written inode handle.offset bs)) := by
    intro bs
    obtain ⟨homes, shelf⟩ := h.homes.modify (h.shelf_eq ▸ found) fun file =>
      written file handle.offset bs
    exact ⟨homes, by rw [shelf, h.shelf_eq]⟩
  unfold Disk.write
  simp only [wrote]
  split
  · next fault _ =>
    obtain ⟨homes, shelf⟩ := after (new.take fault.written)
    exact ⟨_, _, h.noted homes shelf _ _, .update_temporary .., Function.update_self ..⟩
  · obtain ⟨homes, shelf⟩ := after new
    exact ⟨_, _, h.noted homes shelf _ _, .update_temporary .., Function.update_self ..⟩

omit tag in
/-- Bringing a file to the medium may fail. -/
theorem sync_any (found : s f = some (number, inode))
    (kept : Undisturbed s (Function.update s f (some (number, synced inode)))) :
    ∃ s', (d.sync handle).2.Calm c dir s' ∧ Undisturbed s s' := by
  rcases h.perform_any (.sync handle.path) fun t => t.sync handle.node with ⟨-, calm⟩ | ⟨-, calm⟩
  · exact ⟨s, calm, .refl s⟩
  · obtain ⟨homes, shelf⟩ := h.homes.modify (h.shelf_eq ▸ found) synced
    have brought : d.tree.sync handle.node = (.ok (), d.tree.modify number synced) := by
      rw [node]
      rfl
    rw [brought] at calm
    exact ⟨_, calm _ homes (by rw [shelf, h.shelf_eq]), kept⟩

end Failing

end Calm

end FileSystem.Disk

end DurableQueue
