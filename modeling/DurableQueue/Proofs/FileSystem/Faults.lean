import DurableQueue.Proofs.FileSystem.Calls

/-!
# Calls that may fail

What a call on a file of the queue does when any call may fail at any time. A call that fails leaves
the tree as it was, but for a write, which may have written a part (`Disk.perform_cases`); and a
call on one file spares all others, whatever comes of it (`Tree.Spares`).
-/

namespace DurableQueue.FileSystem

/-- The files of the queue that are spared are in `t'` what they were in `t`; others may have come
or gone. -/
structure Tree.Spares (c : Config) (dir : Location) (spared : QueueFile → Prop) (t t' : Tree) :
    Prop where
  hosts : t'.Hosts c.dataPath dir
  same : ∀ f entry, spared f → t.shelf c dir f = some entry → t'.shelf c dir f = some entry

namespace Tree.Spares

variable {c : Config} {dir : Location} {spared spared' : QueueFile → Prop} {t t' t'' : Tree}

theorem refl (hosts : t.Hosts c.dataPath dir) : t.Spares c dir spared t :=
  ⟨hosts, fun _ _ _ found => found⟩

theorem trans (first : t.Spares c dir spared t') (second : t'.Spares c dir spared t'') :
    t.Spares c dir spared t'' :=
  ⟨second.hosts, fun f entry kept found => second.same f entry kept (first.same f entry kept found)⟩

theorem mono (h : t.Spares c dir spared t') (fewer : ∀ f, spared' f → spared f) :
    t.Spares c dir spared' t' :=
  ⟨h.hosts, fun f entry kept => h.same f entry (fewer f kept)⟩

/-- A shelf that differs in one place spares the rest. -/
theorem of_update {f : QueueFile} {entry : Option (Nat × Inode)} (hosts : t'.Hosts c.dataPath dir)
    (shelf : t'.shelf c dir = Function.update (t.shelf c dir) f entry) :
    t.Spares c dir (· ≠ f) t' := by
  refine ⟨hosts, ?_⟩
  intro g e ne found
  rw [shelf, Function.update_of_ne ne]
  exact found

/-- A file that is made anew leaves all that are there alone. -/
theorem putFile {f : QueueFile} (hosts : t.Hosts c.dataPath dir) (missing : t.shelf c dir f = none) :
    t.Spares c dir (fun _ => True) (t.putFile (place c dir f) {}).2 ∧
      (t.putFile (place c dir f) {}).2.shelf c dir f = some (t.inodes.size, {}) := by
  obtain ⟨hosts', shelf⟩ := hosts.putFile (f := f) {}
  refine ⟨⟨hosts', fun g entry _ found => ?_⟩, by rw [shelf, Function.update_self]⟩
  rw [shelf, Function.update_of_ne]
  · exact found
  · rintro rfl
    rw [missing] at found
    cases found

end Tree.Spares

namespace Disk

variable {c : Config} {dir : Location} {d : Disk} {f g : QueueFile} {number : Nat} {inode : Inode}

/-- A call fails and does nothing, or does what it is for. -/
theorem perform_cases {α : Type} (d : Disk) (call : Call) (act : Tree → Except FileError α × Tree) :
    ((∃ e, (d.perform call act).1 = .error e) ∧ (d.perform call act).2.tree = d.tree) ∨
      ((d.perform call act).1 = (act d.tree).1 ∧ (d.perform call act).2.tree = (act d.tree).2) := by
  unfold perform
  split
  · exact Or.inl ⟨⟨_, rfl⟩, rfl⟩
  · exact Or.inr ⟨rfl, rfl⟩

/-- What opening for writing does to the tree and answers, apart. -/
theorem openWrite_eq (d : Disk) (path : String) : d.openWrite path =
    d.perform (.openWrite path) fun t =>
      ((t.openWrite (Path.parts path)).1.map fun node => ⟨path, node, 0⟩,
        (t.openWrite (Path.parts path)).2) := rfl

theorem createNew_eq (d : Disk) (path : String) : d.createNew path =
    d.perform (.createNew path) fun t =>
      ((t.createNew (Path.parts path)).1.map fun node => ⟨path, node, 0⟩,
        (t.createNew (Path.parts path)).2) := rfl

@[simp] theorem tree_observe {α : Type} (call : Call) (look : Tree → Except FileError α) :
    (d.observe call look).2.tree = d.tree := by
  rcases d.perform_cases call fun t => (look t, t) with ⟨-, same⟩ | ⟨-, same⟩
  · exact same
  · exact same

@[simp] theorem tree_openRead (path : String) : (d.openRead path).2.tree = d.tree := tree_observe ..

@[simp] theorem tree_read (h : Handle) (size : Nat) : (d.read h size).2.tree = d.tree :=
  tree_observe ..

@[simp] theorem tree_seek (h : Handle) (offset : Nat) : (d.seek h offset).2.tree = d.tree := by
  unfold seek
  split
  · rfl
  · exact tree_observe ..

/-- An open file that was moved stands at the offset. -/
theorem seek_ok {h h' : Handle} {offset : Nat} (start : h.offset = 0)
    (ok : (d.seek h offset).1 = .ok h') : h' = { h with offset } := by
  unfold seek at ok
  split at ok
  · next zero =>
    cases ok
    rw [zero, ← start]
  · rcases d.perform_cases (.seek h.path offset) fun t =>
        ((if offset < Word.signedLimit then .ok { h with offset } else .error .invalidInput), t) with
      ⟨⟨e, failed⟩, -⟩ | ⟨done, -⟩
    · have result := ok.symm.trans failed
      cases result
    · have result := ok.symm.trans done
      simp only at result
      split at result
      · cases result
        rfl
      · cases result

section Calls

variable (hosts : d.tree.Hosts c.dataPath dir) (sound : c.Sound)
include hosts sound

/-- The path of a file leads to its place, unless the name cannot be one. -/
theorem locate_cases (f : QueueFile) (last : Bool) :
    (∃ e, d.tree.locate last (Path.parts (c.path f)) = .error e) ∨
      d.tree.locate last (Path.parts (c.path f)) = .ok (Tree.place c dir f) := by
  rw [Config.path, hosts.locate_join (sound.isEntry f), Tree.entry]
  split
  · exact Or.inl ⟨_, rfl⟩
  · exact Or.inr rfl

/-- Opening for writing leaves every file that is there alone; afterwards the file is there. -/
theorem openWrite_faulty (f : QueueFile) :
    d.tree.Spares c dir (fun _ => True) (d.openWrite (c.path f)).2.tree ∧
      ∀ handle, (d.openWrite (c.path f)).1 = .ok handle → ∃ number inode,
        (d.openWrite (c.path f)).2.tree.shelf c dir f = some (number, inode) ∧
          handle = ⟨c.path f, .file number, 0⟩ := by
  obtain ⟨act, act_eq⟩ : ∃ act : Tree → Except FileError Handle × Tree, act = fun t =>
    ((t.openWrite (Path.parts (c.path f))).1.map fun node => ⟨c.path f, node, 0⟩,
      (t.openWrite (Path.parts (c.path f))).2) := ⟨_, rfl⟩
  have call : d.openWrite (c.path f) = d.perform (.openWrite (c.path f)) act := by rw [act_eq]; rfl
  rw [call]
  rcases d.perform_cases (.openWrite (c.path f)) act with ⟨⟨e, failed⟩, same⟩ | ⟨done, tree⟩
  · rw [same, failed]
    exact ⟨.refl hosts, fun _ ok => by cases ok⟩
  rw [done, tree, act_eq]
  simp only
  rcases locate_cases hosts sound f true with ⟨e, lost⟩ | there
  · have opened : d.tree.openWrite (Path.parts (c.path f)) = (.error e, d.tree) := by
      simp only [Tree.openWrite, lost]
    rw [opened]
    exact ⟨.refl hosts, fun _ ok => by cases ok⟩
  · rcases Option.eq_none_or_eq_some (d.tree.shelf c dir f) with missing | ⟨⟨number, inode⟩, found⟩
    · have opened : d.tree.openWrite (Path.parts (c.path f)) =
          (.ok (.file d.tree.inodes.size), (d.tree.putFile (Tree.place c dir f) {}).2) := by
        simp only [Tree.openWrite, there, hosts.lookup_of_shelf_none missing]
        rfl
      obtain ⟨spares, shelf⟩ := Tree.Spares.putFile hosts missing
      rw [opened]
      refine ⟨spares, ?_⟩
      intro handle ok
      cases ok
      exact ⟨_, {}, shelf, rfl⟩
    · have opened : d.tree.openWrite (Path.parts (c.path f)) = (.ok (.file number), d.tree) := by
        simp only [Tree.openWrite, there, (Tree.lookup_of_shelf found).1]
      rw [opened]
      refine ⟨.refl hosts, ?_⟩
      intro handle ok
      cases ok
      exact ⟨number, inode, found, rfl⟩

/-- Creating anew leaves every file that is there alone. -/
theorem createNew_faulty (f : QueueFile) :
    d.tree.Spares c dir (fun _ => True) (d.createNew (c.path f)).2.tree ∧
      ∀ handle, (d.createNew (c.path f)).1 = .ok handle → ∃ number,
        (d.createNew (c.path f)).2.tree.shelf c dir f = some (number, {}) ∧
          handle = ⟨c.path f, .file number, 0⟩ := by
  obtain ⟨act, act_eq⟩ : ∃ act : Tree → Except FileError Handle × Tree, act = fun t =>
    ((t.createNew (Path.parts (c.path f))).1.map fun node => ⟨c.path f, node, 0⟩,
      (t.createNew (Path.parts (c.path f))).2) := ⟨_, rfl⟩
  have call : d.createNew (c.path f) = d.perform (.createNew (c.path f)) act := by rw [act_eq]; rfl
  rw [call]
  rcases d.perform_cases (.createNew (c.path f)) act with ⟨⟨e, failed⟩, same⟩ | ⟨done, tree⟩
  · rw [same, failed]
    exact ⟨.refl hosts, fun _ ok => by cases ok⟩
  rw [done, tree, act_eq]
  simp only
  rcases locate_cases hosts sound f false with ⟨e, lost⟩ | there
  · have created : d.tree.createNew (Path.parts (c.path f)) = (.error e, d.tree) := by
      simp only [Tree.createNew, lost]
    rw [created]
    exact ⟨.refl hosts, fun _ ok => by cases ok⟩
  · rcases Option.eq_none_or_eq_some (d.tree.shelf c dir f) with missing | ⟨⟨number, inode⟩, found⟩
    · have created : d.tree.createNew (Path.parts (c.path f)) =
          (.ok (.file d.tree.inodes.size), (d.tree.putFile (Tree.place c dir f) {}).2) := by
        simp only [Tree.createNew, there, hosts.lookup_of_shelf_none missing]
        rfl
      obtain ⟨spares, shelf⟩ := Tree.Spares.putFile hosts missing
      rw [created]
      refine ⟨spares, ?_⟩
      intro handle ok
      cases ok
      exact ⟨_, shelf, rfl⟩
    · have created : d.tree.createNew (Path.parts (c.path f)) = (.error .alreadyExists, d.tree) := by
        simp only [Tree.createNew, there, (Tree.lookup_of_shelf found).1]
      rw [created]
      exact ⟨.refl hosts, fun _ ok => by cases ok⟩

/-- Removing a file leaves the others alone. -/
theorem remove_faulty (f : QueueFile) :
    d.tree.Spares c dir (· ≠ f) (d.remove (c.path f)).2.tree := by
  rcases d.perform_cases (.remove (c.path f)) fun t => t.remove (Path.parts (c.path f)) with
    ⟨-, same⟩ | ⟨-, tree⟩
  · rw [remove, same]
    exact .refl hosts
  rw [remove, tree]
  rcases locate_cases hosts sound f false with ⟨e, lost⟩ | there
  · simp only [Tree.remove, lost]
    exact .refl hosts
  · simp only [Tree.remove, there]
    split
    · exact .refl hosts
    · exact .refl hosts
    · obtain ⟨hosts', shelf⟩ := hosts.erase (f := f)
      exact .of_update hosts' shelf

/-- Renaming a file leaves all but the two names alone. A rename that succeeds moves the file. -/
theorem rename_faulty (ne : g ≠ f) :
    d.tree.Spares c dir (fun k => k ≠ f ∧ k ≠ g) (d.rename (c.path f) (c.path g)).2.tree ∧
      ((d.rename (c.path f) (c.path g)).1 = .ok () →
        (d.rename (c.path f) (c.path g)).2.tree.shelf c dir g = d.tree.shelf c dir f) := by
  rcases d.perform_cases (.rename (c.path f) (c.path g)) fun t =>
      t.rename (Path.parts (c.path f)) (Path.parts (c.path g)) with ⟨⟨e, failed⟩, same⟩ | ⟨done, tree⟩
  · rw [rename, same, failed]
    exact ⟨.refl hosts, fun ok => by cases ok⟩
  rw [rename, done, tree]
  rcases locate_cases hosts sound f false with ⟨e, lost⟩ | here
  · simp only [Tree.rename, lost]
    exact ⟨.refl hosts, fun ok => by cases ok⟩
  rcases locate_cases hosts sound g false with ⟨e, lost⟩ | there
  · simp only [Tree.rename, here, lost]
    exact ⟨.refl hosts, fun ok => by cases ok⟩
  rcases Option.eq_none_or_eq_some (d.tree.shelf c dir f) with missing | ⟨⟨number, inode⟩, found⟩
  · simp only [Tree.rename, here, there, hosts.lookup_of_shelf_none missing]
    exact ⟨.refl hosts, fun ok => by cases ok⟩
  · have apart : Tree.place c dir f ≠ Tree.place c dir g := fun e => ne (Tree.place_inj.1 e).symm
    obtain ⟨hosts', shelf⟩ := hosts.move (g := g) found
    have moved : d.tree.rename (Path.parts (c.path f)) (Path.parts (c.path g)) =
        (.ok (), (d.tree.erase (Tree.place c dir f)).put (Tree.place c dir g) (.file number)) := by
      simp only [Tree.rename, here, there, (Tree.lookup_of_shelf found).1, if_neg apart]
      rcases hosts.plain (.text (g.name c.name)) with none | ⟨n, other, -⟩
      · simp only [Tree.place, none]
      · simp only [Tree.place, other]
    rw [moved]
    refine ⟨⟨hosts', fun k entry away there => ?_⟩, fun _ => ?_⟩
    · rw [shelf, Function.update_of_ne away.2, Function.update_of_ne away.1]
      exact there
    · rw [shelf, Function.update_self, found]

end Calls

section Handles

variable (hosts : d.tree.Hosts c.dataPath dir) (handle : Handle) (node : handle.node = .file number)
  (found : d.tree.shelf c dir f = some (number, inode))
include hosts node found

/-- Writing changes the file that is open; a write that fails may have written a part. -/
theorem write_faulty (new : Bytes) :
    d.tree.Spares c dir (· ≠ f) (d.write handle new).2.tree ∧
      (((d.write handle new).1 = .ok { handle with offset := handle.offset + new.length } ∧
          (d.write handle new).2.tree.shelf c dir f =
            some (number, written inode handle.offset new)) ∨
        ((∃ e, (d.write handle new).1 = .error e) ∧ ∃ part,
          (d.write handle new).2.tree.shelf c dir f =
            some (number, written inode handle.offset part))) := by
  have wrote : ∀ bs, (d.tree.write handle.node handle.offset bs) =
      (.ok (), d.tree.modify number fun file => written file handle.offset bs) := by
    intro bs
    rw [node]
    rfl
  cases planned : d.faults d.calls (.write handle.path handle.offset new) with
  | some fault =>
    obtain ⟨hosts', shelf⟩ :=
      hosts.modify found fun file => written file handle.offset (new.take fault.written)
    simp only [write, planned, wrote]
    exact ⟨.of_update hosts' shelf,
      Or.inr ⟨⟨_, rfl⟩, _, by rw [noted, shelf, Function.update_self]⟩⟩
  | none =>
    obtain ⟨hosts', shelf⟩ := hosts.modify found fun file => written file handle.offset new
    simp only [write, planned, wrote]
    exact ⟨.of_update hosts' shelf, Or.inl ⟨rfl, by rw [noted, shelf, Function.update_self]⟩⟩

/-- Syncing brings the open file to the medium, or fails and does nothing. -/
theorem sync_faulty :
    d.tree.Spares c dir (· ≠ f) (d.sync handle).2.tree ∧
      (((d.sync handle).1 = .ok () ∧
          (d.sync handle).2.tree.shelf c dir f = some (number, synced inode)) ∨
        ((∃ e, (d.sync handle).1 = .error e) ∧ (d.sync handle).2.tree = d.tree)) := by
  rcases d.perform_cases (.sync handle.path) fun t => t.sync handle.node with
    ⟨failed, same⟩ | ⟨done, tree⟩
  · rw [sync, same]
    exact ⟨.refl hosts, Or.inr ⟨failed, rfl⟩⟩
  · obtain ⟨hosts', shelf⟩ := hosts.modify found synced
    have brought : d.tree.sync handle.node = (.ok (), d.tree.modify number synced) := by
      rw [node]
      rfl
    rw [sync, tree, done, brought]
    exact ⟨.of_update hosts' shelf, Or.inl ⟨rfl, by rw [shelf, Function.update_self]⟩⟩

end Handles

end Disk

end DurableQueue.FileSystem
