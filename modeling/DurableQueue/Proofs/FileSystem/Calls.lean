import DurableQueue.Proofs.FileSystem.Shelf

/-!
# Calls on the files of a queue

What each call does on a disk whose directory holds the files of a queue, as long as no fault
is planned. `Serves` is such a disk, `Reaches` is a run of calls from one to another; it
carries a property of all that the directory showed on the way, so that what is said of a run
is also said of every moment at which the run may be cut off.
-/

namespace DurableQueue.FileSystem

/-! ### Operations on the tree -/

namespace Tree

section Paths

variable {t : Tree} {c : Config} {dir : Location} {f g : QueueFile} {number : Nat} {inode : Inode}
  (h : t.Hosts c.dataPath dir) (sound : c.Sound)
include h sound

theorem locate_path (num : f.Numbered) (last : Bool) :
    t.locate last (Path.parts (c.path f)) = .ok (place c dir f) := by
  rw [Config.path, h.locate_join (sound.isEntry f), entry, sound.not_isTooLong f num]
  rfl

theorem find_path (num : f.Numbered) (found : t.shelf c dir f = some (number, inode)) :
    t.find? (Path.parts (c.path f)) = .ok (.file number) := by
  rw [find?, locate_path h sound num]
  simp only [bind, Except.bind, (lookup_of_shelf found).1]

theorem find_path_none (num : f.Numbered) (missing : t.shelf c dir f = none) :
    t.find? (Path.parts (c.path f)) = .error .notFound := by
  rw [find?, locate_path h sound num]
  simp only [bind, Except.bind, h.lookup_of_shelf_none missing]

/-- A file is there exactly if the shelf has it. -/
theorem isThere_path {d : Disk} (at_ : d.tree = t) (num : f.Numbered) :
    d.isThere (c.path f) = (t.shelf c dir f).isSome := by
  subst at_
  cases found : d.tree.shelf c dir f with
  | none => simp only [Disk.isThere, find_path_none h sound num found, Option.isSome_none]
  | some entry => simp only [Disk.isThere, find_path h sound num found, Option.isSome_some]

theorem openWrite_path (num : f.Numbered) (found : t.shelf c dir f = some (number, inode)) :
    t.openWrite (Path.parts (c.path f)) = (.ok (.file number), t) := by
  rw [openWrite, locate_path h sound num]
  simp only [(lookup_of_shelf found).1]

theorem openWrite_path_none (num : f.Numbered) (missing : t.shelf c dir f = none) :
    t.openWrite (Path.parts (c.path f)) =
      (.ok (.file t.inodes.size), (t.putFile (place c dir f) {}).2) := by
  rw [openWrite, locate_path h sound num]
  simp only [h.lookup_of_shelf_none missing]
  rfl

theorem createNew_path_none (num : f.Numbered) (missing : t.shelf c dir f = none) :
    t.createNew (Path.parts (c.path f)) =
      (.ok (.file t.inodes.size), (t.putFile (place c dir f) {}).2) := by
  rw [createNew, locate_path h sound num]
  simp only [h.lookup_of_shelf_none missing]
  rfl

theorem createNew_path (num : f.Numbered) (found : t.shelf c dir f = some (number, inode)) :
    t.createNew (Path.parts (c.path f)) = (.error .alreadyExists, t) := by
  rw [createNew, locate_path h sound num]
  simp only [(lookup_of_shelf found).1]

theorem remove_path (num : f.Numbered) (found : t.shelf c dir f = some (number, inode)) :
    t.remove (Path.parts (c.path f)) = (.ok (), t.erase (place c dir f)) := by
  rw [remove, locate_path h sound num]
  simp only [(lookup_of_shelf found).1]

theorem remove_path_none (num : f.Numbered) (missing : t.shelf c dir f = none) :
    t.remove (Path.parts (c.path f)) = (.error .notFound, t) := by
  rw [remove, locate_path h sound num]
  simp only [h.lookup_of_shelf_none missing]

theorem rename_path (num : f.Numbered) (num' : g.Numbered) (ne : g ≠ f)
    (found : t.shelf c dir f = some (number, inode)) :
    t.rename (Path.parts (c.path f)) (Path.parts (c.path g)) =
      (.ok (), (t.erase (place c dir f)).put (place c dir g) (.file number)) := by
  have apart : place c dir f ≠ place c dir g := fun e => ne (place_inj.1 e).symm
  rw [rename, locate_path h sound num, locate_path h sound num']
  simp only [(lookup_of_shelf found).1, if_neg apart]
  rcases h.plain (.text (g.name c.name)) with none | ⟨n, there, -⟩
  · simp only [place, none]
  · simp only [place, there]

theorem rename_path_none (num : f.Numbered) (num' : g.Numbered)
    (missing : t.shelf c dir f = none) :
    t.rename (Path.parts (c.path f)) (Path.parts (c.path g)) = (.error .notFound, t) := by
  rw [rename, locate_path h sound num, locate_path h sound num']
  simp only [h.lookup_of_shelf_none missing]

end Paths

end Tree

/-! ### Runs of calls -/

namespace Disk

/-- No fault is planned, and the directory of the queue holds `shelf`. -/
structure Serves (d : Disk) (c : Config) (dir : Location) (shelf : Shelf) : Prop where
  faultless : ∀ n call, d.faults n call = none
  hosts : d.tree.Hosts c.dataPath dir
  shelf_eq : d.tree.shelf c dir = shelf

/-- The directory of the queue shows something of which `P` holds. -/
def Shows (t : Tree) (c : Config) (dir : Location) (P : View → Prop) : Prop :=
  t.Hosts c.dataPath dir ∧ P (.of (t.shelf c dir))

/-- Calls lead from `d` to `d'`, where the directory holds `shelf`, and after each of them it
showed something of which `P` holds. -/
structure Reaches (c : Config) (dir : Location) (P : View → Prop) (d d' : Disk) (shelf : Shelf) :
    Prop extends Serves d' c dir shelf where
  faults_eq : d'.faults = d.faults
  seed_eq : d'.seed = d.seed
  history : ∃ recent, d'.history = recent ++ d.history ∧ ∀ a ∈ recent, Shows a.after c dir P

variable {c : Config} {dir : Location} {P : View → Prop} {d d' d'' : Disk} {s s' : Shelf}
  {f g : QueueFile} {number : Nat} {inode : Inode}

theorem Serves.refl (h : d.Serves c dir s) : Reaches c dir P d d s :=
  { h with faults_eq := rfl, seed_eq := rfl, history := ⟨[], rfl, by simp⟩ }

theorem Reaches.trans (first : Reaches c dir P d d' s) (second : Reaches c dir P d' d'' s') :
    Reaches c dir P d d'' s' := by
  obtain ⟨recent, split, shown⟩ := first.history
  obtain ⟨recent', split', shown'⟩ := second.history
  refine { second with
    faults_eq := second.faults_eq.trans first.faults_eq
    seed_eq := second.seed_eq.trans first.seed_eq
    history := ⟨recent' ++ recent, by rw [split', split, List.append_assoc], fun a ha => ?_⟩ }
  rcases List.mem_append.1 ha with new | old
  · exact shown' a new
  · exact shown a old

/-- A call that left a tree behind in which the directory holds `s'`. -/
theorem Serves.noted (h : d.Serves c dir s) {t : Tree} (hosts : t.Hosts c.dataPath dir)
    (shelf : t.shelf c dir = s') (shown : P (.of s')) (call : Call) (error : Option FileError) :
    Reaches c dir P d (d.noted call error t) s' where
  faultless := h.faultless
  hosts := hosts
  shelf_eq := shelf
  faults_eq := rfl
  seed_eq := rfl
  history := ⟨[⟨call, error, t⟩], rfl, by simpa [Shows, shelf] using ⟨hosts, shown⟩⟩

theorem Serves.perform (h : d.Serves c dir s) {α : Type} (call : Call)
    (act : Tree → Except FileError α × Tree) :
    d.perform call act =
      ((act d.tree).1, d.noted call (errorOf (act d.tree).1) (act d.tree).2) := by
  rw [Disk.perform, h.faultless]

section Specs

variable (h : d.Serves c dir s) (sound : c.Sound) (num : f.Numbered)
include h

section Named

include sound num

theorem Serves.openRead (found : s f = some (number, inode)) (shown : P (.of s)) :
    ∃ d', d.openRead (c.path f) = (.ok ⟨c.path f, .file number, 0⟩, d') ∧ Reaches c dir P d d' s := by
  refine ⟨_, ?_, h.noted h.hosts h.shelf_eq shown (.openRead (c.path f)) none⟩
  rw [Disk.openRead, observe, h.perform]
  simp [Tree.openRead, Tree.find_path h.hosts sound num (h.shelf_eq ▸ found), Except.map, errorOf]

theorem Serves.openRead_none (missing : s f = none) (shown : P (.of s)) :
    ∃ d', d.openRead (c.path f) = (.error .notFound, d') ∧ Reaches c dir P d d' s := by
  refine ⟨_, ?_, h.noted h.hosts h.shelf_eq shown (.openRead (c.path f)) (some .notFound)⟩
  rw [Disk.openRead, observe, h.perform]
  simp [Tree.openRead, Tree.find_path_none h.hosts sound num (h.shelf_eq ▸ missing), Except.map,
    errorOf]

theorem Serves.openWrite (found : s f = some (number, inode)) (shown : P (.of s)) :
    ∃ d', d.openWrite (c.path f) = (.ok ⟨c.path f, .file number, 0⟩, d') ∧
      Reaches c dir P d d' s := by
  refine ⟨_, ?_, h.noted h.hosts h.shelf_eq shown (.openWrite (c.path f)) none⟩
  rw [Disk.openWrite, h.perform]
  simp [Tree.openWrite_path h.hosts sound num (h.shelf_eq ▸ found), Except.map, errorOf]

theorem Serves.openWrite_none (missing : s f = none)
    (shown : ∀ number, P (.of (Function.update s f (some (number, {}))))) :
    ∃ number d', d.openWrite (c.path f) = (.ok ⟨c.path f, .file number, 0⟩, d') ∧
      Reaches c dir P d d' (Function.update s f (some (number, {}))) := by
  obtain ⟨hosts, shelf⟩ := h.hosts.putFile (c := c) (f := f) {}
  refine ⟨d.tree.inodes.size, d.noted (.openWrite (c.path f)) none _, ?_,
    h.noted hosts (by rw [shelf, h.shelf_eq]) (shown _) _ _⟩
  rw [Disk.openWrite, h.perform]
  simp [Tree.openWrite_path_none h.hosts sound num (h.shelf_eq ▸ missing), Except.map, errorOf]

theorem Serves.createNew (missing : s f = none)
    (shown : ∀ number, P (.of (Function.update s f (some (number, {}))))) :
    ∃ number d', d.createNew (c.path f) = (.ok ⟨c.path f, .file number, 0⟩, d') ∧
      Reaches c dir P d d' (Function.update s f (some (number, {}))) := by
  obtain ⟨hosts, shelf⟩ := h.hosts.putFile (c := c) (f := f) {}
  refine ⟨d.tree.inodes.size, d.noted (.createNew (c.path f)) none _, ?_,
    h.noted hosts (by rw [shelf, h.shelf_eq]) (shown _) _ _⟩
  rw [Disk.createNew, h.perform]
  simp [Tree.createNew_path_none h.hosts sound num (h.shelf_eq ▸ missing), Except.map, errorOf]

theorem Serves.createNew_taken (found : s f = some (number, inode)) (shown : P (.of s)) :
    ∃ d', d.createNew (c.path f) = (.error .alreadyExists, d') ∧ Reaches c dir P d d' s := by
  refine ⟨_, ?_, h.noted h.hosts h.shelf_eq shown (.createNew (c.path f)) (some .alreadyExists)⟩
  rw [Disk.createNew, h.perform]
  simp [Tree.createNew_path h.hosts sound num (h.shelf_eq ▸ found), Except.map, errorOf]

theorem Serves.remove (found : s f = some (number, inode)) (shown : P (.of (Function.update s f none))) :
    ∃ d', d.remove (c.path f) = (.ok (), d') ∧ Reaches c dir P d d' (Function.update s f none) := by
  obtain ⟨hosts, shelf⟩ := h.hosts.erase (f := f)
  refine ⟨d.noted (.remove (c.path f)) none _, ?_,
    h.noted hosts (by rw [shelf, h.shelf_eq]) shown _ _⟩
  rw [Disk.remove, h.perform]
  simp [Tree.remove_path h.hosts sound num (h.shelf_eq ▸ found), errorOf]

theorem Serves.remove_none (missing : s f = none) (shown : P (.of s)) :
    ∃ d', d.remove (c.path f) = (.error .notFound, d') ∧ Reaches c dir P d d' s := by
  refine ⟨_, ?_, h.noted h.hosts h.shelf_eq shown (.remove (c.path f)) (some .notFound)⟩
  rw [Disk.remove, h.perform]
  simp [Tree.remove_path_none h.hosts sound num (h.shelf_eq ▸ missing), errorOf]

theorem Serves.rename (num' : g.Numbered) (ne : g ≠ f) (found : s f = some (number, inode))
    (shown : P (.of (Function.update (Function.update s f none) g (some (number, inode))))) :
    ∃ d', d.rename (c.path f) (c.path g) = (.ok (), d') ∧
      Reaches c dir P d d'
        (Function.update (Function.update s f none) g (some (number, inode))) := by
  obtain ⟨hosts, shelf⟩ := h.hosts.move (g := g) (h.shelf_eq ▸ found)
  refine ⟨d.noted (.rename (c.path f) (c.path g)) none _, ?_,
    h.noted hosts (by rw [shelf, h.shelf_eq]) shown _ _⟩
  rw [Disk.rename, h.perform]
  simp [Tree.rename_path h.hosts sound num num' ne (h.shelf_eq ▸ found), errorOf]

theorem Serves.rename_none (num' : g.Numbered) (missing : s f = none) (shown : P (.of s)) :
    ∃ d', d.rename (c.path f) (c.path g) = (.error .notFound, d') ∧ Reaches c dir P d d' s := by
  refine ⟨_, ?_, h.noted h.hosts h.shelf_eq shown (.rename (c.path f) (c.path g)) (some .notFound)⟩
  rw [Disk.rename, h.perform]
  simp [Tree.rename_path_none h.hosts sound num num' (h.shelf_eq ▸ missing), errorOf]

end Named

theorem Serves.seek (handle : Handle) {offset : Nat} (start : handle.offset = 0)
    (fits : offset < Word.signedLimit) (shown : P (.of s)) :
    ∃ d', d.seek handle offset = (.ok { handle with offset }, d') ∧ Reaches c dir P d d' s := by
  by_cases zero : offset = 0
  · refine ⟨d, ?_, h.refl⟩
    rw [Disk.seek, if_pos zero, zero, ← start]
  · refine ⟨_, ?_, h.noted h.hosts h.shelf_eq shown (.seek handle.path offset) none⟩
    rw [Disk.seek, if_neg zero, observe, h.perform]
    simp [fits, errorOf]

variable (handle : Handle) (node : handle.node = .file number)
include node

theorem Serves.read (found : s f = some (number, inode)) (size : Nat) (shown : P (.of s)) :
    ∃ d', d.read handle size =
        (.ok ((inode.contents.drop handle.offset).take size,
          { handle with offset :=
              handle.offset + ((inode.contents.drop handle.offset).take size).length }), d') ∧
      Reaches c dir P d d' s := by
  refine ⟨_, ?_, h.noted h.hosts h.shelf_eq shown (.read handle.path handle.offset size) none⟩
  rw [Disk.read, observe, h.perform]
  simp [Tree.read, node, (Tree.lookup_of_shelf (h.shelf_eq ▸ found)).2, Except.map, errorOf]

/-- A file after `new` was written into it at `offset`. -/
def written (file : Inode) (offset : Nat) (new : Bytes) : Inode :=
  { contents := file.contents.overwrite offset new, durable := min file.durable offset }

theorem Serves.write (found : s f = some (number, inode)) (new : Bytes)
    (shown : P (.of (Function.update s f (some (number, written inode handle.offset new))))) :
    ∃ d', d.write handle new = (.ok { handle with offset := handle.offset + new.length }, d') ∧
      Reaches c dir P d d'
        (Function.update s f (some (number, written inode handle.offset new))) := by
  obtain ⟨hosts, shelf⟩ := h.hosts.modify (h.shelf_eq ▸ found) fun file => written file handle.offset new
  refine ⟨d.noted (.write handle.path handle.offset new) none _, ?_,
    h.noted hosts (by rw [shelf, h.shelf_eq]) shown _ _⟩
  rw [Disk.write, h.faultless]
  simp [Tree.write, node, Except.map, errorOf, written]

/-- A file whose whole is on the medium. -/
def synced (file : Inode) : Inode := { file with durable := file.contents.length }

theorem Serves.sync (found : s f = some (number, inode))
    (shown : P (.of (Function.update s f (some (number, synced inode))))) :
    ∃ d', d.sync handle = (.ok (), d') ∧
      Reaches c dir P d d' (Function.update s f (some (number, synced inode))) := by
  obtain ⟨hosts, shelf⟩ := h.hosts.modify (h.shelf_eq ▸ found) synced
  refine ⟨d.noted (.sync handle.path) none _, ?_,
    h.noted hosts (by rw [shelf, h.shelf_eq]) shown _ _⟩
  rw [Disk.sync, h.perform]
  simp [Tree.sync, node, errorOf]
  rfl

end Specs

end Disk

end DurableQueue.FileSystem
