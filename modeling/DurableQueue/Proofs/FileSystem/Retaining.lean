import DurableQueue.Proofs.FileSystem.Faults
import DurableQueue.Proofs.FileSystem.Stock

/-!
# What a directory retains

`Tree.held` is a file of the queue as whoever reads it finds it: its number and its bytes, whatever of
them is on the medium. From one tree to another the files of some of the names keep what they hold
(`Tree.Retains`), and bytes that are written to one file stand where they were written, on what the
file held before (`Tree.Takes`). Each call on a file of the queue has a lemma that says what the
directory retains, whether the call fails or not, in a directory of which no more is asked than
`Tree.Homes`; bringing a file to the medium retains everything.
-/

namespace DurableQueue

open FileSystem

namespace FileSystem.Tree

/-- The number and the bytes of a file of the queue. -/
def held (t : Tree) (c : Config) (dir : Location) (f : QueueFile) : Option (Nat × Bytes) :=
  (t.shelf c dir f).map fun e => (e.1, e.2.contents)

/-- The bytes of a file of the queue; a file that is not there has none. -/
def bytes (t : Tree) (c : Config) (dir : Location) (f : QueueFile) : Bytes :=
  ((t.held c dir f).map (·.2)).getD []

/-- From `t` to `t'` the queue's files stay its own, and those of which `kept` holds keep what they
hold. -/
structure Retains (c : Config) (dir : Location) (kept : QueueFile → Prop) (t t' : Tree) : Prop where
  homes : t'.Homes c dir
  same : ∀ f, kept f → t'.held c dir f = t.held c dir f

/-- In `t'` a file holds what it held in `t` with `new` at `offset`. It is the file with a number, which
it was in `t` if it was there. -/
structure Takes (c : Config) (dir : Location) (f : QueueFile) (offset : Nat) (new : Bytes) (number : Nat)
    (t t' : Tree) : Prop where
  held : t'.held c dir f = some (number, (t.bytes c dir f).overwrite offset new)
  number_eq : ∀ n bs, t.held c dir f = some (n, bs) → n = number

variable {c : Config} {dir : Location} {kept kept' : QueueFile → Prop} {t t' t'' : Tree}
  {f g : QueueFile} {number offset : Nat} {inode : Inode} {bs new part : Bytes}

theorem held_of_shelf (found : t.shelf c dir f = some (number, inode)) :
    t.held c dir f = some (number, inode.contents) := by
  rw [held, found]
  rfl

theorem shelf_of_held (there : t.held c dir f = some (number, bs)) :
    ∃ inode, t.shelf c dir f = some (number, inode) ∧ inode.contents = bs := by
  obtain ⟨⟨n, inode⟩, found, same⟩ := Option.map_eq_some_iff.1 there
  cases same
  exact ⟨inode, found, rfl⟩

theorem held_none_iff : t.held c dir f = none ↔ t.shelf c dir f = none := Option.map_eq_none_iff

theorem bytes_of_held (there : t.held c dir f = some (number, bs)) : t.bytes c dir f = bs := by
  rw [bytes, there]
  rfl

theorem bytes_of_none (missing : t.held c dir f = none) : t.bytes c dir f = [] := by
  rw [bytes, missing]
  rfl

namespace Retains

theorem refl (homes : t.Homes c dir) : Retains c dir kept t t := ⟨homes, fun _ _ => rfl⟩

theorem trans (first : Retains c dir kept t t') (second : Retains c dir kept t' t'') :
    Retains c dir kept t t'' :=
  ⟨second.homes, fun f among => (second.same f among).trans (first.same f among)⟩

theorem mono (h : Retains c dir kept t t') (fewer : ∀ f, kept' f → kept f) :
    Retains c dir kept' t t' :=
  ⟨h.homes, fun f among => h.same f (fewer f among)⟩

/-- A shelf that differs in one place retains the rest. -/
theorem of_update {entry : Option (Nat × Inode)} (homes : t'.Homes c dir)
    (shelf : t'.shelf c dir = Function.update (t.shelf c dir) f entry) :
    Retains c dir (· ≠ f) t t' := by
  refine ⟨homes, fun g ne => ?_⟩
  rw [held, held, shelf, Function.update_of_ne ne]

/-- A file that keeps its bytes keeps what it holds. -/
theorem of_synced (homes : t.Homes c dir) (found : t.shelf c dir f = some (number, inode)) :
    Retains c dir kept t (t.modify number Disk.synced) := by
  obtain ⟨homes', shelf⟩ := homes.modify found Disk.synced
  refine ⟨homes', fun g _ => ?_⟩
  by_cases e : g = f
  · subst e
    rw [held, held, shelf, Function.update_self, found]
    rfl
  · exact (of_update homes' shelf).same g e

end Retains

namespace Takes

/-- Nothing was written to a file that is there. -/
theorem refl (there : t.held c dir f = some (number, bs)) : Takes c dir f offset [] number t t where
  held := by rw [there, bytes_of_held there, Bytes.overwrite_nil]
  number_eq n old found := by
    rw [there] at found
    cases found
    rfl

/-- A file that was made anew holds nothing. -/
theorem made (missing : t.held c dir f = none) (there : t'.held c dir f = some (number, [])) :
    Takes c dir f offset [] number t t' where
  held := by rw [there, bytes_of_none missing, Bytes.overwrite_nil]
  number_eq n old found := by
    rw [missing] at found
    cases found

/-- A file keeps what was written to it. -/
theorem retained (h : Takes c dir f offset new number t t') (retains : Retains c dir kept t' t'')
    (among : kept f) : Takes c dir f offset new number t t'' :=
  ⟨(retains.same f among).trans h.held, h.number_eq⟩

/-- What is written to a file that was opened and not yet written to. -/
theorem wrote (h : Takes c dir f offset [] number t t') (old : t'.held c dir f = some (number, bs))
    (there : t''.held c dir f = some (number, bs.overwrite offset new)) :
    Takes c dir f offset new number t t'' := by
  refine ⟨?_, h.number_eq⟩
  have same := h.held
  rw [old, Bytes.overwrite_nil] at same
  cases same
  exact there

end Takes

end FileSystem.Tree

namespace FileSystem.Disk

variable {c : Config} {dir : Location} {kept : QueueFile → Prop} {d : Disk} {f g : QueueFile}
  {number offset : Nat} {bs : Bytes} {α : Type}

/-- A call that succeeds did to the tree what it is for. -/
theorem perform_made {call : Call} {act : Tree → Except FileError α × Tree} {a : α}
    (ok : (d.perform call act).1 = .ok a) :
    (act d.tree).1 = .ok a ∧ (d.perform call act).2.tree = (act d.tree).2 := by
  rcases d.perform_cases call act with ⟨⟨e, failed⟩, -⟩ | ⟨done, tree⟩
  · rw [failed] at ok
    cases ok
  · exact ⟨done ▸ ok, tree⟩

/-- A call retains what it retains where it does not fail. -/
theorem perform_retains {call : Call} {act : Tree → Except FileError α × Tree}
    (homes : d.tree.Homes c dir) (acts : Tree.Retains c dir kept d.tree (act d.tree).2) :
    Tree.Retains c dir kept d.tree (d.perform call act).2.tree := by
  rcases d.perform_cases call act with ⟨-, same⟩ | ⟨-, tree⟩
  · rw [same]
    exact .refl homes
  · rw [tree]
    exact acts

section Paths

variable (homes : d.tree.Homes c dir) (named : c.Named)
include homes named

theorem remove_retains (f : QueueFile) :
    Tree.Retains c dir (· ≠ f) d.tree (d.remove (c.path f)).2.tree := by
  refine perform_retains homes ?_
  rcases homes.remove_cases named f with ⟨e, eq, -⟩ | ⟨-, eq⟩
  · rw [eq]
    exact .refl homes
  · rw [eq]
    exact .of_update homes.erase Tree.shelf_erase

theorem rename_retains (ne : g ≠ f) : Tree.Retains c dir (fun k => k ≠ f ∧ k ≠ g) d.tree
    (d.rename (c.path f) (c.path g)).2.tree := by
  refine perform_retains homes ?_
  rcases homes.rename_cases named ne with ⟨e, eq, -⟩ | ⟨number, inode, found, eq⟩
  · rw [eq]
    exact .refl homes
  · rw [eq]
    refine ⟨homes.move found, fun k away => ?_⟩
    rw [Tree.held, Tree.held, Tree.shelf_move found, Function.update_of_ne away.2,
      Function.update_of_ne away.1]

/-- What is created is empty. -/
theorem createNew_retains (f : QueueFile) :
    Tree.Retains c dir (· ≠ f) d.tree (d.createNew (c.path f)).2.tree ∧
      ∀ h, (d.createNew (c.path f)).1 = .ok h → ∃ number, h = ⟨c.path f, .file number, 0⟩ ∧
        (d.createNew (c.path f)).2.tree.held c dir f = some (number, []) := by
  rw [createNew_eq]
  obtain ⟨homes', shelf⟩ := homes.putFile (f := f) {}
  refine ⟨perform_retains homes ?_, fun h ok => ?_⟩
  · rcases homes.createNew_cases named f with ⟨e, eq⟩ | ⟨-, eq⟩
    · rw [eq]
      exact .refl homes
    · rw [eq]
      exact .of_update homes' shelf
  · obtain ⟨created, tree⟩ := perform_made ok
    rw [tree]
    rcases homes.createNew_cases named f with ⟨e, eq⟩ | ⟨-, eq⟩
    · rw [eq] at created
      cases created
    · rw [eq] at created ⊢
      cases created
      exact ⟨_, rfl, Tree.held_of_shelf (by rw [shelf, Function.update_self])⟩

/-- Opening for writing retains all the other files, and the one that is opened holds what it held. If it
cannot be opened nothing changes. -/
theorem openWrite_retains (f : QueueFile) :
    Tree.Retains c dir (· ≠ f) d.tree (d.openWrite (c.path f)).2.tree ∧
      ((∃ e, (d.openWrite (c.path f)).1 = .error e) ∧ (d.openWrite (c.path f)).2.tree = d.tree ∨
        ∃ number, (d.openWrite (c.path f)).1 = .ok ⟨c.path f, .file number, 0⟩ ∧
          ∀ offset, Tree.Takes c dir f offset [] number d.tree (d.openWrite (c.path f)).2.tree) := by
  rw [openWrite_eq]
  obtain ⟨homes', shelf⟩ := homes.putFile (f := f) {}
  obtain ⟨act, act_eq⟩ : ∃ act : Tree → Except FileError Handle × Tree, act = fun t =>
    ((t.openWrite (Path.parts (c.path f))).1.map fun node => ⟨c.path f, node, 0⟩,
      (t.openWrite (Path.parts (c.path f))).2) := ⟨_, rfl⟩
  have opens : Tree.Retains c dir (· ≠ f) d.tree (act d.tree).2 ∧
      ((∃ e, (act d.tree).1 = .error e) ∧ (act d.tree).2 = d.tree ∨
        ∃ number, (act d.tree).1 = .ok ⟨c.path f, .file number, 0⟩ ∧
          ∀ offset, Tree.Takes c dir f offset [] number d.tree (act d.tree).2) := by
    simp only [act_eq]
    rcases homes.openWrite_cases named f with ⟨e, eq⟩ | ⟨number, inode, found, eq⟩ | ⟨missing, eq⟩
    · rw [eq]
      exact ⟨.refl homes, Or.inl ⟨⟨e, rfl⟩, rfl⟩⟩
    · rw [eq]
      exact ⟨.refl homes, Or.inr ⟨number, rfl, fun _ => .refl (Tree.held_of_shelf found)⟩⟩
    · rw [eq]
      have empty : (d.tree.putFile (Tree.place c dir f) {}).2.held c dir f =
          some (d.tree.inodes.size, []) := Tree.held_of_shelf (by rw [shelf, Function.update_self])
      exact ⟨.of_update homes' shelf,
        Or.inr ⟨_, rfl, fun _ => .made (Tree.held_none_iff.2 missing) empty⟩⟩
  rw [← act_eq]
  obtain ⟨retains, outcome⟩ := opens
  refine ⟨perform_retains homes retains, ?_⟩
  rcases d.perform_cases (.openWrite (c.path f)) act with failed | ⟨done, tree⟩
  · exact Or.inl failed
  · rw [done, tree]
    exact outcome

end Paths

section Handles

variable (homes : d.tree.Homes c dir) (h : Handle) (node : h.node = .file number)
  (there : d.tree.held c dir f = some (number, bs))
include homes node there

/-- What is open is written to at its place. A write that fails may have written a part. -/
theorem write_retains (new : Bytes) :
    Tree.Retains c dir (· ≠ f) d.tree (d.write h new).2.tree ∧
      ((∃ e part, (d.write h new).1 = .error e ∧ part <+: new ∧
          (d.write h new).2.tree.held c dir f = some (number, bs.overwrite h.offset part)) ∨
        (d.write h new).1 = .ok { h with offset := h.offset + new.length } ∧
          (d.write h new).2.tree.held c dir f = some (number, bs.overwrite h.offset new)) := by
  obtain ⟨inode, found, rfl⟩ := Tree.shelf_of_held there
  have wrote : ∀ part, d.tree.write h.node h.offset part =
      (.ok (), d.tree.modify number fun file => written file h.offset part) := by
    intro part
    rw [node]
    rfl
  have changes : ∀ part, Tree.Retains c dir (· ≠ f) d.tree
        (d.tree.modify number fun file => written file h.offset part) ∧
      (d.tree.modify number fun file => written file h.offset part).held c dir f =
        some (number, inode.contents.overwrite h.offset part) := by
    intro part
    obtain ⟨homes', shelf⟩ := homes.modify found fun file => written file h.offset part
    exact ⟨.of_update homes' shelf, Tree.held_of_shelf (by rw [shelf, Function.update_self])⟩
  cases planned : d.faults d.calls (.write h.path h.offset new) with
  | some fault =>
    obtain ⟨retains, holds⟩ := changes (new.take fault.written)
    simp only [write, planned, wrote]
    exact ⟨retains, Or.inl ⟨_, _, rfl, List.take_prefix .., holds⟩⟩
  | none =>
    obtain ⟨retains, holds⟩ := changes new
    simp only [write, planned, wrote]
    exact ⟨retains, Or.inr ⟨rfl, holds⟩⟩

/-- Bringing what is open to the medium changes no bytes. -/
theorem sync_retains : Tree.Retains c dir kept d.tree (d.sync h).2.tree := by
  obtain ⟨inode, found, -⟩ := Tree.shelf_of_held there
  refine perform_retains homes ?_
  rw [node]
  exact .of_synced homes found

end Handles

end FileSystem.Disk

end DurableQueue
