import DurableQueue.Proofs.FileSystem.Faults
import DurableQueue.Proofs.FileSystem.Footprint
import DurableQueue.Proofs.FileSystem.Homes

/-!
# What a directory holds at most

To see what is left of a queue it is often enough to know which segments there can be and what the
record says: its `Stock`. Stocks are ordered by what they allow, so that a call which may or may not
have removed a segment leaves no more than there was. `Disk.Through` is a run of calls, any of which
may fail, through trees whose stock satisfies `P` at every moment; each call of a queue has a lemma
that says what `P` has to allow for and what the stock is at most afterwards.
-/

namespace DurableQueue

open FileSystem

/-- The segments that a directory may hold, and the bytes of its record. -/
@[ext]
structure Stock where
  segments : Nat → Prop
  record : Option Bytes

namespace Stock

/-- The same record, and no other segments. -/
instance : LE Stock := ⟨fun σ τ => σ.record = τ.record ∧ ∀ k, σ.segments k → τ.segments k⟩

/-- What a shelf holds. -/
def of (s : Shelf) : Stock where
  segments k := s (.segment k) ≠ none
  record := (s .record).map (·.2.contents)

/-- One more segment. -/
def insert (σ : Stock) (k : Nat) : Stock := { σ with segments := fun j => j = k ∨ σ.segments j }

/-- One segment less. -/
def erase (σ : Stock) (k : Nat) : Stock := { σ with segments := fun j => σ.segments j ∧ j ≠ k }

variable {σ τ υ : Stock} {s : Shelf} {k : Nat} {entry : Option (Nat × Inode)}

theorem le_refl (σ : Stock) : σ ≤ σ := ⟨rfl, fun _ => id⟩

theorem le_trans (first : σ ≤ τ) (second : τ ≤ υ) : σ ≤ υ :=
  ⟨first.1.trans second.1, fun k there => second.2 k (first.2 k there)⟩

theorem le_insert (σ : Stock) (k : Nat) : σ ≤ σ.insert k := ⟨rfl, fun _ => Or.inr⟩

theorem erase_le (σ : Stock) (k : Nat) : σ.erase k ≤ σ := ⟨rfl, fun _ => And.left⟩

/-- Giving both the same record keeps them in order. -/
theorem record_mono (le : σ ≤ τ) (bs : Option Bytes) :
    ({ σ with record := bs } : Stock) ≤ { τ with record := bs } := ⟨rfl, le.2⟩

theorem of_update_segment_le :
    of (Function.update s (.segment k) entry) ≤ (of s).insert k := by
  refine ⟨by simp [of, insert], fun j there => ?_⟩
  by_cases e : j = k
  · exact Or.inl e
  · refine Or.inr fun missing => there ?_
    rw [Function.update_of_ne (by simpa using e)]
    exact missing

theorem of_update_segment_none :
    of (Function.update s (.segment k) none) ≤ (of s).erase k := by
  refine ⟨by simp [of, erase], fun j there => ?_⟩
  by_cases e : j = k
  · subst e
    exact absurd (Function.update_self ..) there
  · refine ⟨fun missing => there ?_, e⟩
    rw [Function.update_of_ne (by simpa using e)]
    exact missing

@[simp] theorem of_update_quarantined :
    of (Function.update s (.quarantined k) entry) = of s := by simp [of]

@[simp] theorem of_update_temporary {tag : Tag} :
    of (Function.update s (.temporary tag) entry) = of s := by simp [of]

@[simp] theorem of_update_record : of (Function.update s .record entry) =
    { of s with record := entry.map (·.2.contents) } := by simp [of]

end Stock

/-- A property of stocks that leaves open which of the segments are there. -/
def Hereditary (P : Stock → Prop) : Prop := ∀ ⦃σ τ⦄, σ ≤ τ → P τ → P σ

/-- A record or a temporary record. -/
def QueueFile.IsRecord : QueueFile → Prop
  | record | temporary _ => True
  | segment _ | quarantined _ => False

namespace FileSystem

namespace Tree

/-- What a tree holds of a queue. -/
def stock (t : Tree) (c : Config) (dir : Location) : Stock := .of (t.shelf c dir)

/-- The file with a number is neither the record nor a temporary record. -/
structure Aside (t : Tree) (c : Config) (dir : Location) (number : Nat) : Prop where
  small : number < t.inodes.size
  apart : ∀ f : QueueFile, f.IsRecord → t.lookup (place c dir f) ≠ some (.file number)

/-- A tree on which the queue's files are its own, with a stock of which `P` holds. -/
def Stocks (t : Tree) (c : Config) (dir : Location) (P : Stock → Prop) : Prop :=
  t.Homes c dir ∧ P (t.stock c dir)

/-- From `t` to `t'` the queue's files stay its own, and no file becomes a record that was none. -/
structure Turns (c : Config) (dir : Location) (t t' : Tree) : Prop where
  homes : t'.Homes c dir
  aside : ∀ number, t.Aside c dir number → t'.Aside c dir number

variable {t t' t'' : Tree} {c : Config} {dir : Location} {f g : QueueFile} {number k : Nat}
  {inode : Inode}

theorem Turns.refl (h : t.Homes c dir) : Turns c dir t t := ⟨h, fun _ => id⟩

theorem Turns.trans (first : Turns c dir t t') (second : Turns c dir t' t'') : Turns c dir t t'' :=
  ⟨second.homes, fun n aside => second.aside n (first.aside n aside)⟩

namespace Homes

variable (h : t.Homes c dir)
include h

/-- The file that is a segment is aside. -/
theorem aside (found : t.shelf c dir f = some (number, inode)) (segment : ¬f.IsRecord) :
    t.Aside c dir number := by
  obtain ⟨there, -⟩ := lookup_of_shelf found
  refine ⟨h.small there, fun g record same => ?_⟩
  rw [h.alone there same] at segment
  exact segment record

/-- Changing a file that is not the record changes no stock. -/
theorem modify_turns (small : number < t.inodes.size)
    (apart : t.lookup (place c dir .record) ≠ some (.file number)) (change : Inode → Inode) :
    Turns c dir t (t.modify number change) ∧
      (t.modify number change).stock c dir = t.stock c dir := by
  have size : (t.modify number change).inodes.size = t.inodes.size := by simp [Tree.modify]
  refine ⟨⟨h.modify_any number change, fun n aside => ⟨by rw [size]; exact aside.small, aside.apart⟩⟩,
    Stock.ext ?_ ?_⟩
  · funext k
    simp only [stock, Stock.of, shelf, lookup_modify]
    rcases h.plain (.segment k) with none | ⟨n, there, -⟩
    · simp only [none]
    · simp [there]
  · simp only [stock, Stock.of, shelf, lookup_modify]
    rcases h.plain .record with none | ⟨n, there, -⟩
    · simp only [none]
    · have ne : n ≠ number := by
        rintro rfl
        exact apart there
      simp only [there, inode_modify small, if_neg ne]

/-- A file that is made anew is aside of all that there were. -/
theorem putFile_turns (f : QueueFile) : Turns c dir t (t.putFile (place c dir f) {}).2 := by
  have size : (t.putFile (place c dir f) {}).2.inodes.size = t.inodes.size + 1 := by
    simp [Tree.putFile]
  refine ⟨(h.putFile (f := f) {}).1, fun n aside => ⟨by have := aside.small; omega, ?_⟩⟩
  intro g record there
  rw [lookup_putFile (by simp [place])] at there
  split at there
  · cases there
    exact absurd aside.small (Nat.lt_irrefl _)
  · exact aside.apart g record there

theorem erase_turns (f : QueueFile) : Turns c dir t (t.erase (place c dir f)) := by
  refine ⟨h.erase, fun n aside => ⟨aside.small, fun g record there => ?_⟩⟩
  rw [lookup_erase (by simp [place])] at there
  split at there
  · cases there
  · exact aside.apart g record there

/-- A file that is moved stays what it was, or was a record before. -/
theorem move_turns (found : t.shelf c dir f = some (number, inode))
    (as : g.IsRecord → f.IsRecord) :
    Turns c dir t ((t.erase (place c dir f)).put (place c dir g) (.file number)) := by
  obtain ⟨there, -⟩ := lookup_of_shelf found
  refine ⟨h.move found, fun n aside => ⟨aside.small, fun k record found' => ?_⟩⟩
  rw [lookup_put (by simp [place])] at found'
  split at found'
  · next same =>
    cases found'
    rw [place_inj] at same
    exact aside.apart f (as (same ▸ record)) there
  · rw [lookup_erase (by simp [place])] at found'
    split at found'
    · cases found'
    · exact aside.apart k record found'

end Homes

end Tree

namespace Disk

/-- No call is planned to fail. -/
def Faultless (d : Disk) : Prop := ∀ n call, d.faults n call = none

/-- Calls lead from `d` to `d'`; after each of them the queue's files are its own and the stock
satisfies `P`, and no file has become a record that was none. -/
structure Through (c : Config) (dir : Location) (P : Stock → Prop) (d d' : Disk) : Prop
    extends Tree.Turns c dir d.tree d'.tree, Makes (fun a => a.after.Stocks c dir P) d d'

variable {c : Config} {dir : Location} {P : Stock → Prop} {d d' d'' : Disk} {f g : QueueFile}
  {k : Nat} {σ : Stock}

theorem Through.refl (h : d.tree.Homes c dir) : Through c dir P d d :=
  { Tree.Turns.refl h, Makes.refl d with }

theorem Through.trans (first : Through c dir P d d') (second : Through c dir P d' d'') :
    Through c dir P d d'' :=
  { first.toTurns.trans second.toTurns, first.toMakes.trans second.toMakes with }

theorem Through.faultless (h : Through c dir P d d') (faultless : d.Faultless) : d'.Faultless := by
  intro n call
  rw [h.faults_eq]
  exact faultless n call

/-- At every moment of such calls the stock satisfies `P`. -/
theorem Through.since (h : Through c dir P d d') (now : d.tree.Stocks c dir P) :
    ∀ t ∈ d'.since d, t.Stocks c dir P := by
  intro t moment
  rcases h.toMakes.mem_since moment with rfl | ⟨a, shown, rfl⟩
  · exact now
  · exact shown

theorem through_noted {t : Tree} (turns : Tree.Turns c dir d.tree t) (shown : P (t.stock c dir))
    (call : Call) (error : Option FileError) : Through c dir P d (d.noted call error t) :=
  { turns, makes_noted ⟨turns.homes, shown⟩ with }

/-- A call fails, and does nothing, or does what it is for; without faults it does. -/
theorem perform_through {α : Type} (homes : d.tree.Homes c dir) (now : P (d.tree.stock c dir))
    (call : Call) (act : Tree → Except FileError α × Tree)
    (turns : Tree.Turns c dir d.tree (act d.tree).2) (then_ : P ((act d.tree).2.stock c dir)) :
    Through c dir P d (d.perform call act).2 ∧
      ((∃ e, (d.perform call act).1 = .error e) ∧ (d.perform call act).2.tree = d.tree ∧
          ¬d.Faultless ∨
        (d.perform call act).1 = (act d.tree).1 ∧
          (d.perform call act).2.tree = (act d.tree).2) := by
  unfold perform
  split
  · next fault planned =>
    refine ⟨through_noted (.refl homes) now _ _, Or.inl ⟨⟨_, rfl⟩, rfl, fun faultless => ?_⟩⟩
    rw [faultless] at planned
    cases planned
  · exact ⟨through_noted turns then_ _ _, Or.inr ⟨rfl, rfl⟩⟩

/-- Calls that change nothing. -/
theorem through_of_same (homes : d.tree.Homes c dir) (now : P (d.tree.stock c dir))
    (tree : d'.tree = d.tree) (makes : d.Makes (fun a => a.after = d.tree) d') :
    Through c dir P d d' := by
  have turns : Tree.Turns c dir d.tree d'.tree := by
    rw [tree]
    exact .refl homes
  exact { turns, makes.mono fun a same => ⟨same ▸ homes, same ▸ now⟩ with }

/-- Nothing changes while files are read. -/
theorem Looks.through (looks : d.Looks d') (homes : d.tree.Homes c dir)
    (now : P (d.tree.stock c dir)) : Through c dir P d d' :=
  through_of_same homes now looks.tree_eq (looks.toMakes.mono fun _ => And.right)

/-- Without faults a call that only looks sees what is there. -/
theorem Faultless.observe {α : Type} (faultless : d.Faultless) (call : Call)
    (look : Tree → Except FileError α) :
    d.observe call look = (look d.tree, d.noted call (errorOf (look d.tree)) d.tree) := by
  rw [Disk.observe, perform, faultless]

section Paths

variable (homes : d.tree.Homes c dir) (named : c.Named) (down : Hereditary P)
include homes named down

/-- Opening a segment for writing may create it. -/
theorem openWrite_through (may : P ((d.tree.stock c dir).insert k)) :
    Through c dir P d (d.openWrite (c.path (.segment k))).2 ∧
      (d.openWrite (c.path (.segment k))).2.tree.stock c dir ≤ (d.tree.stock c dir).insert k ∧
      ∀ h, (d.openWrite (c.path (.segment k))).1 = .ok h →
        ∃ number, h.node = .file number ∧
          (d.openWrite (c.path (.segment k))).2.tree.Aside c dir number := by
  obtain ⟨act, act_eq, call⟩ : ∃ act : Tree → Except FileError Handle × Tree,
      (act d.tree = ((d.tree.openWrite (Path.parts (c.path (.segment k)))).1.map fun node =>
          ⟨c.path (.segment k), node, 0⟩, (d.tree.openWrite (Path.parts (c.path (.segment k)))).2)) ∧
      d.openWrite (c.path (.segment k)) = d.perform (.openWrite (c.path (.segment k))) act :=
    ⟨fun t => ((t.openWrite (Path.parts (c.path (.segment k)))).1.map fun node =>
      ⟨c.path (.segment k), node, 0⟩, (t.openWrite (Path.parts (c.path (.segment k)))).2), rfl,
      d.openWrite_eq _⟩
  have now : P (d.tree.stock c dir) := down (Stock.le_insert _ _) may
  -- what opening the segment comes to when it does not fail
  have opens : Tree.Turns c dir d.tree (act d.tree).2 ∧
      (act d.tree).2.stock c dir ≤ (d.tree.stock c dir).insert k ∧
      ∀ h, (act d.tree).1 = .ok h → ∃ number, h.node = .file number ∧
        (act d.tree).2.Aside c dir number := by
    rw [act_eq]
    rcases homes.openWrite_cases named (.segment k) with
      ⟨e, eq⟩ | ⟨number, inode, found, eq⟩ | ⟨missing, eq⟩
    · rw [eq]
      exact ⟨.refl homes, Stock.le_insert _ _, nofun⟩
    · rw [eq]
      refine ⟨.refl homes, Stock.le_insert _ _, fun h ok => ?_⟩
      cases ok
      exact ⟨number, rfl, homes.aside found id⟩
    · rw [eq]
      obtain ⟨homes', shelf⟩ := homes.putFile (f := .segment k) {}
      refine ⟨homes.putFile_turns _, ?_, fun h ok => ?_⟩
      · rw [Tree.stock, shelf]
        exact Stock.of_update_segment_le
      · cases ok
        have made : (d.tree.putFile (Tree.place c dir (.segment k)) {}).2.shelf c dir (.segment k) =
            some (d.tree.inodes.size, {}) := by
          rw [shelf, Function.update_self]
        exact ⟨d.tree.inodes.size, rfl, homes'.aside made id⟩
  obtain ⟨turns, most, made⟩ := opens
  obtain ⟨through, ⟨⟨e, failed⟩, same, -⟩ | ⟨done, tree⟩⟩ :=
    perform_through homes now (.openWrite (c.path (.segment k))) act turns (down most may)
  · rw [call]
    refine ⟨through, by rw [same]; exact Stock.le_insert _ _, fun h ok => ?_⟩
    rw [failed] at ok
    cases ok
  · rw [call]
    refine ⟨through, by rw [tree]; exact most, fun h ok => ?_⟩
    rw [tree]
    exact made h (done ▸ ok)

omit down in
/-- A file is removed or it stays; without faults it stays only if there is none by its name. -/
theorem remove_ends (f : QueueFile) (now : P (d.tree.stock c dir))
    (then_ : P ((d.tree.erase (Tree.place c dir f)).stock c dir)) :
    Through c dir P d (d.remove (c.path f)).2 ∧
      ((∃ e, (d.remove (c.path f)).1 = .error e ∧ (d.remove (c.path f)).2.tree = d.tree ∧
          (d.Faultless → c.isLong f = true ∨ d.tree.shelf c dir f = none ∧ e = .notFound)) ∨
        (d.remove (c.path f)).1 = .ok () ∧ d.tree.shelf c dir f ≠ none ∧
          (d.remove (c.path f)).2.tree = d.tree.erase (Tree.place c dir f)) := by
  obtain ⟨act, act_eq, call⟩ : ∃ act : Tree → Except FileError Unit × Tree,
      act d.tree = d.tree.remove (Path.parts (c.path f)) ∧
      d.remove (c.path f) = d.perform (.remove (c.path f)) act := ⟨fun t => t.remove _, rfl, rfl⟩
  rw [call]
  rcases homes.remove_cases named f with ⟨e, eq, why⟩ | ⟨there, eq⟩
  · rw [← act_eq] at eq
    obtain ⟨through, ⟨⟨e', failed⟩, tree, faulty⟩ | ⟨done, tree⟩⟩ :=
      perform_through homes now (.remove (c.path f)) act (by rw [eq]; exact .refl homes)
        (by rw [eq]; exact now)
    · exact ⟨through, Or.inl ⟨e', failed, tree, fun faultless => absurd faultless faulty⟩⟩
    · rw [eq] at done tree
      exact ⟨through, Or.inl ⟨e, done, tree, fun _ => why⟩⟩
  · rw [← act_eq] at eq
    obtain ⟨through, ⟨⟨e', failed⟩, tree, faulty⟩ | ⟨done, tree⟩⟩ :=
      perform_through homes now (.remove (c.path f)) act (by rw [eq]; exact homes.erase_turns f)
        (by rw [eq]; exact then_)
    · exact ⟨through, Or.inl ⟨e', failed, tree, fun faultless => absurd faultless faulty⟩⟩
    · rw [eq] at done tree
      exact ⟨through, Or.inr ⟨done, there, tree⟩⟩

omit down in
/-- A file is moved or it stays; without faults it stays only if there is none by its name or the new
name is too long. -/
theorem rename_ends (ne : g ≠ f) (as : g.IsRecord → f.IsRecord) (now : P (d.tree.stock c dir))
    (then_ : ∀ number inode, d.tree.shelf c dir f = some (number, inode) →
      P (((d.tree.erase (Tree.place c dir f)).put (Tree.place c dir g) (.file number)).stock c dir)) :
    Through c dir P d (d.rename (c.path f) (c.path g)).2 ∧
      ((∃ e, (d.rename (c.path f) (c.path g)).1 = .error e ∧
          (d.rename (c.path f) (c.path g)).2.tree = d.tree ∧
          (d.Faultless → c.isLong f = true ∨ c.isLong g = true ∨ d.tree.shelf c dir f = none)) ∨
        (d.rename (c.path f) (c.path g)).1 = .ok () ∧
          ∃ number inode, d.tree.shelf c dir f = some (number, inode) ∧
            (d.rename (c.path f) (c.path g)).2.tree =
              (d.tree.erase (Tree.place c dir f)).put (Tree.place c dir g) (.file number)) := by
  obtain ⟨act, act_eq, call⟩ : ∃ act : Tree → Except FileError Unit × Tree,
      act d.tree = d.tree.rename (Path.parts (c.path f)) (Path.parts (c.path g)) ∧
      d.rename (c.path f) (c.path g) = d.perform (.rename (c.path f) (c.path g)) act :=
    ⟨fun t => t.rename _ _, rfl, rfl⟩
  rw [call]
  rcases homes.rename_cases named ne with ⟨e, eq, why⟩ | ⟨number, inode, found, eq⟩
  · rw [← act_eq] at eq
    obtain ⟨through, ⟨⟨e', failed⟩, tree, faulty⟩ | ⟨done, tree⟩⟩ :=
      perform_through homes now (.rename (c.path f) (c.path g)) act (by rw [eq]; exact .refl homes)
        (by rw [eq]; exact now)
    · exact ⟨through, Or.inl ⟨e', failed, tree, fun faultless => absurd faultless faulty⟩⟩
    · rw [eq] at done tree
      exact ⟨through, Or.inl ⟨e, done, tree, fun _ => why⟩⟩
  · rw [← act_eq] at eq
    obtain ⟨through, ⟨⟨e', failed⟩, tree, faulty⟩ | ⟨done, tree⟩⟩ :=
      perform_through homes now (.rename (c.path f) (c.path g)) act
        (by rw [eq]; exact homes.move_turns found as) (by rw [eq]; exact then_ number inode found)
    · exact ⟨through, Or.inl ⟨e', failed, tree, fun faultless => absurd faultless faulty⟩⟩
    · rw [eq] at done tree
      exact ⟨through, Or.inr ⟨done, number, inode, found, tree⟩⟩

/-- Removing a segment leaves no more than there was; without faults it leaves one less. -/
theorem remove_through (now : P (d.tree.stock c dir)) :
    Through c dir P d (d.remove (c.path (.segment k))).2 ∧
      (d.remove (c.path (.segment k))).2.tree.stock c dir ≤ d.tree.stock c dir ∧
      (d.Faultless → c.isLong (.segment k) = false →
        (d.remove (c.path (.segment k))).2.tree.stock c dir ≤ (d.tree.stock c dir).erase k ∧
          ((d.remove (c.path (.segment k))).1 = .ok () ∨
            (d.remove (c.path (.segment k))).1 = .error .notFound)) := by
  have less : (d.tree.erase (Tree.place c dir (.segment k))).stock c dir ≤
      (d.tree.stock c dir).erase k := by
    rw [Tree.stock, Tree.shelf_erase]
    exact Stock.of_update_segment_none
  have most := Stock.le_trans less (Stock.erase_le _ _)
  obtain ⟨through, ⟨e, failed, tree, why⟩ | ⟨done, -, tree⟩⟩ :=
    remove_ends homes named (.segment k) now (down most now)
  · rw [tree, failed]
    refine ⟨through, Stock.le_refl _, fun faultless short => ?_⟩
    rcases why faultless with long | ⟨missing, rfl⟩
    · rw [short] at long
      cases long
    · refine ⟨⟨rfl, fun j there => ⟨there, ?_⟩⟩, Or.inr rfl⟩
      rintro rfl
      exact there missing
  · rw [tree, done]
    exact ⟨through, most, fun _ _ => ⟨less, Or.inl rfl⟩⟩

/-- Setting a segment aside leaves no more than there was; without faults it leaves one less. -/
theorem rename_through (now : P (d.tree.stock c dir)) :
    Through c dir P d (d.rename (c.path (.segment k)) (c.path (.quarantined k))).2 ∧
      (d.rename (c.path (.segment k)) (c.path (.quarantined k))).2.tree.stock c dir ≤
        d.tree.stock c dir ∧
      (d.Faultless → c.isLong (.segment k) = false → c.isLong (.quarantined k) = false →
        (d.rename (c.path (.segment k)) (c.path (.quarantined k))).2.tree.stock c dir ≤
          (d.tree.stock c dir).erase k) := by
  have less : ∀ number inode, d.tree.shelf c dir (.segment k) = some (number, inode) →
      ((d.tree.erase (Tree.place c dir (.segment k))).put
        (Tree.place c dir (.quarantined k)) (.file number)).stock c dir ≤
        (d.tree.stock c dir).erase k := by
    intro number inode found
    rw [Tree.stock, Tree.shelf_move found, Stock.of_update_quarantined]
    exact Stock.of_update_segment_none
  obtain ⟨through, ⟨e, -, tree, why⟩ | ⟨-, number, inode, found, tree⟩⟩ :=
    rename_ends (f := .segment k) (g := .quarantined k) homes named (by simp) id now
      fun number inode found => down (Stock.le_trans (less number inode found) (Stock.erase_le _ _)) now
  · rw [tree]
    refine ⟨through, Stock.le_refl _, fun faultless short short' =>
      ⟨rfl, fun j there => ⟨there, ?_⟩⟩⟩
    rintro rfl
    rcases why faultless with long | long | missing
    · rw [short] at long
      cases long
    · rw [short'] at long
      cases long
    · exact there missing
  · rw [tree]
    have erased := less number inode found
    exact ⟨through, Stock.le_trans erased (Stock.erase_le _ _), fun _ _ _ => erased⟩

end Paths

section Reading

variable (homes : d.tree.Homes c dir) (named : c.Named) (faultless : d.Faultless)
include homes named faultless

/-- Nothing is found under a name that is none. -/
theorem readFile_long (long : c.isLong f = true) :
    (d.readFile (c.path f)).1 = .error .invalidName := by
  have lost : d.tree.openRead (Path.parts (c.path f)) = .error .invalidName := by
    rw [Tree.openRead, Tree.find?, homes.locate_eq named, if_pos long]
    rfl
  simp only [readFile, openRead, faultless.observe, lost, Except.map]

/-- Without faults a missing file is found to be missing. -/
theorem readFile_missing (short : c.isLong f = false) (missing : d.tree.shelf c dir f = none) :
    (d.readFile (c.path f)).1 = .error .notFound := by
  have lost : d.tree.openRead (Path.parts (c.path f)) = .error .notFound := by
    rw [Tree.openRead, Tree.find?, homes.locate_eq named, short]
    simp only [Bool.false_eq_true, if_false, bind, Except.bind, homes.lookup_none missing]
  simp only [readFile, openRead, faultless.observe, lost, Except.map]

/-- Without faults a file is read as it is. -/
theorem readFile_found {number : Nat} {inode : Inode} (short : c.isLong f = false)
    (found : d.tree.shelf c dir f = some (number, inode)) :
    (d.readFile (c.path f)).1 = .ok inode.contents := by
  obtain ⟨lookup, file⟩ := Tree.lookup_of_shelf found
  have there : d.tree.openRead (Path.parts (c.path f)) = .ok (.file number) := by
    rw [Tree.openRead, Tree.find?, homes.locate_eq named, short]
    simp only [Bool.false_eq_true, if_false, bind, Except.bind, lookup]
  obtain ⟨d₁, d₁_eq⟩ : ∃ d₁, d₁ = d.noted (.openRead (c.path f)) none d.tree := ⟨_, rfl⟩
  have opened : d.openRead (c.path f) = (.ok ⟨c.path f, .file number, 0⟩, d₁) := by
    simp only [openRead, faultless.observe, there, Except.map, errorOf, d₁_eq]
  have faultless₁ : d₁.Faultless := by
    rw [d₁_eq]
    exact faultless
  have tree : d₁.tree = d.tree := by
    rw [d₁_eq]
    rfl
  simp only [readFile, opened, tree, file, read, faultless₁.observe, Tree.read, Except.map,
    List.drop_zero, List.take_length]

end Reading

section Handles

variable (homes : d.tree.Homes c dir) (now : P (d.tree.stock c dir)) (h : Handle) {number : Nat}
  (node : h.node = .file number) (small : number < d.tree.inodes.size)
  (apart : d.tree.lookup (Tree.place c dir .record) ≠ some (.file number))
include homes now node small apart

/-- Writing to a file that is not the record changes no stock, however much of it is written. -/
theorem write_through (new : Bytes) :
    Through c dir P d (d.write h new).2 ∧
      (d.write h new).2.tree.stock c dir = d.tree.stock c dir := by
  have wrote : ∀ bs, d.tree.write h.node h.offset bs =
      (.ok (), d.tree.modify number fun file => written file h.offset bs) := by
    intro bs
    rw [node]
    rfl
  have changes : ∀ bs, Tree.Turns c dir d.tree (d.tree.write h.node h.offset bs).2 ∧
      (d.tree.write h.node h.offset bs).2.stock c dir = d.tree.stock c dir := by
    intro bs
    rw [wrote]
    exact homes.modify_turns small apart _
  unfold Disk.write
  simp only
  split
  · next fault _ =>
    obtain ⟨turns, same⟩ := changes (new.take fault.written)
    exact ⟨through_noted turns (by rw [same]; exact now) _ _, same⟩
  · obtain ⟨turns, same⟩ := changes new
    exact ⟨through_noted turns (by rw [same]; exact now) _ _, same⟩

/-- Bringing such a file to the medium changes none either. -/
theorem sync_through :
    Through c dir P d (d.sync h).2 ∧ (d.sync h).2.tree.stock c dir = d.tree.stock c dir := by
  obtain ⟨turns, same⟩ := homes.modify_turns small apart synced
  have brought : d.tree.sync h.node = (.ok (), d.tree.modify number synced) := by
    rw [node]
    rfl
  obtain ⟨through, ⟨-, tree, -⟩ | ⟨-, tree⟩⟩ := perform_through homes now (.sync h.path)
    (fun t => t.sync h.node) (by rw [brought]; exact turns) (by rw [brought, same]; exact now)
  · exact ⟨through, by rw [Disk.sync, tree]⟩
  · refine ⟨through, ?_⟩
    rw [Disk.sync, tree, brought]
    exact same

end Handles

end Disk

end FileSystem

end DurableQueue
