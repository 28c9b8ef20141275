import DurableQueue.Proofs.Naming.QueueFile
import Mathlib.Logic.Function.Basic

/-!
# The shelf of a queue

`Tree.shelf` is what a tree holds under the names of a queue's files: for each file its
number, by which open files know it, and its contents. Every operation on a path of the queue
changes the shelf in one place, and each lemma here says how. Nothing else of the tree is
looked at in what follows.
-/

namespace DurableQueue

open FileSystem

/-- The path of a file of a queue. -/
def Config.path (c : Config) (f : QueueFile) : String := Path.join c.dataPath (f.name c.name)

namespace Config

variable {c : Config}

theorem path_quarantined (noSlash : '/' ∉ c.name.toList) (number : Nat) :
    Naming.quarantinePath (c.path (.segment number)) = c.path (.quarantined number) :=
  Path.join_append_of_noSlash (QueueFile.noSlash_name noSlash _)
    (QueueFile.noSlash_name noSlash (.quarantined number))

theorem path_temporary (noSlash : '/' ∉ c.name.toList) (tag : Tag) :
    Naming.temporaryPath (c.path .record) tag.text = c.path (.temporary tag) := by
  have name : QueueFile.name c.name .record ++ ("." ++ tag.text ++ ".tmp") =
      QueueFile.name c.name (.temporary tag) := by
    simp [QueueFile.name, Naming.temporaryPath, String.append_assoc]
  have path : c.path .record ++ ("." ++ tag.text ++ ".tmp") = c.path (.temporary tag) := by
    rw [Config.path, Path.join_append_of_noSlash (QueueFile.noSlash_name noSlash .record)
      (name ▸ QueueFile.noSlash_name noSlash _), name]
    rfl
  rw [← path]
  simp [Naming.temporaryPath, String.append_assoc]

end Config

namespace Config.Named

variable {c : Config} (named : c.Named)
include named

theorem path_quarantined (number : Nat) :
    Naming.quarantinePath (c.path (.segment number)) = c.path (.quarantined number) :=
  Config.path_quarantined named.noSlash number

theorem path_temporary (tag : Tag) :
    Naming.temporaryPath (c.path .record) tag.text = c.path (.temporary tag) :=
  Config.path_temporary named.noSlash tag

end Config.Named

/-- The files of a queue, each with its number and contents. -/
abbrev Shelf := QueueFile → Option (Nat × Inode)

/-- What opening a queue depends on: the bytes of its segments and of its record. -/
@[ext]
structure View where
  segments : Nat → Option Bytes
  record : Option Bytes

/-- What a shelf shows to whoever opens the queue. -/
def View.of (s : Shelf) : View where
  segments k := (s (.segment k)).map (·.2.contents)
  record := (s .record).map (·.2.contents)

namespace View

variable (s : Shelf) (entry : Option (Nat × Inode))

@[simp] theorem of_update_segment (k : Nat) :
    of (Function.update s (.segment k) entry) =
      { of s with segments := Function.update (of s).segments k (entry.map (·.2.contents)) } := by
  unfold of
  congr 1
  funext n
  by_cases e : n = k
  · subst e
    simp
  · simp [Function.update_of_ne, e]

@[simp] theorem of_update_record :
    of (Function.update s .record entry) = { of s with record := entry.map (·.2.contents) } := by
  simp [of]

@[simp] theorem of_update_temporary (tag : Tag) :
    of (Function.update s (.temporary tag) entry) = of s := by
  simp [of]

@[simp] theorem of_update_quarantined (k : Nat) :
    of (Function.update s (.quarantined k) entry) = of s := by
  simp [of]

variable {s}

theorem segments_of_some {k number : Nat} {inode : Inode} (found : s (.segment k) = some (number, inode)) :
    (of s).segments k = some inode.contents := by
  simp [of, found]

theorem some_of_segments {k : Nat} {bs : Bytes} (found : (of s).segments k = some bs) :
    ∃ number inode, s (.segment k) = some (number, inode) ∧ inode.contents = bs := by
  simp only [of, Option.map_eq_some_iff] at found
  obtain ⟨⟨number, inode⟩, there, rfl⟩ := found
  exact ⟨number, inode, there, rfl⟩

theorem none_of_segments {k : Nat} (missing : (of s).segments k = none) : s (.segment k) = none := by
  simpa [of] using missing

end View

/-- The two shelves have the same segments, but for how much of them is on the medium. -/
def Alike (s s' : Shelf) : Prop :=
  ∀ k, (s' (.segment k)).map (fun e => (e.1, e.2.contents)) =
    (s (.segment k)).map fun e => (e.1, e.2.contents)

section Alike

variable {s s' s'' : Shelf}

theorem Alike.refl (s : Shelf) : Alike s s := fun _ => rfl

theorem Alike.trans (first : Alike s s') (second : Alike s' s'') : Alike s s'' :=
  fun k => (second k).trans (first k)

theorem Alike.segments (h : Alike s s') : (View.of s').segments = (View.of s).segments := by
  funext k
  have same := congrArg (Option.map Prod.snd) (h k)
  rw [Option.map_map, Option.map_map] at same
  exact same

theorem Alike.found (h : Alike s s') {k number : Nat} {inode : Inode}
    (there : s (.segment k) = some (number, inode)) :
    ∃ inode', s' (.segment k) = some (number, inode') ∧ inode'.contents = inode.contents := by
  have same := h k
  rw [there, Option.map_some, Option.map_eq_some_iff] at same
  obtain ⟨⟨number', inode'⟩, there', eq⟩ := same
  simp only [Prod.mk.injEq] at eq
  obtain ⟨rfl, contents⟩ := eq
  exact ⟨inode', there', contents⟩

end Alike

namespace FileSystem.Tree

/-- Where a file of a queue stands. -/
def place (c : Config) (dir : Location) (f : QueueFile) : Location := .text (f.name c.name) :: dir

/-- What a tree holds under the names of a queue's files. -/
def shelf (t : Tree) (c : Config) (dir : Location) : Shelf := fun f =>
  match t.lookup (place c dir f) with
  | some (.file number) => some (number, t.inode number)
  | _ => none

theorem place_inj {c : Config} {dir : Location} {f g : QueueFile} :
    place c dir f = place c dir g ↔ f = g := by
  simp [place, QueueFile.name_inj]

theorem lookup_nil (t : Tree) : t.lookup [] = some .directory := if_pos rfl

section Hosted

variable {t t' : Tree} {c : Config} {dir : Location} {f g : QueueFile} {number : Nat}
  {inode : Inode}

theorem lookup_of_shelf (found : t.shelf c dir f = some (number, inode)) :
    t.lookup (place c dir f) = some (.file number) ∧ t.inode number = inode := by
  rw [shelf] at found
  split at found
  · next n h =>
    simp only [Option.some.injEq, Prod.mk.injEq] at found
    obtain ⟨rfl, rfl⟩ := found
    exact ⟨h, rfl⟩
  · cases found

theorem Holds.lookup_of_shelf_none (h : t.Holds dir) (missing : t.shelf c dir f = none) :
    t.lookup (place c dir f) = none := by
  rw [shelf] at missing
  rcases h.plain (.text (f.name c.name)) with none | ⟨n, found, -⟩
  · exact none
  · rw [place, found] at missing
    cases missing

theorem Holds.number_lt (h : t.Holds dir) (found : t.shelf c dir f = some (number, inode)) :
    number < t.inodes.size := by
  rcases h.plain (.text (f.name c.name)) with none | ⟨n, there, small⟩
  · have := (lookup_of_shelf found).1
    rw [place, none] at this
    cases this
  · have := (lookup_of_shelf found).1
    rw [place, there] at this
    cases this
    exact small

/-- No two files have one number. -/
theorem Holds.number_ne (h : t.Holds dir) (found : t.shelf c dir f = some (number, inode))
    {n : Nat} {i : Inode} (other : t.shelf c dir g = some (n, i)) (ne : g ≠ f) : n ≠ number := by
  rintro rfl
  have same := h.alone (lookup_of_shelf other).1 (lookup_of_shelf found).1
  exact ne (QueueFile.name_inj.1 (by simpa using same))

/-- One entry of the directory changed, and became a file of its own or went. -/
theorem Hosts.set {path : String} (h : t.Hosts path dir) (name : Name)
    (same : ∀ place ≠ [], place ≠ name :: dir → t'.lookup place = t.lookup place)
    (grown : t.inodes.size ≤ t'.inodes.size)
    (now : t'.lookup (name :: dir) = none ∨
      ∃ number, t'.lookup (name :: dir) = some (.file number) ∧ number < t'.inodes.size ∧
        ∀ other, other ≠ name → t.lookup (other :: dir) ≠ some (.file number)) :
    t'.Hosts path dir := by
  have stays : ∀ other, other ≠ name → t'.lookup (other :: dir) = t.lookup (other :: dir) :=
    fun other ne => same _ (by simp) (by simpa using ne)
  have outside : t.AgreeOutside t' dir := fun place apart => by
    by_cases root : place = []
    · rw [root, lookup_nil, lookup_nil]
    · exact same place root (apart name)
  refine h.agree outside ⟨?_, fun other => ?_, fun {a b n} ha hb => ?_⟩
  · rw [outside dir fun n e => by simpa using congrArg List.length e]
    exact h.directory
  · by_cases e : other = name
    · subst e
      exact now.imp_right fun ⟨n, found, small, _⟩ => ⟨n, found, small⟩
    · rw [stays other e]
      exact (h.plain other).imp_right fun ⟨n, found, small⟩ => ⟨n, found, by omega⟩
  · have fresh : ∀ {o}, o ≠ name → t'.lookup (name :: dir) = some (.file n) →
        t'.lookup (o :: dir) ≠ some (.file n) := by
      intro o ne here
      rw [stays o ne]
      rcases now with none | ⟨m, found, -, alone⟩
      · rw [none] at here; cases here
      · rw [found] at here; cases here; exact alone o ne
    by_cases ea : a = name
    · by_cases eb : b = name
      · rw [ea, eb]
      · exact absurd hb (fresh eb (ea ▸ ha))
    · by_cases eb : b = name
      · exact absurd ha (fresh ea (eb ▸ hb))
      · rw [stays a ea] at ha
        rw [stays b eb] at hb
        exact h.alone ha hb

/-! ### What each change does to the shelf -/

theorem shelf_putFile (small : ∀ g n, t.lookup (place c dir g) = some (.file n) → n < t.inodes.size)
    (file : Inode) : (t.putFile (place c dir f) file).2.shelf c dir =
      Function.update (t.shelf c dir) f (some (t.inodes.size, file)) := by
  funext g
  by_cases e : g = f
  · subst e
    simp only [shelf, Function.update_self]
    rw [lookup_putFile (by simp [place]), if_pos rfl]
    simp only [inode_putFile, if_pos]
  · rw [Function.update_of_ne e, shelf, lookup_putFile (by simp [place]),
      if_neg (fun p => e (place_inj.1 p)), shelf]
    split
    · next n there => simp only [inode_putFile, if_neg (Nat.ne_of_lt (small g n there))]
    · rfl

theorem shelf_modify (found : t.shelf c dir f = some (number, inode)) (small : number < t.inodes.size)
    (alone : ∀ g, t.lookup (place c dir g) = some (.file number) → g = f) (change : Inode → Inode) :
    (t.modify number change).shelf c dir =
      Function.update (t.shelf c dir) f (some (number, change inode)) := by
  obtain ⟨there, contents⟩ := lookup_of_shelf found
  funext g
  by_cases e : g = f
  · subst e
    simp only [shelf, lookup_modify, there, Function.update_self, inode_modify small, if_pos,
      contents]
  · rw [Function.update_of_ne e, shelf, lookup_modify, shelf]
    split
    · next n other =>
      have apart : n ≠ number := by
        rintro rfl
        exact e (alone g other)
      simp only [inode_modify small, if_neg apart]
    · rfl

theorem shelf_erase : (t.erase (place c dir f)).shelf c dir =
    Function.update (t.shelf c dir) f none := by
  funext g
  by_cases e : g = f
  · subst e
    rw [Function.update_self, shelf, lookup_erase (by simp [place]), if_pos rfl]
  · rw [Function.update_of_ne e, shelf, lookup_erase (by simp [place]),
      if_neg (fun p => e (place_inj.1 p)), shelf]
    simp only [inode_erase]

theorem shelf_move (found : t.shelf c dir f = some (number, inode)) :
    ((t.erase (place c dir f)).put (place c dir g) (.file number)).shelf c dir =
      Function.update (Function.update (t.shelf c dir) f none) g (some (number, inode)) := by
  obtain ⟨there, contents⟩ := lookup_of_shelf found
  funext k
  by_cases e : k = g
  · subst e
    rw [Function.update_self, shelf, lookup_put (by simp [place]), if_pos rfl]
    simp only [inode_put, inode_erase, contents]
  · rw [Function.update_of_ne e, ← shelf_erase, shelf, lookup_put (by simp [place]),
      if_neg (fun p => e (place_inj.1 p)), shelf]
    simp only [inode_put]

theorem Hosts.putFile (h : t.Hosts c.dataPath dir) (file : Inode) :
    (t.putFile (place c dir f) file).2.Hosts c.dataPath dir ∧
      (t.putFile (place c dir f) file).2.shelf c dir =
        Function.update (t.shelf c dir) f (some (t.inodes.size, file)) := by
  have size : (t.putFile (place c dir f) file).2.inodes.size = t.inodes.size + 1 := by
    simp [Tree.putFile]
  have small : ∀ {name n}, t.lookup (name :: dir) = some (.file n) → n < t.inodes.size := by
    intro name n there
    rcases h.plain name with none | ⟨n, found, small⟩ <;> simp_all
  refine ⟨h.set (.text (f.name c.name)) (fun p root ne => ?_) (by omega) ?_,
    shelf_putFile (fun _ _ there => small there) file⟩
  · rw [lookup_putFile root]
    exact if_neg ne
  · refine Or.inr ⟨t.inodes.size, by rw [lookup_putFile (by simp)]; simp [place], by omega, ?_⟩
    exact fun other _ there => absurd (small there) (Nat.lt_irrefl _)

theorem Hosts.modify (h : t.Hosts c.dataPath dir) (found : t.shelf c dir f = some (number, inode))
    (change : Inode → Inode) :
    (t.modify number change).Hosts c.dataPath dir ∧
      (t.modify number change).shelf c dir =
        Function.update (t.shelf c dir) f (some (number, change inode)) := by
  have size : (t.modify number change).inodes.size = t.inodes.size := by simp [Tree.modify]
  have small := h.number_lt found
  obtain ⟨there, -⟩ := lookup_of_shelf found
  refine ⟨h.set (.text (f.name c.name)) (fun _ _ _ => rfl) (by omega) ?_,
    shelf_modify found small (fun g other => ?_) change⟩
  · refine Or.inr ⟨number, there, by omega, fun other ne elsewhere => ne (h.alone elsewhere there)⟩
  · exact QueueFile.name_inj.1 (by simpa using h.alone other there)

theorem Hosts.erase (h : t.Hosts c.dataPath dir) :
    (t.erase (place c dir f)).Hosts c.dataPath dir ∧
      (t.erase (place c dir f)).shelf c dir = Function.update (t.shelf c dir) f none := by
  refine ⟨h.set (.text (f.name c.name)) (fun p root ne => ?_) (Nat.le_refl _) (Or.inl ?_), shelf_erase⟩
  · rw [lookup_erase root]
    exact if_neg ne
  · rw [lookup_erase (by simp)]
    exact if_pos rfl

theorem Hosts.move (h : t.Hosts c.dataPath dir) (found : t.shelf c dir f = some (number, inode)) :
    ((t.erase (place c dir f)).put (place c dir g) (.file number)).Hosts c.dataPath dir ∧
      ((t.erase (place c dir f)).put (place c dir g) (.file number)).shelf c dir =
        Function.update (Function.update (t.shelf c dir) f none) g (some (number, inode)) := by
  obtain ⟨erased, -⟩ := h.erase (f := f)
  obtain ⟨there, -⟩ := lookup_of_shelf found
  have small := h.number_lt found
  refine ⟨erased.set (.text (g.name c.name)) (fun p root ne => ?_) (Nat.le_refl _)
    (Or.inr ⟨number, ?_, small, fun other apart elsewhere => ?_⟩), shelf_move found⟩
  · rw [lookup_put root]
    exact if_neg ne
  · rw [lookup_put (by simp)]
    exact if_pos rfl
  · rw [lookup_erase (by simp)] at elsewhere
    split at elsewhere
    · cases elsewhere
    · next away => exact away (by rw [h.alone elsewhere there]; rfl)

end Hosted

/-- A path leads to a directory with nothing in it. -/
structure Vacant (t : Tree) (path : String) (dir : Location) : Prop where
  leads : t.walk true maxLinks [] (Path.names path) = .ok dir
  noNul : ∀ name ∈ Path.names path, 0 ∉ name.bytes
  directory : t.lookup dir = some .directory
  empty : ∀ name, t.lookup (name :: dir) = none

theorem Vacant.hosts {t : Tree} {path : String} {dir : Location} (h : t.Vacant path dir) :
    t.Hosts path dir where
  directory := h.directory
  plain name := Or.inl (h.empty name)
  alone found _ := by
    rw [h.empty] at found
    cases found
  leads := h.leads
  noNul := h.noNul

theorem Vacant.shelf_eq {t : Tree} {path : String} {c : Config} {dir : Location}
    (h : t.Vacant path dir) : t.shelf c dir = fun _ => none := by
  funext f
  simp only [shelf, place, h.empty]

end FileSystem.Tree

end DurableQueue
