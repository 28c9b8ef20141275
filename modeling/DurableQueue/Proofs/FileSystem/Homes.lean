import DurableQueue.Proofs.FileSystem.Shelf

/-!
# A directory with other things in it

`Tree.Homes` asks less of a directory than `Tree.Hosts`: only what stands under the names of the
queue's own files has to be regular files, none of them under two of the names. Other entries may be
what they are. It stays so while the queue's files come, go and change, and the path goes on leading
to the directory. An operation on the path of one of the files does one of two or three things, told
from the name and from what the directory holds.
-/

namespace DurableQueue

open FileSystem

/-- No directory can hold a file of the queue under this name. -/
def Config.isLong (c : Config) (f : QueueFile) : Bool := (Name.text (f.name c.name)).isTooLong

/-- A queue whose name is short enough has no file with a name that is too long. -/
theorem Config.Sound.isLong_eq {c : Config} (sound : c.Sound) {f : QueueFile} (num : f.Numbered) :
    c.isLong f = false := sound.not_isTooLong f num

namespace FileSystem.Tree

/-- The data path leads to a directory in which a queue's files, as far as they are there, are
regular files, each under one name. -/
structure Homes (t : Tree) (c : Config) (dir : Location) : Prop where
  directory : t.lookup dir = some .directory
  leads : t.walk true maxLinks [] (Path.names c.dataPath) = .ok dir
  noNul : ∀ name ∈ Path.names c.dataPath, 0 ∉ name.bytes
  plain : ∀ f, t.lookup (place c dir f) = none ∨
    ∃ number, t.lookup (place c dir f) = some (.file number) ∧ number < t.inodes.size
  alone : ∀ {f g : QueueFile} {number : Nat}, t.lookup (place c dir f) = some (.file number) →
    t.lookup (place c dir g) = some (.file number) → f = g

variable {t t' : Tree} {c : Config} {dir : Location} {f g : QueueFile} {number : Nat}
  {inode : Inode}

theorem Hosts.homes (h : t.Hosts c.dataPath dir) : t.Homes c dir where
  directory := h.directory
  leads := h.leads
  noNul := h.noNul
  plain f := h.plain _
  alone found found' := QueueFile.name_inj.1 (by simpa using h.alone found found')

namespace Homes

/-- The queue's own files stand in the way of no path to the directory. -/
theorem files (h : t.Homes c dir) :
    Files t dir fun name => ∃ f : QueueFile, name = .text (f.name c.name) where
  directory := h.directory
  plain := by
    rintro name ⟨f, rfl⟩
    exact (h.plain f).imp_right fun ⟨number, found, _⟩ => ⟨number, found⟩

theorem locate (h : t.Homes c dir) (named : c.Named) (f : QueueFile) (last : Bool) :
    t.locate last (Path.parts (c.path f)) = entry dir (f.name c.name) :=
  h.files.locate_join h.leads h.noNul ⟨f, rfl⟩ (named.isEntry f) last

theorem small (h : t.Homes c dir) (there : t.lookup (place c dir f) = some (.file number)) :
    number < t.inodes.size := by
  rcases h.plain f with none | ⟨n, found, small⟩
  · rw [none] at there
    cases there
  · rw [found] at there
    cases there
    exact small

theorem lookup_none (h : t.Homes c dir) (missing : t.shelf c dir f = none) :
    t.lookup (place c dir f) = none := by
  rcases h.plain f with none | ⟨n, found, -⟩
  · exact none
  · rw [shelf, found] at missing
    cases missing

/-- Files may change while none of them comes or goes. -/
theorem modify_any (h : t.Homes c dir) (number : Nat) (change : Inode → Inode) :
    (t.modify number change).Homes c dir where
  directory := h.directory
  leads := by
    have same : AgreeBeside t (t.modify number change) dir
        fun name => ∃ f : QueueFile, name = .text (f.name c.name) := fun _ _ => rfl
    exact walk_agree h.files same h.leads
  noNul := h.noNul
  plain f := by
    have size : (t.modify number change).inodes.size = t.inodes.size := by simp [Tree.modify]
    rw [size]
    exact h.plain f
  alone := h.alone

/-- One of the queue's files changed, and became a file of its own or went. -/
theorem set (h : t.Homes c dir) (f : QueueFile)
    (same : ∀ p ≠ [], p ≠ place c dir f → t'.lookup p = t.lookup p)
    (grown : t.inodes.size ≤ t'.inodes.size)
    (now : t'.lookup (place c dir f) = none ∨
      ∃ number, t'.lookup (place c dir f) = some (.file number) ∧ number < t'.inodes.size ∧
        ∀ g, g ≠ f → t.lookup (place c dir g) ≠ some (.file number)) : t'.Homes c dir := by
  have stays : ∀ g, g ≠ f → t'.lookup (place c dir g) = t.lookup (place c dir g) := fun g ne =>
    same _ (by simp [place]) fun e => ne (place_inj.1 e)
  have beside : AgreeBeside t t' dir fun name => ∃ g : QueueFile, name = .text (g.name c.name) := by
    intro p apart
    by_cases root : p = []
    · rw [root, lookup_nil, lookup_nil]
    · exact same p root (apart _ ⟨f, rfl⟩)
  constructor
  case directory =>
    rw [beside dir fun name _ e => by simpa using congrArg List.length e]
    exact h.directory
  case leads => exact walk_agree h.files beside h.leads
  case noNul => exact h.noNul
  case plain =>
    intro g
    by_cases e : g = f
    · subst e
      rcases now with none | ⟨n, found, small, -⟩
      · exact Or.inl none
      · exact Or.inr ⟨n, found, small⟩
    · rw [stays g e]
      rcases h.plain g with none | ⟨n, found, small⟩
      · exact Or.inl none
      · exact Or.inr ⟨n, found, by omega⟩
  case alone =>
    have fresh : ∀ {g n}, g ≠ f → t'.lookup (place c dir f) = some (.file n) →
        t'.lookup (place c dir g) ≠ some (.file n) := by
      intro g n ne here
      rw [stays g ne]
      rcases now with none | ⟨m, found, -, alone⟩
      · rw [none] at here
        cases here
      · rw [found] at here
        cases here
        exact alone g ne
    intro a b n ha hb
    by_cases ea : a = f
    · by_cases eb : b = f
      · rw [ea, eb]
      · exact absurd hb (fresh eb (ea ▸ ha))
    · by_cases eb : b = f
      · exact absurd ha (fresh ea (eb ▸ hb))
      · rw [stays a ea] at ha
        rw [stays b eb] at hb
        exact h.alone ha hb

theorem putFile (h : t.Homes c dir) (file : Inode) :
    (t.putFile (place c dir f) file).2.Homes c dir ∧
      (t.putFile (place c dir f) file).2.shelf c dir =
        Function.update (t.shelf c dir) f (some (t.inodes.size, file)) := by
  have size : (t.putFile (place c dir f) file).2.inodes.size = t.inodes.size + 1 := by
    simp [Tree.putFile]
  refine ⟨h.set f (fun p root ne => ?_) (by omega) (Or.inr ⟨t.inodes.size, ?_, by omega, ?_⟩),
    shelf_putFile (fun _ _ there => h.small there) file⟩
  · rw [lookup_putFile root]
    exact if_neg ne
  · rw [lookup_putFile (by simp [place])]
    exact if_pos rfl
  · exact fun g _ there => absurd (h.small there) (Nat.lt_irrefl _)

theorem modify (h : t.Homes c dir) (found : t.shelf c dir f = some (number, inode))
    (change : Inode → Inode) :
    (t.modify number change).Homes c dir ∧ (t.modify number change).shelf c dir =
      Function.update (t.shelf c dir) f (some (number, change inode)) := by
  have size : (t.modify number change).inodes.size = t.inodes.size := by simp [Tree.modify]
  obtain ⟨there, -⟩ := lookup_of_shelf found
  have small := h.small there
  refine ⟨h.set f (fun _ _ _ => rfl) (by omega) (Or.inr ⟨number, there, by omega, ?_⟩),
    shelf_modify found small (fun g other => h.alone other there) change⟩
  exact fun g ne elsewhere => ne (h.alone elsewhere there)

theorem erase (h : t.Homes c dir) : (t.erase (place c dir f)).Homes c dir := by
  refine h.set f (fun p root ne => ?_) (Nat.le_refl _) (Or.inl ?_)
  · rw [lookup_erase root]
    exact if_neg ne
  · rw [lookup_erase (by simp [place])]
    exact if_pos rfl

theorem move (h : t.Homes c dir) (found : t.shelf c dir f = some (number, inode)) :
    ((t.erase (place c dir f)).put (place c dir g) (.file number)).Homes c dir := by
  obtain ⟨there, -⟩ := lookup_of_shelf found
  refine (h.erase (f := f)).set g (fun p root ne => ?_) (Nat.le_refl _)
    (Or.inr ⟨number, ?_, h.small there, fun k apart elsewhere => ?_⟩)
  · rw [lookup_put root]
    exact if_neg ne
  · rw [lookup_put (by simp [place])]
    exact if_pos rfl
  · rw [lookup_erase (by simp [place])] at elsewhere
    split at elsewhere
    · cases elsewhere
    · next away => exact away (by rw [h.alone elsewhere there])

/-! ### Operations on a path -/

section Paths

variable (h : t.Homes c dir) (named : c.Named)
include h named

theorem locate_eq (f : QueueFile) (last : Bool) : t.locate last (Path.parts (c.path f)) =
    if c.isLong f then .error .invalidName else .ok (place c dir f) := h.locate named f last

theorem find_cases (f : QueueFile) :
    (∃ e, t.find? (Path.parts (c.path f)) = .error e ∧
      (c.isLong f = true ∨ t.shelf c dir f = none ∧ e = .notFound)) ∨
    ∃ number inode, t.shelf c dir f = some (number, inode) ∧
      t.find? (Path.parts (c.path f)) = .ok (.file number) := by
  rw [find?, h.locate_eq named]
  cases long : c.isLong f with
  | true => exact Or.inl ⟨_, rfl, Or.inl rfl⟩
  | false =>
    simp only [Bool.false_eq_true, if_false, bind, Except.bind]
    rcases Option.eq_none_or_eq_some (t.shelf c dir f) with missing | ⟨⟨number, inode⟩, found⟩
    · rw [h.lookup_none missing]
      exact Or.inl ⟨_, rfl, Or.inr ⟨missing, rfl⟩⟩
    · rw [(lookup_of_shelf found).1]
      exact Or.inr ⟨number, inode, found, rfl⟩

/-- What is opened for writing is the file, or an empty one that is made. -/
theorem openWrite_cases (f : QueueFile) :
    (∃ e, t.openWrite (Path.parts (c.path f)) = (.error e, t)) ∨
    (∃ number inode, t.shelf c dir f = some (number, inode) ∧
      t.openWrite (Path.parts (c.path f)) = (.ok (.file number), t)) ∨
    (t.shelf c dir f = none ∧ t.openWrite (Path.parts (c.path f)) =
      (.ok (.file t.inodes.size), (t.putFile (place c dir f) {}).2)) := by
  rw [openWrite, h.locate_eq named]
  cases c.isLong f with
  | true => exact Or.inl ⟨_, rfl⟩
  | false =>
    simp only [Bool.false_eq_true, if_false]
    rcases Option.eq_none_or_eq_some (t.shelf c dir f) with missing | ⟨⟨number, inode⟩, found⟩
    · rw [h.lookup_none missing]
      exact Or.inr (Or.inr ⟨missing, rfl⟩)
    · rw [(lookup_of_shelf found).1]
      exact Or.inr (Or.inl ⟨number, inode, found, rfl⟩)

theorem createNew_cases (f : QueueFile) :
    (∃ e, t.createNew (Path.parts (c.path f)) = (.error e, t)) ∨
    (t.shelf c dir f = none ∧ t.createNew (Path.parts (c.path f)) =
      (.ok (.file t.inodes.size), (t.putFile (place c dir f) {}).2)) := by
  rw [createNew, h.locate_eq named]
  cases c.isLong f with
  | true => exact Or.inl ⟨_, rfl⟩
  | false =>
    simp only [Bool.false_eq_true, if_false]
    rcases Option.eq_none_or_eq_some (t.shelf c dir f) with missing | ⟨⟨number, inode⟩, found⟩
    · rw [h.lookup_none missing]
      exact Or.inr ⟨missing, rfl⟩
    · rw [(lookup_of_shelf found).1]
      exact Or.inl ⟨_, rfl⟩

theorem remove_cases (f : QueueFile) :
    (∃ e, t.remove (Path.parts (c.path f)) = (.error e, t) ∧
      (c.isLong f = true ∨ t.shelf c dir f = none ∧ e = .notFound)) ∨
    t.shelf c dir f ≠ none ∧
      t.remove (Path.parts (c.path f)) = (.ok (), t.erase (place c dir f)) := by
  rw [remove, h.locate_eq named]
  cases c.isLong f with
  | true => exact Or.inl ⟨_, rfl, Or.inl rfl⟩
  | false =>
    simp only [Bool.false_eq_true, if_false]
    rcases Option.eq_none_or_eq_some (t.shelf c dir f) with missing | ⟨⟨number, inode⟩, found⟩
    · rw [h.lookup_none missing]
      exact Or.inl ⟨_, rfl, Or.inr ⟨missing, rfl⟩⟩
    · rw [(lookup_of_shelf found).1, found]
      exact Or.inr ⟨nofun, rfl⟩

theorem rename_cases {f g : QueueFile} (ne : g ≠ f) :
    (∃ e, t.rename (Path.parts (c.path f)) (Path.parts (c.path g)) = (.error e, t) ∧
      (c.isLong f = true ∨ c.isLong g = true ∨ t.shelf c dir f = none)) ∨
    ∃ number inode, t.shelf c dir f = some (number, inode) ∧
      t.rename (Path.parts (c.path f)) (Path.parts (c.path g)) =
        (.ok (), (t.erase (place c dir f)).put (place c dir g) (.file number)) := by
  rw [rename, h.locate_eq named, h.locate_eq named]
  cases c.isLong f with
  | true => exact Or.inl ⟨_, rfl, Or.inl rfl⟩
  | false =>
    cases c.isLong g with
    | true => exact Or.inl ⟨_, rfl, Or.inr (Or.inl rfl)⟩
    | false =>
      simp only [Bool.false_eq_true, if_false]
      rcases Option.eq_none_or_eq_some (t.shelf c dir f) with missing | ⟨⟨number, inode⟩, found⟩
      · rw [h.lookup_none missing]
        exact Or.inl ⟨_, rfl, Or.inr (Or.inr missing)⟩
      · have apart : place c dir f ≠ place c dir g := fun e => ne (place_inj.1 e).symm
        refine Or.inr ⟨number, inode, found, ?_⟩
        simp only [(lookup_of_shelf found).1, if_neg apart]
        rcases h.plain g with none | ⟨n, there, -⟩
        · simp only [none]
        · simp only [there]

end Paths

end Homes

end FileSystem.Tree

end DurableQueue
