import DurableQueue.Proofs.FileSystem.Drafting
import DurableQueue.Proofs.FileSystem.Thinning

/-!
# What a listing shows

A directory lists each name that something stands under (`mem_namesIn`). So whatever a path of an entry
leads to, symbolic links followed, the name of the entry is in the listing of the directory: the path
leads through the directory (`walk_stands`), and the path of the directory leads there too, whether a
slash stands at its end or not (`locate_directory`).
-/

namespace DurableQueue.FileSystem

namespace Tree

variable {t : Tree} {dir : Location} {name : Name} {ns : List Name}

theorem mem_namesIn : name ∈ t.namesIn dir ↔ t.lookup (name :: dir) ≠ none := by
  rw [lookup_of_ne_nil (by simp), ne_eq, Option.map_eq_none_iff, List.find?_eq_none]
  simp only [namesIn, List.mem_filterMap, decide_eq_true_eq, not_forall, not_not]
  constructor
  · rintro ⟨e, there, shown⟩
    split at shown
    · next entry parent at_ =>
      rw [Option.ite_none_right_eq_some, Option.some.injEq] at shown
      obtain ⟨rfl, rfl⟩ := shown
      exact ⟨e, there, at_⟩
    · cases shown
  · rintro ⟨e, there, at_⟩
    exact ⟨e, there, by simp [at_]⟩

/-! ### Ways to what stands somewhere -/

/-- Where a way leads to something, the same way without a last link followed does so as well. -/
theorem walkWith_stands {follow follow' : Location → List Name → Except FileError Location}
    (ih : ∀ here ns p, follow here ns = .ok p → t.lookup p ≠ none →
      ∃ q, follow' here ns = .ok q ∧ t.lookup q ≠ none) :
    ∀ ns here p, t.walkWith true follow here ns = .ok p → t.lookup p ≠ none →
      ∃ q, t.walkWith false follow' here ns = .ok q ∧ t.lookup q ≠ none := by
  intro ns
  induction ns with
  | nil =>
    intro here p way there
    rw [walkWith] at way ⊢
    exact ⟨p, way, there⟩
  | cons part rest ihn =>
    intro here p way there
    rw [walkWith_cons] at way ⊢
    cases turns : t.turn here part with
    | refused e => simp [turns] at way
    | place next =>
      simp only [turns] at way ⊢
      exact ihn next p way there
    | link target =>
      simp only [turns, or_true, if_true] at way ⊢
      by_cases more : rest = []
      · -- the link stands where the name is
        have stands := (turn_eq_link turns).2
        exact ⟨part :: here, by simp [more], by simp [stands]⟩
      · rw [if_pos (Or.inl more)]
        exact ih _ _ p way there

theorem walk_stands : ∀ links here ns p, t.walk true links here ns = .ok p → t.lookup p ≠ none →
    ∃ q, t.walk false links here ns = .ok q ∧ t.lookup q ≠ none := by
  intro links
  induction links with
  | zero => exact fun here ns => walkWith_stands (fun _ _ _ refused => by cases refused) ns here
  | succ links ih => exact fun here ns => walkWith_stands ih ns here

/-- Under a path that leads to something, something stands. -/
theorem stands_of_find {node : Node} (found : t.find? ns = .ok node) : t.Stands ns := by
  obtain ⟨p, leads, there⟩ : ∃ p, t.locate true ns = .ok p ∧ t.lookup p ≠ none := by
    cases leads : t.locate true ns with
    | error e => simp [find?, leads, bind, Except.bind] at found
    | ok p =>
      refine ⟨p, rfl, fun vacant => ?_⟩
      simp [find?, leads, vacant, bind, Except.bind] at found
  obtain ⟨some_, noNul, way⟩ := locate_ok leads
  obtain ⟨q, way', there'⟩ := walk_stands _ _ _ p way there
  exact ⟨q, (locate_of_walk some_ noNul).trans way', there'⟩

/-- A directory is led to by its path, and by its path with a slash at the end. -/
theorem locate_directory {path : String} (some_ : path ≠ "")
    (noNul : ∀ n ∈ Path.names path, 0 ∉ n.bytes)
    (way : t.walk true maxLinks [] (Path.names path) = .ok dir)
    (directory : t.lookup dir = some .directory) :
    t.locate true (Path.parts path) = .ok dir := by
  have clean : ¬((Path.parts path).any fun n => n.bytes.contains 0) = true := by
    have dot : 0 ∉ (Name.text ".").bytes := by decide +kernel
    rw [Path.parts]
    split
    · simpa [or_imp, forall_and, dot] using noNul
    · simpa using noNul
  rw [locate_of_walk (Path.parts_ne_nil some_) clean, Path.parts]
  split
  · have files : Files t dir fun _ => False := ⟨directory, fun _ no => no.elim⟩
    exact walk_append files (fun _ _ => rfl) (Or.inr rfl)
      (fun follow => by simp [walkWith, directory]) maxLinks [] _ way
  · rw [List.append_nil]
    exact way

/-- **What stands in a directory is listed in it.** -/
theorem list_of_stands {path : String} (some_ : path ≠ "") (dot : name ≠ .text ".")
    (dots : name ≠ .text "..") (stands : t.Stands (Path.names path ++ [name])) :
    ∃ dir, t.locate true (Path.parts path) = .ok dir ∧ t.lookup dir = some .directory ∧
      t.list (Path.parts path) = .ok (t.namesIn dir) ∧ name ∈ t.namesIn dir := by
  obtain ⟨p, leads, there⟩ := stands
  obtain ⟨clean, dir, way, directory, -, rfl⟩ := (locate_snoc dot dots).1 leads
  have noNul : ∀ n ∈ Path.names path, 0 ∉ n.bytes := by
    simp only [List.any_append, Bool.or_eq_false_iff, List.any_eq_false] at clean
    simpa using clean.1
  have leads' := locate_directory some_ noNul way directory
  exact ⟨dir, leads', directory, by simp [list, leads', directory], mem_namesIn.2 there⟩

end Tree

namespace Disk

variable {d d' : Disk} {path name : String}

theorem isFile_iff :
    d.isFile path = true ↔ ∃ number, d.tree.find? (Path.parts path) = .ok (.file number) := by
  unfold isFile
  split
  · next number found => simp [found]
  · next other =>
    constructor
    · intro no
      cases no
    · rintro ⟨number, found⟩
      exact (other number found).elim

theorem isFile_congr (same : d'.tree = d.tree) (path : String) : d'.isFile path = d.isFile path := by
  rw [isFile, isFile, same]

/-- Listing a directory leaves the tree as it was. -/
theorem list_tree (d : Disk) (path : String) : (d.list path).2.tree = d.tree := by
  unfold list observe perform
  split <;> rfl

/-- **A file is in the listing of its directory.** -/
theorem mem_list_of_isFile (some_ : path ≠ "") (nonempty : name.toList ≠ [])
    (noSlash : '/' ∉ name.toList) (dot : name ≠ ".") (dots : name ≠ "..")
    (there : d.isFile (Path.join path name) = true) :
    d.isThere path = true ∧ ∀ names, (d.list path).1 = .ok names → .text name ∈ names := by
  obtain ⟨number, found⟩ := isFile_iff.1 there
  rw [Path.parts_join_of_noSlash nonempty noSlash] at found
  obtain ⟨dir, leads, directory, lists, listed⟩ := Tree.list_of_stands some_ (by simpa using dot)
    (by simpa using dots) (Tree.stands_of_find found)
  constructor
  · simp [isThere, Tree.find?, leads, directory, bind, Except.bind]
  · intro names shown
    have same : d.tree.list (Path.parts path) = .ok names := perform_ok shown
    rw [lists] at same
    cases same
    exact listed

end Disk

end DurableQueue.FileSystem
