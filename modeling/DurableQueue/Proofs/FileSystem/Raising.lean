import DurableQueue.Proofs.FileSystem.Faults
import DurableQueue.Proofs.FileSystem.Touching
import DurableQueue.Proofs.FileSystem.Ways

/-!
# What creating directories adds

Creating the directories of a path adds directories on the way that the path goes, and leaves the rest
of the tree as it was (`Tree.Raised`, `raised_makeDirectories`). A path that was found to lead to an
empty place leads to the directory once that is there, whether or not links at its end are followed
(`walk_raised`).
-/

namespace DurableQueue.FileSystem

namespace Tree

variable {t t' t'' : Tree} {place dir : Location} {path ns : List Name}

/-- A place at which no link stands: there a path ends, also if links at its end are followed. -/
def Unlinked (t : Tree) (place : Location) : Prop := ∀ target, t.lookup place ≠ some (.link target)

theorem unlinked_of_lookup {node? : Option Node} (found : t.lookup place = node?)
    (other : ∀ target, node? ≠ some (.link target)) : t.Unlinked place := by
  intro target points
  exact other target (found.symm.trans points)

section Ends

variable (grown : t.Grown t') (unlinked : t.Unlinked place) (unlinked' : t'.Unlinked place)
include grown unlinked unlinked'

theorem turn_raised {here p : Location} {part : Name} {rest : List Name}
    {follow : Location → List Name → Except FileError Location}
    (goes : t.turn here part = .place p) (way : t.walkWith false follow p rest = .ok place) :
    t'.turn here part = .place p := by
  obtain ⟨directory, -⟩ := turn_eq_place goes
  have directory' : t'.lookup here = some .directory := by
    rw [grown.stays here (by simp [directory]), directory]
  rw [turn, directory] at goes
  rw [turn, directory']
  simp only at goes ⊢
  by_cases dot : part = .text "."
  · rwa [if_pos dot] at goes ⊢
  by_cases dots : part = .text ".."
  · rwa [if_neg dot, if_pos dots] at goes ⊢
  by_cases long : part.isTooLong = true
  · rwa [if_neg dot, if_neg dots, if_pos long] at goes ⊢
  rw [if_neg dot, if_neg dots, if_neg long] at goes ⊢
  obtain rfl : part :: here = p := by
    split at goes
    · cases goes
    · cases goes
      rfl
  split
  · next target points =>
    -- a link that is new stands where the way went nowhere, so the way ended there
    by_cases missing : t.lookup (part :: here) = none
    · obtain rfl := walkWith_missing missing way
      exact absurd points (unlinked' target)
    · rw [grown.stays _ missing] at points
      simp [points] at goes
  · rfl

theorem walkWith_raised {follow follow' : Location → List Name → Except FileError Location}
    (ih : ∀ here ns, follow here ns = .ok place → follow' here ns = .ok place) :
    ∀ ns here, t.walkWith false follow here ns = .ok place →
      t'.walkWith true follow' here ns = .ok place := by
  intro ns
  induction ns with
  | nil => exact fun here way => by simpa [walkWith] using way
  | cons part rest ihn =>
    intro here way
    rw [walkWith_cons] at way ⊢
    cases turns : t.turn here part with
    | refused e => simp [turns] at way
    | place p =>
      simp only [turns] at way
      rw [turn_raised grown unlinked unlinked' turns way]
      exact ihn p way
    | link target =>
      obtain ⟨directory, points⟩ := turn_eq_link turns
      have turns' : t'.turn here part = .link target := by
        rw [← turns]
        apply turn_congr
        · exact grown.stays here (by simp [directory])
        · exact grown.stays _ (by simp [points])
      simp only [turns, turns', or_true, if_true] at way ⊢
      split at way
      · exact ih _ _ way
      · cases way
        exact absurd points (unlinked target)

theorem walk_raised : ∀ links here ns, t.walk false links here ns = .ok place →
    t'.walk true links here ns = .ok place := by
  intro links
  induction links with
  | zero =>
    exact fun here ns =>
      walkWith_raised grown unlinked unlinked' (fun _ _ refused => by cases refused) ns here
  | succ links ih => exact fun here ns => walkWith_raised grown unlinked unlinked' ih ns here

end Ends

/-! ### Located places -/

theorem locate_ok {last : Bool} (found : t.locate last ns = .ok place) :
    ns ≠ [] ∧ ¬(ns.any fun n => n.bytes.contains 0) = true ∧
      t.walk last maxLinks [] ns = .ok place := by
  unfold locate at found
  split at found
  · cases found
  · next some_ =>
    split at found
    · cases found
    · next noNul => exact ⟨some_, noNul, found⟩

theorem locate_of_walk {last : Bool} (some_ : ns ≠ [])
    (noNul : ¬(ns.any fun n => n.bytes.contains 0) = true) :
    t.locate last ns = t.walk last maxLinks [] ns := by
  rw [locate, if_neg some_, if_neg noNul]

theorem locate_raised (grown : t.Grown t') (unlinked : t.Unlinked place)
    (unlinked' : t'.Unlinked place) (found : t.locate false ns = .ok place) :
    t'.locate true ns = .ok place := by
  obtain ⟨some_, noNul, way⟩ := locate_ok found
  rw [locate_of_walk some_ noNul]
  exact walk_raised grown unlinked unlinked' _ _ _ way

theorem locate_grown (grown : t.Grown t') (there : t.lookup place ≠ none)
    (found : t.locate true ns = .ok place) : t'.locate true ns = .ok place := by
  obtain ⟨some_, noNul, way⟩ := locate_ok found
  rw [locate_of_walk some_ noNul]
  exact walk_grown grown there _ _ _ way

/-! ### Trees with more directories -/

/-- What was in the tree is as it was, and what is there besides are directories on the way of a
path: each of them is what the path, cut short somewhere, leads to. -/
structure Raised (t t' : Tree) (path : List Name) : Prop extends Grown t t' where
  added : ∀ place, t.lookup place = none → t'.lookup place ≠ none →
    t'.lookup place = some .directory ∧ ∃ front, front <+: path ∧ t'.locate true front = .ok place

theorem Raised.refl (t : Tree) (path : List Name) : t.Raised t path :=
  { Grown.refl t with added := fun _ missing there => absurd missing there }

theorem Raised.trans (first : t.Raised t' path) (second : t'.Raised t'' path) : t.Raised t'' path where
  toGrown := first.toGrown.trans second.toGrown
  added place missing there := by
    by_cases missing' : t'.lookup place = none
    · exact second.added place missing' there
    · obtain ⟨directory, front, within, leads⟩ := first.added place missing missing'
      refine ⟨?_, front, within, locate_grown second.toGrown missing' leads⟩
      rw [second.stays place missing', directory]

theorem raised_makeDirectory {front : List Name} (within : front <+: path) :
    t.Raised (t.makeDirectory front).2 path := by
  have grown := t.grown_makeDirectory front
  revert grown
  rw [makeDirectory]
  split
  · exact fun _ => .refl t path
  · next place leads =>
    split
    · next vacant =>
      intro grown
      refine ⟨grown, fun other missing there => ?_⟩
      have root : other ≠ [] := ne_nil_of_lookup missing (by simp)
      rw [lookup_put root] at there ⊢
      by_cases same : other = place
      · subst same
        rw [if_pos rfl]
        refine ⟨rfl, front, within, locate_raised grown ?_ ?_ leads⟩
        · exact unlinked_of_lookup vacant (by simp)
        · exact unlinked_of_lookup ((lookup_put root).trans (if_pos rfl)) (by simp)
      · rw [if_neg same] at there
        exact absurd missing there
    · exact fun _ => .refl t path

end Tree

/-- Creating the directories of a path adds directories on its way and changes nothing else. -/
theorem Disk.raised_makeDirectories (d : Disk) (path : String) :
    d.tree.Raised (d.makeDirectories path).2.tree (Path.names path) := by
  refine makeDirectories_closed (R := fun d d' => d.tree.Raised d'.tree (Path.names path))
    (fun d => .refl _ _) (fun first second => first.trans second) fun d front within => ?_
  rcases d.perform_cases (.makeDirectory front) fun t => t.makeDirectory (Path.names front) with
    ⟨-, same⟩ | ⟨-, made⟩
  · rw [makeDirectory, same]
    exact .refl _ _
  · rw [makeDirectory, made]
    exact Tree.raised_makeDirectory within

end DurableQueue.FileSystem
