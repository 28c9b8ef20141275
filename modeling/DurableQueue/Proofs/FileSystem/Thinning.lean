import DurableQueue.Proofs.FileSystem.Faults
import DurableQueue.Proofs.FileSystem.Raising

/-!
# What removing files takes away

Removing a file takes its name away and nothing else, and no directory ever goes (`Tree.Thinned`). So a
path that led to a place leads there still or comes to nothing (`locate_thinned`), and where a path came
to nothing it goes on doing so (`Thinned.missing`). Removals in turn thin the tree one after the other,
whatever it holds and whichever of them fail: `Disk.Tries` says what they have done, and
`Tries.remove` that one more keeps it so.
-/

namespace DurableQueue.FileSystem

namespace Tree

variable {t t' t'' : Tree} {place here : Location} {parts front : List Name} {part name name' : Name}

/-- Some names of files, links and devices are gone, and all else is as it was. -/
structure Thinned (t t' : Tree) : Prop where
  lookup : ∀ place, t'.lookup place = t.lookup place ∨
    t'.lookup place = none ∧ t.lookup place ≠ some .directory
  inodes : t'.inodes = t.inodes

theorem Thinned.refl (t : Tree) : t.Thinned t := ⟨fun _ => Or.inl rfl, rfl⟩

theorem Thinned.trans (first : t.Thinned t') (second : t'.Thinned t'') : t.Thinned t'' where
  lookup place := by
    rcases second.lookup place with same | ⟨gone, other⟩
    · rw [same]
      exact first.lookup place
    · rcases first.lookup place with same' | ⟨-, other'⟩
      · exact Or.inr ⟨gone, same' ▸ other⟩
      · exact Or.inr ⟨gone, other'⟩
  inodes := second.inodes.trans first.inodes

theorem thinned_erase (other : t.lookup place ≠ some .directory) : t.Thinned (t.erase place) where
  lookup p := by
    by_cases root : p = []
    · rw [root, lookup_nil, lookup_nil]
      exact Or.inl rfl
    · rw [lookup_erase root]
      by_cases same : p = place
      · rw [if_pos same, same]
        exact Or.inr ⟨rfl, other⟩
      · rw [if_neg same]
        exact Or.inl rfl
  inodes := rfl

/-- Something stands under a path; a link at its end is not followed. -/
def Stands (t : Tree) (parts : List Name) : Prop :=
  ∃ place, t.locate false parts = .ok place ∧ t.lookup place ≠ none

/-- Whoever follows a path is told that nothing is there. -/
def Missing (t : Tree) (parts : List Name) : Prop :=
  t.locate false parts = .error .notFound ∨
    ∃ place, t.locate false parts = .ok place ∧ t.lookup place = none

theorem Missing.not_stands (missing : t.Missing parts) : ¬t.Stands parts := by
  rintro ⟨place, leads, there⟩
  rcases missing with lost | ⟨place', leads', vacant⟩
  · rw [lost] at leads
    cases leads
  · rw [leads'] at leads
    cases leads
    exact there vacant

/-- No system call accepts a NUL, so no path with one is told to come to nothing. -/
theorem Missing.noNul (missing : t.Missing parts) : ∀ n ∈ parts, 0 ∉ n.bytes := by
  have clean : ¬(parts.any fun n => n.bytes.contains 0) = true := by
    intro nul
    have some_ : parts ≠ [] := by
      rintro rfl
      cases nul
    rcases missing with lost | ⟨place, leads, -⟩
    · rw [locate, if_neg some_, if_pos nul] at lost
      cases lost
    · rw [locate, if_neg some_, if_pos nul] at leads
      cases leads
  simpa using clean

/-! ### Ways through a thinner tree -/

section Ways

variable (thinned : t.Thinned t')
include thinned

/-- A turn stays as it was, or its place is gone, or the link that it was is. -/
theorem turn_thinned (here : Location) (part : Name) :
    t'.turn here part = t.turn here part ∨ t'.turn here part = .refused .notFound ∨
      t'.turn here part = .place (part :: here) ∧ t'.lookup (part :: here) = none ∧
        ∃ target, t.turn here part = .link target := by
  rcases thinned.lookup here with same | ⟨gone, -⟩
  case inr =>
    right; left
    rw [turn, gone]
  rcases thinned.lookup (part :: here) with entry | ⟨gone, -⟩
  · exact Or.inl (turn_congr same entry)
  rw [turn, turn, same, gone]
  cases t.lookup here with
  | none => exact Or.inl rfl
  | some node =>
    cases node with
    | file _ | link _ | device _ => exact Or.inl rfl
    | directory =>
      simp only
      split
      · exact Or.inl rfl
      split
      · exact Or.inl rfl
      split
      · exact Or.inl rfl
      split
      · next target _ => exact Or.inr (Or.inr ⟨rfl, trivial, target, rfl⟩)
      · exact Or.inl rfl

theorem walkWith_thinned {follow follow' : Location → List Name → Except FileError Location}
    (ih : ∀ here ns, follow' here ns = follow here ns ∨ follow' here ns = .error .notFound) :
    ∀ ns here, t'.walkWith false follow' here ns = t.walkWith false follow here ns ∨
      t'.walkWith false follow' here ns = .error .notFound := by
  intro ns
  induction ns with
  | nil => exact fun here => Or.inl (by rw [walkWith, walkWith])
  | cons part rest ihn =>
    intro here
    rw [walkWith_cons, walkWith_cons]
    rcases turn_thinned thinned here part with same | lost | ⟨place, gone, target, points⟩
    · rw [same]
      cases t.turn here part with
      | refused e => exact Or.inl rfl
      | place p => exact ihn p
      | link target =>
        simp only
        split
        · exact ih _ _
        · exact Or.inl rfl
    · rw [lost]
      exact Or.inr rfl
    · -- the link is gone: a path that ends there names the place, and every other is lost
      rw [place, points]
      cases rest with
      | nil => exact Or.inl (by simp [walkWith])
      | cons next rest => exact Or.inr (by simp [walkWith, gone])

theorem walk_thinned : ∀ links here ns, t'.walk false links here ns = t.walk false links here ns ∨
    t'.walk false links here ns = .error .notFound := by
  intro links
  induction links with
  | zero => exact fun here ns => walkWith_thinned thinned (fun _ _ => Or.inl rfl) ns here
  | succ links ih => exact fun here ns => walkWith_thinned thinned ih ns here

/-- **Where files are removed, a path leads where it led or comes to nothing.** -/
theorem locate_thinned (parts : List Name) : t'.locate false parts = t.locate false parts ∨
    t'.locate false parts = .error .notFound := by
  unfold locate
  split
  · exact Or.inl rfl
  split
  · exact Or.inl rfl
  · exact walk_thinned thinned _ _ _

theorem Thinned.missing (missing : t.Missing parts) : t'.Missing parts := by
  rcases locate_thinned thinned parts with same | lost
  · rcases missing with lost | ⟨place, leads, vacant⟩
    · exact Or.inl (same.trans lost)
    · refine Or.inr ⟨place, same.trans leads, ?_⟩
      rcases thinned.lookup place with kept | ⟨gone, -⟩
      · exact kept.trans vacant
      · exact gone
  · exact Or.inl lost

end Ways

/-! ### Removing a name -/

/-- What stands under a path and is no directory is removed; otherwise nothing is, and that nothing was
found is told where that is so. -/
theorem remove_cases (t : Tree) (parts : List Name) :
    (∃ place, t.locate false parts = .ok place ∧ t.lookup place ≠ some .directory ∧
      t.remove parts = (.ok (), t.erase place)) ∨
    ∃ e, t.remove parts = (.error e, t) ∧ (e = .notFound → t.Missing parts) := by
  unfold remove
  cases leads : t.locate false parts with
  | error e => exact Or.inr ⟨e, rfl, fun lost => Or.inl (lost ▸ leads)⟩
  | ok place =>
    simp only
    split
    · next vacant => exact Or.inr ⟨_, rfl, fun _ => Or.inr ⟨place, leads, vacant⟩⟩
    · exact Or.inr ⟨_, rfl, nofun⟩
    · next node other found =>
      refine Or.inl ⟨place, rfl, fun directory => ?_, rfl⟩
      exact other (Option.some.inj (found.symm.trans directory))

theorem remove_of_missing (missing : t.Missing parts) : t.remove parts = (.error .notFound, t) := by
  rcases missing with lost | ⟨place, leads, vacant⟩
  · rw [remove, lost]
  · simp only [remove, leads, vacant]

theorem missing_iff_remove :
    t.Missing parts ↔ Disk.errorOf (t.remove parts).1 = some .notFound := by
  refine ⟨fun missing => by rw [remove_of_missing missing, Disk.errorOf], fun failed => ?_⟩
  rcases t.remove_cases parts with ⟨place, -, -, removed⟩ | ⟨e, refused, lost⟩
  · rw [removed] at failed
    cases failed
  · rw [refused] at failed
    exact lost (Option.some.inj failed)

instance (t : Tree) (parts : List Name) : Decidable (t.Missing parts) :=
  decidable_of_iff _ missing_iff_remove.symm

/-- Under the path of a file that was removed nothing stands. -/
theorem missing_erase (leads : t.locate false parts = .ok place)
    (other : t.lookup place ≠ some .directory) : (t.erase place).Missing parts := by
  have root : place ≠ [] := by
    rintro rfl
    exact other (lookup_nil t)
  rcases locate_thinned (thinned_erase other) parts with same | lost
  · exact Or.inr ⟨place, same.trans leads, by rw [lookup_erase root, if_pos rfl]⟩
  · exact Or.inl lost

/-- If an entry of a directory is found missing, so is any other that does not stand, unless no file can
have its name. -/
theorem missing_sibling (dot : name ≠ .text ".") (dots : name ≠ .text "..")
    (dot' : name' ≠ .text ".") (dots' : name' ≠ .text "..") (missing : t.Missing (front ++ [name]))
    (short : name'.isTooLong = false) (noNul : 0 ∉ name'.bytes)
    (nothing : ¬t.Stands (front ++ [name'])) : t.Missing (front ++ [name']) := by
  have clean : ¬((front ++ [name]).any fun n => n.bytes.contains 0) = true := by
    simpa [or_imp, forall_and] using missing.noNul
  have clean' : ¬((front ++ [name']).any fun n => n.bytes.contains 0) = true := by
    simp only [List.any_append, List.any_cons, List.any_nil, Bool.or_false, Bool.or_eq_true,
      not_or, List.contains_eq_mem, decide_eq_true_eq] at clean ⊢
    exact ⟨clean.1, noNul⟩
  simp only [Missing, Stands, locate_of_walk (by simp) clean, locate_of_walk (by simp) clean',
    walk_snoc dot dots, walk_snoc dot' dots'] at missing nothing ⊢
  generalize t.walk true maxLinks [] front = way at missing nothing ⊢
  cases way with
  | error e =>
    rcases missing with lost | ⟨place, leads, -⟩
    · exact Or.inl lost
    · cases leads
  | ok dir =>
    simp only [Except.bind, enter] at missing nothing ⊢
    cases found : t.lookup dir with
    | none => exact Or.inl rfl
    | some node =>
      simp only [found] at missing nothing ⊢
      cases node with
      | directory =>
        simp only [short, Bool.false_eq_true, if_false] at nothing ⊢
        refine Or.inr ⟨_, rfl, ?_⟩
        by_contra there
        exact nothing ⟨_, rfl, there⟩
      | file _ | link _ | device _ => simp at missing

end Tree

namespace Disk

variable {d d' : Disk} {path : String} {tries : List (String × Option FileError)}

/-- No removal is planned to fail as if there were no file. -/
def Candid (d : Disk) : Prop :=
  ∀ n path fault, d.faults n (.remove path) = some fault → fault.error ≠ .notFound

/-- What removing a path meets. -/
theorem remove_outcome (d : Disk) (path : String) :
    (∃ place, d.tree.locate false (Path.parts path) = .ok place ∧
      d.tree.lookup place ≠ some .directory ∧
      d.remove path = (.ok (), d.noted (.remove path) none (d.tree.erase place))) ∨
    ∃ e, d.remove path = (.error e, d.noted (.remove path) (some e) d.tree) ∧
      (d.Candid → e = .notFound → d.tree.Missing (Path.parts path)) := by
  unfold remove perform
  cases planned : d.faults d.calls (.remove path) with
  | some fault =>
    exact Or.inr ⟨_, rfl, fun candid absent => absurd absent (candid _ _ _ planned)⟩
  | none =>
    rcases d.tree.remove_cases (Path.parts path) with ⟨place, leads, other, removed⟩ | ⟨e, failed, lost⟩
    · exact Or.inl ⟨place, leads, other, by simp only [removed, errorOf]⟩
    · exact Or.inr ⟨e, by simp only [failed, errorOf], fun _ => lost⟩

/-- What removals of paths in turn, each with the error that it met, have done: those calls were made
and no others, a name is gone only where one of the paths led whose removal succeeded, and under none
of these does anything stand, nor where no file was found. -/
structure Tries (d d' : Disk) (tries : List (String × Option FileError)) : Prop where
  noted : d'.history.map (fun a => (a.call, a.error)) =
    tries.reverse.map (fun a => (.remove a.1, a.2)) ++ d.history.map fun a => (a.call, a.error)
  faults_eq : d'.faults = d.faults
  thinned : d.tree.Thinned d'.tree
  removed : ∀ place, d'.tree.lookup place ≠ d.tree.lookup place →
    ∃ path, (path, none) ∈ tries ∧ d.tree.locate false (Path.parts path) = .ok place
  gone : ∀ path, (path, none) ∈ tries → d'.tree.Missing (Path.parts path)
  absent : d.Candid → ∀ path, (path, some .notFound) ∈ tries → d'.tree.Missing (Path.parts path)

theorem Tries.refl (d : Disk) : d.Tries d [] where
  noted := rfl
  faults_eq := rfl
  thinned := .refl _
  removed _ changed := absurd rfl changed
  gone := nofun
  absent := nofun

theorem mem_tries_snoc {met met' : Option FileError} {path' : String} :
    (path', met') ∈ tries ++ [(path, met)] ↔ (path', met') ∈ tries ∨ path' = path ∧ met' = met := by
  rw [List.mem_append, List.mem_singleton, Prod.mk.injEq]

/-- A name that is gone was where the path led from the beginning, or the path would have come to
nothing. -/
theorem Tries.taken (h : d.Tries d' tries) {place : Location}
    (leads : d'.tree.locate false (Path.parts path) = .ok place)
    (other : d'.tree.lookup place ≠ some .directory) :
    d.Tries (d'.noted (.remove path) none (d'.tree.erase place)) (tries ++ [(path, none)]) where
  noted := by simp [Disk.noted, h.noted]
  faults_eq := h.faults_eq
  thinned := h.thinned.trans (Tree.thinned_erase other)
  removed p changed := by
    by_cases here : p = place
    · refine ⟨path, mem_tries_snoc.2 (Or.inr ⟨rfl, rfl⟩), ?_⟩
      rcases Tree.locate_thinned h.thinned (Path.parts path) with same | gone
      · exact here ▸ same.symm.trans leads
      · rw [gone] at leads
        cases leads
    · have root : p ≠ [] := by
        rintro rfl
        exact changed (by rw [Tree.lookup_nil, Tree.lookup_nil])
      have kept : (d'.tree.erase place).lookup p = d'.tree.lookup p :=
        (Tree.lookup_erase root).trans (if_neg here)
      obtain ⟨path', tried, leads'⟩ := h.removed p (kept ▸ changed)
      exact ⟨path', mem_tries_snoc.2 (Or.inl tried), leads'⟩
  gone path' tried := by
    rcases mem_tries_snoc.1 tried with before | ⟨rfl, -⟩
    · exact (Tree.thinned_erase other).missing (h.gone path' before)
    · exact Tree.missing_erase leads other
  absent candid path' tried := by
    rcases mem_tries_snoc.1 tried with before | ⟨-, none_⟩
    · exact (Tree.thinned_erase other).missing (h.absent candid path' before)
    · cases none_

theorem Tries.failed (h : d.Tries d' tries) {e : FileError}
    (lost : d'.Candid → e = .notFound → d'.tree.Missing (Path.parts path)) :
    d.Tries (d'.noted (.remove path) (some e) d'.tree) (tries ++ [(path, some e)]) where
  noted := by simp [Disk.noted, h.noted]
  faults_eq := h.faults_eq
  thinned := h.thinned
  removed p changed := by
    obtain ⟨path', tried, leads⟩ := h.removed p changed
    exact ⟨path', mem_tries_snoc.2 (Or.inl tried), leads⟩
  gone path' tried := by
    rcases mem_tries_snoc.1 tried with before | ⟨-, some_⟩
    · exact h.gone path' before
    · cases some_
  absent candid path' tried := by
    rcases mem_tries_snoc.1 tried with before | ⟨rfl, absent⟩
    · exact h.absent candid path' before
    · refine lost ?_ (Option.some.inj absent).symm
      rw [Candid, h.faults_eq]
      exact candid

/-- **One more removal.** -/
theorem Tries.remove (h : d.Tries d' tries) (path : String) :
    d.Tries (d'.remove path).2 (tries ++ [(path, errorOf (d'.remove path).1)]) := by
  rcases d'.remove_outcome path with ⟨place, leads, other, eq⟩ | ⟨e, eq, lost⟩
  · rw [eq]
    exact h.taken leads other
  · rw [eq]
    exact h.failed lost

/-- Where nothing is planned to fail, a path that comes to nothing is found to. -/
theorem remove_missing (missing : d.tree.Missing (Path.parts path))
    (calm : d.faults d.calls (.remove path) = none) :
    d.remove path = (.error .notFound, d.noted (.remove path) (some .notFound) d.tree) := by
  simp only [remove, perform, calm, Tree.remove_of_missing missing, errorOf]

/-! ### Removals in turn -/

/-- What counts as a failure of a removal: any error but that there is no file. -/
def failure? (d : Disk) (path : String) : Option FileError :=
  (errorOf (d.remove path).1).filter (· ≠ .notFound)

theorem removeEach_cons (d : Disk) (path : String) (paths : List String) :
    d.removeEach (path :: paths) =
      (((d.failure? path).map (path, ·)).toList ++ ((d.remove path).2.removeEach paths).1,
        ((d.remove path).2.removeEach paths).2) := by
  rw [removeEach, failure?]
  cases d.remove path with
  | mk result d₁ =>
    cases result with
    | ok u => rfl
    | error e =>
      by_cases absent : e = .notFound
      · simp [errorOf, absent, Option.filter]
      · simp [errorOf, absent, Option.filter]

theorem removeEach_snoc (d : Disk) (paths : List String) (path : String) :
    d.removeEach (paths ++ [path]) =
      ((d.removeEach paths).1 ++
          (((d.removeEach paths).2.failure? path).map (path, ·)).toList,
        ((d.removeEach paths).2.remove path).2) := by
  induction paths generalizing d with
  | nil =>
    rw [List.nil_append, removeEach_cons]
    simp [removeEach]
  | cons first paths ih =>
    rw [List.cons_append, removeEach_cons, removeEach_cons, ih, List.append_assoc]

/-- No removal is planned to fail from now on. -/
def Unhindered (d : Disk) : Prop := ∀ n path, d.calls ≤ n → d.faults n (.remove path) = none

/-- Where all paths come to nothing, removing them does nothing. -/
theorem removeEach_missing {paths : List String} (unhindered : d.Unhindered)
    (missing : ∀ path ∈ paths, d.tree.Missing (Path.parts path)) :
    (d.removeEach paths).1 = [] ∧ (d.removeEach paths).2.tree = d.tree ∧
      (d.removeEach paths).2.Unhindered := by
  induction paths generalizing d with
  | nil => exact ⟨rfl, rfl, unhindered⟩
  | cons path paths ih =>
    have lost := remove_missing (missing path List.mem_cons_self)
      (unhindered _ path (Nat.le_refl _))
    obtain ⟨failed, tree, later⟩ := ih (d := d.noted (.remove path) (some .notFound) d.tree)
      (fun n p after => unhindered n p (Nat.le_of_succ_le after))
      fun p there => missing p (List.mem_cons_of_mem _ there)
    rw [removeEach_cons, failure?, lost]
    exact ⟨by simp [errorOf, Option.filter, failed], tree, later⟩

end Disk

end DurableQueue.FileSystem
