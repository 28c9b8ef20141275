import DurableQueue.Proofs.FileSystem.Shelf

/-!
# What a way depends on

Following a path looks at the places on the way and at nothing else: at each name it takes one turn
(`Tree.turn`, `walkWith_cons`), and what a turn can be is said once (`turn_eq_place`, `turn_eq_link`).
So a way stays as it is while places change that have a name which neither the path nor a link has
(`walk_unknown`); and a way that ends in a directory stays while the directories and links stay,
whatever becomes of the files (`walk_along`). A path that names an entry leads to the directory first
and to its entry then (`walk_snoc`).
-/

namespace DurableQueue.FileSystem

namespace Tree

variable {t t' : Tree} {name : Name} {ns : List Name} {here dir : Location} {last : Bool}

/-- The root is a directory. -/
theorem ne_nil_of_lookup {node? : Option Node} (found : t.lookup here = node?)
    (other : node? ≠ some .directory) : here ≠ [] := by
  rintro rfl
  exact other (found.symm.trans (lookup_nil t))

/-- Nothing in the tree has the name: no place, and no link on the way that it points. -/
structure Unknown (t : Tree) (name : Name) : Prop where
  places : ∀ p, t.lookup p ≠ none → name ∉ p
  links : ∀ p target, t.lookup p = some (.link target) → name ∉ Path.parts target

/-- Whether a name is unknown can be read off the entries. -/
theorem unknown_of_entries (entries : ∀ e ∈ t.entries, name ∉ e.1)
    (links : ∀ e ∈ t.entries, ∀ target, e.2 = .link target → name ∉ Path.parts target) :
    t.Unknown name := by
  have listed : ∀ p node, p ≠ [] → t.lookup p = some node → (p, node) ∈ t.entries := by
    intro p node root found
    rw [lookup_of_ne_nil root, Option.map_eq_some_iff] at found
    obtain ⟨e, there, rfl⟩ := found
    obtain rfl : e.1 = p := by simpa using List.find?_some there
    exact List.mem_of_find?_eq_some there
  constructor
  case places =>
    intro p found
    by_cases root : p = []
    · rw [root]
      exact List.not_mem_nil
    · obtain ⟨node, there⟩ := Option.ne_none_iff_exists'.1 found
      exact entries _ (listed p node root there)
  case links =>
    intro p target found
    exact links _ (listed p _ (ne_nil_of_lookup found (by simp)) found) target rfl

/-! ### One turn of a way -/

/-- What a name comes to at a place: nothing, a place to go on from, or a link that stands there. -/
inductive Turn where
  | refused (e : FileError)
  | place (p : Location)
  | link (target : String)

/-- The turn that a way takes at a place. -/
def turn (t : Tree) (here : Location) (name : Name) : Turn :=
  match t.lookup here with
  | none => .refused .notFound
  | some .directory =>
    if name = .text "." then .place here
    else if name = .text ".." then .place here.tail
    else if name.isTooLong then .refused .invalidName
    else
      match t.lookup (name :: here) with
      | some (.link target) => .link target
      | _ => .place (name :: here)
  | some _ => .refused .notDirectory

variable {part : Name} {rest : List Name}

/-- A way takes one turn and goes on from there. -/
theorem walkWith_cons (follow : Location → List Name → Except FileError Location) :
    t.walkWith last follow here (part :: rest) =
      match t.turn here part with
      | .refused e => .error e
      | .place p => t.walkWith last follow p rest
      | .link target =>
        if rest ≠ [] ∨ last = true then
          follow (if Path.isAbsolute target then [] else here) (Path.parts target ++ rest)
        else .ok (part :: here) := by
  rw [walkWith, turn]
  cases t.lookup here with
  | none => rfl
  | some node =>
    cases node with
    | file _ | link _ | device _ => rfl
    | directory =>
      simp only
      by_cases dot : part = .text "."
      · rw [if_pos dot, if_pos dot]
      by_cases dots : part = .text ".."
      · rw [if_neg dot, if_neg dot, if_pos dots, if_pos dots]
      rw [if_neg dot, if_neg dot, if_neg dots, if_neg dots]
      cases part.isTooLong with
      | true => rfl
      | false =>
        simp only [Bool.false_eq_true, if_false]
        cases t.lookup (part :: here) with
        | none => rfl
        | some node => cases node <;> rfl

/-- A turn looks at a place and at what the name is there. -/
theorem turn_congr (same : t'.lookup here = t.lookup here)
    (entry : t'.lookup (part :: here) = t.lookup (part :: here)) :
    t'.turn here part = t.turn here part := by
  rw [turn, turn, same, entry]

theorem turn_eq_place {p : Location} (goes : t.turn here part = .place p) :
    t.lookup here = some .directory ∧ (p = here ∨ p = here.tail ∨ p = part :: here) := by
  unfold turn at goes
  repeat' split at goes
  all_goals cases goes
  all_goals refine ⟨‹_›, ?_⟩
  · exact Or.inl rfl
  · exact Or.inr (Or.inl rfl)
  · exact Or.inr (Or.inr rfl)

theorem turn_eq_link {target : String} (points : t.turn here part = .link target) :
    t.lookup here = some .directory ∧ t.lookup (part :: here) = some (.link target) := by
  unfold turn at points
  repeat' split at points
  all_goals cases points
  exact ⟨‹_›, ‹_›⟩

/-! ### Ways without a name -/

/-- The second way ends as the first, and not at a place that has the name. -/
def Alike (name : Name) (way way' : Except FileError Location) : Prop :=
  way' = way ∧ ∀ p, way = .ok p → name ∉ p

theorem Alike.error (e : FileError) : Alike name (.error e) (.error e) :=
  ⟨rfl, fun _ ends => by cases ends⟩

theorem Alike.ok (apart : name ∉ here) : Alike name (.ok here) (.ok here) := by
  refine ⟨rfl, fun p ends => ?_⟩
  cases ends
  exact apart

section Unknown

variable (agree : ∀ p, name ∉ p → t'.lookup p = t.lookup p) (unknown : t.Unknown name)
include agree unknown

theorem walkWith_unknown {follow follow' : Location → List Name → Except FileError Location}
    (ih : ∀ here ns, name ∉ here → name ∉ ns → Alike name (follow here ns) (follow' here ns)) :
    ∀ ns here, name ∉ here → name ∉ ns →
      Alike name (t.walkWith last follow here ns) (t'.walkWith last follow' here ns) := by
  intro ns
  induction ns with
  | nil =>
    intro here apart _
    rw [walkWith, walkWith]
    exact .ok apart
  | cons part rest ihn =>
    intro here apart fresh
    obtain ⟨ne, fresh⟩ := not_or.1 (List.mem_cons.not.1 fresh)
    have child : name ∉ part :: here := fun there => (List.mem_cons.1 there).elim ne apart
    rw [walkWith_cons, walkWith_cons, turn_congr (agree here apart) (agree _ child)]
    cases turns : t.turn here part with
    | refused e => exact .error e
    | place p =>
      refine ihn p ?_ fresh
      obtain ⟨-, rfl | rfl | rfl⟩ := turn_eq_place turns
      · exact apart
      · exact fun above => apart (List.mem_of_mem_tail above)
      · exact child
    | link target =>
      obtain ⟨-, there⟩ := turn_eq_link turns
      simp only
      by_cases goes : rest ≠ [] ∨ last = true
      · rw [if_pos goes, if_pos goes]
        refine ih _ _ ?_ fun part_of => ?_
        · split
          · exact List.not_mem_nil
          · exact apart
        · rcases List.mem_append.1 part_of with points | later
          · exact unknown.links _ target there points
          · exact fresh later
      · rw [if_neg goes, if_neg goes]
        exact .ok child

/-- **A way that does not have a name does not depend on the places that do.** -/
theorem walk_unknown : ∀ links here ns, name ∉ here → name ∉ ns →
    Alike name (t.walk last links here ns) (t'.walk last links here ns) := by
  intro links
  induction links with
  | zero =>
    exact fun here ns => walkWith_unknown agree unknown (fun _ _ _ _ => .error _) ns here
  | succ links ih => exact fun here ns => walkWith_unknown agree unknown ih ns here

end Unknown

/-! ### Ways to directories -/

/-- A way that ends at a directory sets out from one. -/
theorem directory_of_walkWith (directory : t.lookup dir = some .directory)
    {follow : Location → List Name → Except FileError Location}
    (way : t.walkWith last follow here ns = .ok dir) : t.lookup here = some .directory := by
  cases ns with
  | nil =>
    rw [walkWith] at way
    cases way
    exact directory
  | cons part rest =>
    rw [walkWith_cons] at way
    cases turns : t.turn here part with
    | refused e => simp [turns] at way
    | place p => exact (turn_eq_place turns).1
    | link target => exact (turn_eq_link turns).1

section Along

variable (stays : ∀ p node, t.lookup p = some node → (∀ number, node ≠ .file number) →
    (∀ device, node ≠ .device device) → t'.lookup p = some node)
include stays

theorem turn_along {p : Location} (goes : t.turn here part = .place p)
    (directory : t.lookup p = some .directory) : t'.turn here part = .place p := by
  obtain ⟨place, -⟩ := turn_eq_place goes
  rw [turn, place] at goes
  rw [turn, stays here _ place (by simp) (by simp)]
  simp only at goes ⊢
  by_cases dot : part = .text "."
  · rwa [if_pos dot] at goes ⊢
  by_cases dots : part = .text ".."
  · rwa [if_neg dot, if_pos dots] at goes ⊢
  by_cases long : part.isTooLong = true
  · rwa [if_neg dot, if_neg dots, if_pos long] at goes ⊢
  rw [if_neg dot, if_neg dots, if_neg long] at goes ⊢
  obtain rfl : part :: here = p := by
    split at goes
    · cases goes
    · cases goes
      rfl
  rw [stays _ _ directory (by simp) (by simp)]

variable (directory : t.lookup dir = some .directory)
include directory

/-- A way to a directory leads through directories and links alone. -/
theorem walkWith_along {follow follow' : Location → List Name → Except FileError Location}
    (ih : ∀ here ns, follow here ns = .ok dir → follow' here ns = .ok dir) :
    ∀ ns here, t.walkWith true follow here ns = .ok dir →
      t'.walkWith true follow' here ns = .ok dir := by
  intro ns
  induction ns with
  | nil => exact fun here way => by simpa [walkWith] using way
  | cons part rest ihn =>
    intro here way
    rw [walkWith_cons] at way ⊢
    cases turns : t.turn here part with
    | refused e => simp [turns] at way
    | place p =>
      simp only [turns] at way
      rw [turn_along stays turns (directory_of_walkWith directory way)]
      exact ihn p way
    | link target =>
      obtain ⟨place, there⟩ := turn_eq_link turns
      have turns' : t'.turn here part = .link target := by
        rw [← turns]
        apply turn_congr
        · rw [place, stays here _ place (by simp) (by simp)]
        · rw [there, stays _ _ there (by simp) (by simp)]
      simp only [turns, turns', or_true, if_true] at way ⊢
      exact ih _ _ way

/-- **A way to a directory stays as long as directories and links do.** -/
theorem walk_along :
    ∀ links here ns, t.walk true links here ns = .ok dir → t'.walk true links here ns = .ok dir := by
  intro links
  induction links with
  | zero =>
    exact fun here ns => walkWith_along stays directory (fun _ _ refused => by cases refused) ns here
  | succ links ih => exact fun here ns => walkWith_along stays directory ih ns here

end Along

/-! ### Paths of entries -/

/-- Where a name leads from a place: to an entry, if the place is a directory and can have one. -/
def enter (t : Tree) (place : Location) (name : Name) : Except FileError Location :=
  match t.lookup place with
  | none => .error .notFound
  | some .directory => if name.isTooLong then .error .invalidName else .ok (name :: place)
  | some _ => .error .notDirectory

section Entries

variable (dot : name ≠ .text ".") (dots : name ≠ .text "..")
include dot dots

/-- The last turn of a path leads to the entry. -/
theorem walkWith_last (follow : Location → List Name → Except FileError Location) :
    t.walkWith false follow here [name] = t.enter here name := by
  rw [walkWith, enter]
  cases t.lookup here with
  | none => rfl
  | some node =>
    cases node with
    | file _ | link _ | device _ => rfl
    | directory =>
      simp only [if_neg dot, if_neg dots]
      cases name.isTooLong with
      | true => rfl
      | false =>
        simp only [Bool.false_eq_true, if_false]
        cases t.lookup (name :: here) with
        | none => simp only [walkWith]
        | some node => cases node <;> simp [walkWith]

theorem walkWith_snoc {follow follow' : Location → List Name → Except FileError Location}
    (ih : ∀ here ns, follow' here (ns ++ [name]) = (follow here ns).bind fun dir => t.enter dir name) :
    ∀ ns here, t.walkWith false follow' here (ns ++ [name]) =
      (t.walkWith true follow here ns).bind fun dir => t.enter dir name := by
  intro ns
  induction ns with
  | nil =>
    intro here
    rw [List.nil_append, walkWith_last dot dots, walkWith]
    rfl
  | cons part rest ihn =>
    intro here
    rw [List.cons_append, walkWith_cons, walkWith_cons]
    cases t.turn here part with
    | refused e => rfl
    | place p => exact ihn p
    | link target =>
      simp only [or_true, if_true]
      rw [if_pos (Or.inl (by simp)), ← List.append_assoc]
      exact ih _ _

/-- **A path leads to its entry by way of the directory.** -/
theorem walk_snoc : ∀ links here ns, t.walk false links here (ns ++ [name]) =
    (t.walk true links here ns).bind fun dir => t.enter dir name := by
  intro links
  induction links with
  | zero => exact fun here ns => walkWith_snoc dot dots (fun _ _ => rfl) ns here
  | succ links ih => exact fun here ns => walkWith_snoc dot dots ih ns here

end Entries

end Tree

end DurableQueue.FileSystem
