import DurableQueue.Proofs.FileSystem.Calls
import DurableQueue.Proofs.FileSystem.Homes

/-!
# Opening the data directory

A queue creates its data directory before anything else. Where the directory is there already
this changes nothing: the path is written anew from its names, but has the same names
(`names_intercalate`), and the call that finds something there is forgiven when it is a directory
(`makeDirectories_there`).
-/

namespace DurableQueue.FileSystem

namespace Path

theorem noSlash_of_mem_splitOn {cs piece : List Char} (h : piece ∈ cs.splitOn '/') : '/' ∉ piece := by
  induction n : cs.length using Nat.strongRecOn generalizing cs with
  | ind n ih =>
    by_cases slash : '/' ∈ cs
    · obtain ⟨front, back, rfl, clean⟩ := List.eq_append_cons_of_mem slash
      rw [List.splitOn_append_cons_self_of_not_mem clean] at h
      rcases List.mem_cons.1 h with rfl | later
      · exact clean
      · refine ih back.length ?_ later rfl
        simp only [← n, List.length_append, List.length_cons]
        omega
    · rw [List.splitOn_eq_singleton slash] at h
      obtain rfl := List.mem_singleton.1 h
      exact slash

/-- The names of a path are texts that are not empty and hold no slash. -/
theorem text_of_mem_names {path : String} {name : Name} (h : name ∈ names path) :
    ∃ s, name = .text s ∧ s.toList ≠ [] ∧ '/' ∉ s.toList := by
  simp only [names, List.mem_map, List.mem_filter, ne_eq, decide_eq_true_eq] at h
  obtain ⟨cs, ⟨piece, nonempty⟩, rfl⟩ := h
  refine ⟨_, rfl, ?_, ?_⟩
  · rwa [String.toList_ofList]
  · rw [String.toList_ofList]
    exact noSlash_of_mem_splitOn piece

/-- A path written from names has these names, and does not end in a slash. -/
theorem names_intercalate {ns : List Name} (some : ns ≠ [])
    (texts : ∀ name ∈ ns, ∃ s, name = .text s ∧ s.toList ≠ [] ∧ '/' ∉ s.toList) (root : String) :
    names ("/".intercalate (ns.map Name.shown)) = ns ∧
      endsOpen (root ++ "/".intercalate (ns.map Name.shown)) = false := by
  induction ns generalizing root with
  | nil => exact absurd rfl some
  | cons name rest ih =>
    obtain ⟨s, rfl, nonempty, noSlash⟩ := texts name List.mem_cons_self
    have one := names_of_noSlash nonempty noSlash
    cases rest with
    | nil =>
      refine ⟨by simpa [Name.shown] using one, ?_⟩
      simpa [Name.shown] using not_endsOpen_append root nonempty noSlash
    | cons next rest =>
      have more : (next :: rest).map Name.shown ≠ [] := by simp
      have step (root : String) := ih (by simp) (fun n hn => texts n (List.mem_cons_of_mem _ hn)) root
      rw [List.map_cons, String.intercalate_cons_of_ne_nil more]
      refine ⟨?_, ?_⟩
      · rw [names_append_slash, (step root).1]
        simp [Name.shown, one]
      · have shut := (step (root ++ (s ++ "/"))).2
        rwa [String.append_assoc] at shut

theorem names_of_root {path : String} : names ("/" ++ path) = names path := by
  have cut := names_append_slash "" path
  have none : names "" = [] := by simp [names]
  rw [none, List.nil_append, String.empty_append] at cut
  exact cut

end Path

namespace Tree

variable {t : Tree} {dir : Location}

/-- Where a way leads to something, the way that does not follow a last link leads to something
too. -/
theorem walkWith_unfollowed {follow follow' : Location → List Name → Except FileError Location}
    (there : t.lookup dir ≠ none)
    (ih : ∀ here ns, follow here ns = .ok dir →
      ∃ place, follow' here ns = .ok place ∧ t.lookup place ≠ none) :
    ∀ ns here, t.walkWith true follow here ns = .ok dir →
      ∃ place, t.walkWith false follow' here ns = .ok place ∧ t.lookup place ≠ none := by
  intro ns
  induction ns with
  | nil =>
    intro here way
    obtain rfl : here = dir := by simpa [walkWith] using way
    exact ⟨here, rfl, there⟩
  | cons name rest ihn =>
    intro here way
    rw [walkWith] at way ⊢
    cases hl : t.lookup here with
    | none => simp [hl] at way
    | some node =>
      cases node with
      | file _ | link _ | device _ => simp [hl] at way
      | directory =>
        simp only [hl] at way ⊢
        by_cases dot : name = .text "."
        · simp only [dot, if_true] at way ⊢
          exact ihn _ way
        by_cases dots : name = .text ".."
        · simp only [dots, if_true] at way ⊢
          exact ihn _ way
        cases long : name.isTooLong with
        | true => simp [dot, dots, long] at way
        | false =>
          simp only [dot, dots, long, Bool.false_eq_true, if_false] at way ⊢
          cases hc : t.lookup (name :: here) with
          | none =>
            simp only [hc] at way ⊢
            exact ihn _ way
          | some node =>
            cases node with
            | directory | file _ | device _ =>
              simp only [hc] at way ⊢
              exact ihn _ way
            | link target =>
              simp only [hc, or_true, if_true] at way ⊢
              by_cases last : rest = []
              · rw [if_neg (by simp [last])]
                exact ⟨_, rfl, by simp [hc]⟩
              · rw [if_pos (Or.inl last)]
                exact ih _ _ way

theorem walk_unfollowed (there : t.lookup dir ≠ none) :
    ∀ links here ns, t.walk true links here ns = .ok dir →
      ∃ place, t.walk false links here ns = .ok place ∧ t.lookup place ≠ none := by
  intro links
  induction links with
  | zero =>
    intro here ns
    exact walkWith_unfollowed there (fun _ _ refused => by cases refused) ns here
  | succ links ih => exact fun here ns => walkWith_unfollowed there ih ns here

variable {c : Config}

theorem Homes.noNul_any (h : t.Homes c dir) :
    ((Path.names c.dataPath).any fun n => n.bytes.contains 0) = false := by
  rw [List.any_eq_false]
  intro n hn
  simpa using h.noNul n hn

/-- A directory that is there cannot be created. -/
theorem Homes.makeDirectory (h : t.Homes c dir) (some : Path.names c.dataPath ≠ []) :
    t.makeDirectory (Path.names c.dataPath) = (.error .alreadyExists, t) := by
  have there : t.lookup dir ≠ none := by simp [h.directory]
  obtain ⟨place, leads, found⟩ := walk_unfollowed there maxLinks [] _ h.leads
  have located : t.locate false (Path.names c.dataPath) = .ok place := by
    rw [Tree.locate, if_neg some, h.noNul_any, if_neg Bool.false_ne_true]
    exact leads
  rw [Tree.makeDirectory, located]
  cases hp : t.lookup place with
  | none => exact absurd hp found
  | some node => simp only [hp]

end Tree

namespace Disk

variable {c : Config} {dir : Location} {d : Disk}

/-- Creating the data directory where it is there already is at most one call that fails. -/
theorem makeDirectories_there (homes : d.tree.Homes c dir)
    (faultless : ∀ n call, d.faults n call = none) :
    d.makeDirectories c.dataPath = (.ok (), d) ∨ ∃ path, d.makeDirectories c.dataPath =
      (.ok (), d.noted (.makeDirectory path) (some .alreadyExists) d.tree) := by
  unfold Disk.makeDirectories
  obtain ⟨root, root_eq⟩ : ∃ root, root = if Path.isAbsolute c.dataPath then "/" else "" := ⟨_, rfl⟩
  rw [← root_eq]
  by_cases empty : Path.names c.dataPath = []
  · rw [empty]
    exact Or.inl rfl
  obtain ⟨written, shut⟩ := Path.names_intercalate empty (fun _ => Path.text_of_mem_names) root
  obtain ⟨path, path_eq⟩ : ∃ path,
    path = root ++ "/".intercalate ((Path.names c.dataPath).map Name.shown) := ⟨_, rfl⟩
  rw [← path_eq] at shut
  have names : Path.names path = Path.names c.dataPath := by
    rw [path_eq, root_eq]
    split
    · rw [Path.names_of_root, written]
    · rw [String.empty_append, written]
  obtain ⟨name, above, split⟩ := List.exists_cons_of_ne_nil (List.reverse_ne_nil_iff.2 empty)
  have back : (name :: above).reverse = Path.names c.dataPath := by
    rw [← split, List.reverse_reverse]
  have refused : d.makeDirectory path =
      (.error .alreadyExists, d.noted (.makeDirectory path) (some .alreadyExists) d.tree) := by
    rw [Disk.makeDirectory, perform, faultless]
    simp only [names, homes.makeDirectory empty]
    rfl
  have isDirectory : (d.noted (.makeDirectory path) (some .alreadyExists) d.tree).isDirectory path =
      true := by
    have located : d.tree.locate true (Path.parts path) = .ok dir := by
      rw [Path.parts, shut, if_neg Bool.false_ne_true, List.append_nil, names, Tree.locate,
        if_neg empty, homes.noNul_any, if_neg Bool.false_ne_true]
      exact homes.leads
    have found : d.tree.find? (Path.parts path) = .ok .directory := by
      rw [Tree.find?, located]
      simp only [bind, Except.bind, homes.directory]
    have same : (d.noted (.makeDirectory path) (some .alreadyExists) d.tree).tree = d.tree := rfl
    simp only [Disk.isDirectory, same, found]
  refine Or.inr ⟨path, ?_⟩
  rw [split]
  simp only [makeAll, back, ← path_eq, refused, isDirectory, if_true]

theorem Serves.makeDirectories {P : View → Prop} {s : Shelf} (h : d.Serves c dir s)
    (shown : P (.of s)) :
    ∃ d', d.makeDirectories c.dataPath = (.ok (), d') ∧ Reaches c dir P d d' s := by
  rcases makeDirectories_there h.hosts.homes h.faultless with made | ⟨path, made⟩
  · exact ⟨d, made, h.refl⟩
  · exact ⟨_, made, h.noted h.hosts h.shelf_eq shown (.makeDirectory path) (some .alreadyExists)⟩

end Disk

end DurableQueue.FileSystem
