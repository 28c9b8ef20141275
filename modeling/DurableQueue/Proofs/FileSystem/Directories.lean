import DurableQueue.Proofs.FileSystem.Calls

/-!
# Creating directories

A directory is created only where nothing stands, so what was in the tree stays as it was
(`Tree.Grown`), and a way that led to something still leads there (`walk_grown`): no way goes on
from a place where nothing is. A queue's directory is therefore left alone by whoever creates
other directories, unless one of them is created in it (`Serves.makeDirectories_apart`).
-/

namespace DurableQueue.FileSystem

namespace Tree

variable {t t' t'' : Tree} {dir : Location}

/-- What was in the tree is as it was; there may be more. -/
structure Grown (t t' : Tree) : Prop where
  stays : ∀ place, t.lookup place ≠ none → t'.lookup place = t.lookup place
  inodes_eq : t'.inodes = t.inodes

theorem Grown.refl (t : Tree) : t.Grown t := ⟨fun _ _ => rfl, rfl⟩

theorem Grown.trans (first : t.Grown t') (second : t'.Grown t'') : t.Grown t'' where
  stays place there := by
    have kept := first.stays place there
    exact (second.stays place (by rwa [kept])).trans kept
  inodes_eq := second.inodes_eq.trans first.inodes_eq

theorem grown_makeDirectory (t : Tree) (parts : List Name) : t.Grown (t.makeDirectory parts).2 := by
  rw [makeDirectory]
  split
  · exact .refl t
  · next place _ =>
    split
    · next vacant =>
      refine ⟨fun other there => ?_, rfl⟩
      have apart : other ≠ place := fun e => there (e ▸ vacant)
      by_cases root : other = []
      · rw [root, lookup_nil, lookup_nil]
      · exact (lookup_put root).trans (if_neg apart)
    · exact .refl t

/-- No way goes on from a place where nothing stands. -/
theorem walkWith_missing {last : Bool} {follow : Location → List Name → Except FileError Location}
    {here : Location} {ns : List Name} (missing : t.lookup here = none)
    (way : t.walkWith last follow here ns = .ok dir) : here = dir := by
  cases ns with
  | nil => simpa [walkWith] using way
  | cons name rest => simp [walkWith, missing] at way

theorem walkWith_grown (grown : t.Grown t') (there : t.lookup dir ≠ none)
    {follow follow' : Location → List Name → Except FileError Location}
    (ih : ∀ here ns, follow here ns = .ok dir → follow' here ns = .ok dir) :
    ∀ ns here, t.walkWith true follow here ns = .ok dir →
      t'.walkWith true follow' here ns = .ok dir := by
  intro ns
  induction ns with
  | nil => exact fun here way => by simpa [walkWith] using way
  | cons name rest ihn =>
    intro here way
    rw [walkWith] at way ⊢
    cases hl : t.lookup here with
    | none => simp [hl] at way
    | some node =>
      rw [grown.stays here (by simp [hl]), hl]
      cases node with
      | file _ | link _ | device _ => simp [hl] at way
      | directory =>
        simp only [hl] at way ⊢
        by_cases dot : name = .text "."
        · simp only [dot, if_true] at way ⊢
          exact ihn _ way
        by_cases dots : name = .text ".."
        · simp only [dots, if_true] at way ⊢
          exact ihn _ way
        cases long : name.isTooLong with
        | true => simp [dot, dots, long] at way
        | false =>
          simp only [dot, dots, long, Bool.false_eq_true, if_false] at way ⊢
          cases hc : t.lookup (name :: here) with
          | none =>
            simp only [hc] at way
            exact absurd (walkWith_missing hc way ▸ hc) there
          | some node =>
            rw [grown.stays (name :: here) (by simp [hc]), hc]
            cases node with
            | directory | file _ | device _ =>
              simp only [hc] at way ⊢
              exact ihn _ way
            | link target =>
              simp only [hc, or_true, if_true] at way ⊢
              exact ih _ _ way

theorem walk_grown (grown : t.Grown t') (there : t.lookup dir ≠ none) :
    ∀ links here ns, t.walk true links here ns = .ok dir → t'.walk true links here ns = .ok dir := by
  intro links
  induction links with
  | zero => exact fun here ns => walkWith_grown grown there (fun _ _ refused => by cases refused) ns here
  | succ links ih => exact fun here ns => walkWith_grown grown there ih ns here

/-- A directory of files stays one as long as nothing is added to it. -/
theorem Hosts.grown {path : String} (h : t.Hosts path dir) (grown : t.Grown t')
    (same : ∀ name, t'.lookup (name :: dir) = t.lookup (name :: dir)) : t'.Hosts path dir where
  directory := by rw [grown.stays dir (by simp [h.directory]), h.directory]
  plain name := by
    rw [same, grown.inodes_eq]
    exact h.plain name
  alone {a b number} first second := by
    rw [same] at first second
    exact h.alone first second
  leads := walk_grown grown (by simp [h.directory]) _ _ _ h.leads
  noNul := h.noNul

theorem Grown.shelf_eq {c : Config} (grown : t.Grown t')
    (same : ∀ name, t'.lookup (name :: dir) = t.lookup (name :: dir)) :
    t'.shelf c dir = t.shelf c dir := by
  funext f
  simp only [shelf, place, same, inode, grown.inodes_eq]

end Tree

namespace Disk

variable {d : Disk}

/-- What each creation of a directory does, the creation of a directory with all above it does. -/
theorem makeAll_closed {R : Disk → Disk → Prop} (refl : ∀ d, R d d)
    (trans : ∀ {d₁ d₂ d₃}, R d₁ d₂ → R d₂ d₃ → R d₁ d₃) {root : String} {ns : List Name}
    (made : ∀ d above, above ≠ [] → above <:+ ns →
      R d (d.makeDirectory (root ++ "/".intercalate (above.reverse.map Name.shown))).2) :
    R d (d.makeAll root ns).2 := by
  induction ns generalizing d with
  | nil => exact refl d
  | cons name above ih =>
    have higher := fun d => @ih d fun d up more within =>
      made d up more (within.trans (List.suffix_cons _ _))
    have here := fun d => made d _ (List.cons_ne_nil name above) (List.suffix_refl _)
    rw [makeAll]
    revert here
    generalize root ++ "/".intercalate ((name :: above).reverse.map Name.shown) = path
    intro here
    -- a directory that is there already is looked at, which is no call
    have settled : ∀ (e : FileError) (d : Disk),
        (if d.isDirectory path then (Except.ok (), d) else (.error e, d)).2 = d := by
      intro e d
      split <;> rfl
    have created := here d
    revert created
    cases d.makeDirectory path with
    | mk result d₁ =>
      intro created
      cases result with
      | ok u => exact created
      | error e =>
        by_cases missing : e = .notFound
        · subst missing
          refine trans created ?_
          have made := higher d₁
          simp only
          revert made
          cases d₁.makeAll root above with
          | mk result d₂ =>
            intro made
            cases result with
            | error e => exact made
            | ok u =>
              have again := here d₂
              refine trans made ?_
              simp only
              revert again
              cases d₂.makeDirectory path with
              | mk result d₃ =>
                intro again
                cases result with
                | ok u => exact again
                | error e =>
                  simp only [settled]
                  exact again
        · cases e with
          | notFound => exact absurd rfl missing
          | _ =>
            simp only [settled]
            exact created

theorem grown_makeDirectories (d : Disk) (path : String) :
    d.tree.Grown (d.makeDirectories path).2.tree ∧ (d.makeDirectories path).2.faults = d.faults := by
  unfold makeDirectories
  refine makeAll_closed (R := fun d d' => d.tree.Grown d'.tree ∧ d'.faults = d.faults)
    (fun d => ⟨.refl _, rfl⟩) (fun first second => ⟨first.1.trans second.1, second.2.trans first.2⟩)
    fun d above _ _ => ?_
  unfold makeDirectory perform
  split
  · exact ⟨.refl _, rfl⟩
  · exact ⟨Tree.grown_makeDirectory _ _, rfl⟩

/-- Directories that are created elsewhere leave those of a queue alone. -/
theorem Serves.makeDirectories_apart {c : Config} {dir : Location} {s : Shelf} {path : String}
    (serves : d.Serves c dir s)
    (apart : ∀ name, (d.makeDirectories path).2.tree.lookup (name :: dir) =
      d.tree.lookup (name :: dir)) : (d.makeDirectories path).2.Serves c dir s := by
  obtain ⟨grown, faults⟩ := grown_makeDirectories d path
  exact ⟨by rw [faults]; exact serves.faultless, serves.hosts.grown grown apart,
    (grown.shelf_eq apart).trans serves.shelf_eq⟩

end Disk

end DurableQueue.FileSystem
