import DurableQueue.Proofs.FileSystem.Stock
import DurableQueue.Proofs.Naming.Apart

/-!
# Numbers that are spent

The number of a segment is spent once the segment was removed or set aside. The calls of a run use it no
more (`SpentForGood`) if none of them makes a segment of a spent number: no segment of that number comes
back, so there is none to be removed or set aside again. `Bygone` says this of all the calls that were
made up to a tree; a call that takes a segment away adds its number to those that are spent
(`Bygone.vacate`), and other calls add none (`Bygone.makes`).
-/

namespace DurableQueue

open FileSystem

namespace FileSystem

/-- A call that makes the file under a path or writes to it. -/
def Call.Fills (path : String) : Call → Prop
  | openWrite p | createNew p | write p _ _ | rename _ p => p = path
  | _ => False

/-- A call that takes the file from under a path: it removes it or gives it another name. -/
def Call.Vacates (path : String) : Call → Prop
  | remove p | rename p _ => p = path
  | _ => False

/-- A call that took the file from under a path. -/
def Access.Vacated (path : String) (a : Access) : Prop := a.error = none ∧ a.call.Vacates path

end FileSystem

/-- A segment of this number was removed or set aside. -/
def Spent (c : Config) (history : List Access) (k : Nat) : Prop :=
  ∃ a ∈ history, a.Vacated (c.path (.segment k))

/-- After a segment was removed or set aside no call makes a segment of its number, writes to one, or
removes one or sets it aside, and there is none. The latest call is the first. -/
def SpentForGood (c : Config) (dir : Location) (history : List Access) : Prop :=
  history.Pairwise fun later earlier => ∀ k, earlier.Vacated (c.path (.segment k)) →
    ¬later.call.Fills (c.path (.segment k)) ∧ ¬later.Vacated (c.path (.segment k)) ∧
      ¬(later.after.stock c dir).segments k

/-- None of the segments has one of these numbers. -/
def Stock.Lacks (spent : Nat → Prop) (σ : Stock) : Prop := ∀ k, spent k → ¬σ.segments k

theorem Stock.lacks_hereditary (spent : Nat → Prop) : Hereditary (Stock.Lacks spent) :=
  fun _ _ le lacks k gone there => lacks k gone (le.2 k there)

/-- The calls that led to a tree have used no number again that was spent, and no segment of such a
number is there. -/
structure Bygone (c : Config) (dir : Location) (t : Tree) (history : List Access) : Prop where
  forGood : SpentForGood c dir history
  left : ∀ a ∈ history, ∀ k, a.Vacated (c.path (.segment k)) → ¬(a.after.stock c dir).segments k
  lacks : (t.stock c dir).Lacks (Spent c history)

theorem Config.Named.segment_inj {c : Config} (named : c.Named) {j k : Nat} :
    c.path (.segment j) = c.path (.segment k) ↔ j = k := by
  rw [Config.path_eq_iff named.noSlash named.noSlash rfl]
  simp

variable {c : Config} {dir : Location} {t : Tree} {d d' : Disk} {history : List Access} {k : Nat}

theorem bygone_nil : Bygone c dir t [] := ⟨.nil, nofun, fun _ ⟨_, no, _⟩ => nomatch no⟩

theorem spent_cons {a : Access} :
    Spent c (a :: history) k ↔ a.Vacated (c.path (.segment k)) ∨ Spent c history k := by
  simp [Spent]

/-- After a call that took a segment away none makes one of its number. -/
theorem SpentForGood.unused {later removal : Access} {i j : Nat} (h : SpentForGood c dir history)
    (at_later : history[i]? = some later) (at_removal : history[j]? = some removal) (order : i < j)
    (gone : removal.Vacated (c.path (.segment k))) : ¬later.call.Fills (c.path (.segment k)) := by
  obtain ⟨hi, rfl⟩ := List.getElem?_eq_some_iff.1 at_later
  obtain ⟨hj, rfl⟩ := List.getElem?_eq_some_iff.1 at_removal
  exact (List.pairwise_iff_getElem.1 h i j hi hj order k gone).1

/-- What is bygone is so at every earlier moment. -/
theorem Bygone.moment {a : Access} {earlier : List Access} (h : Bygone c dir t history)
    (made : a :: earlier <:+ history) : Bygone c dir a.after (a :: earlier) := by
  have forGood : SpentForGood c dir (a :: earlier) := h.forGood.sublist made.sublist
  refine ⟨forGood, fun b hb => h.left b (made.subset hb), fun k spent => ?_⟩
  rcases spent_cons.1 spent with now | ⟨b, hb, before⟩
  · exact h.left a (made.subset List.mem_cons_self) k now
  · exact ((List.pairwise_cons.1 forGood).1 b hb k before).2.2

/-- Calls that leave the spent numbers alone and take no segment away. -/
theorem Bygone.makes (h : Bygone c dir d.tree d.history)
    (makes : d.Makes (fun a => (∀ k, ¬a.Vacated (c.path (.segment k))) ∧
      (∀ k, Spent c d.history k → ¬a.call.Fills (c.path (.segment k))) ∧
        (a.after.stock c dir).Lacks (Spent c d.history)) d')
    (lacks : (d'.tree.stock c dir).Lacks (Spent c d.history)) :
    Bygone c dir d'.tree d'.history ∧ ∀ k, Spent c d'.history k → Spent c d.history k := by
  obtain ⟨recent, eq, all⟩ := makes.recent
  have same : ∀ k, Spent c d'.history k → Spent c d.history k := by
    rintro k ⟨a, ha, vacated⟩
    rcases List.mem_append.1 (eq ▸ ha) with new | old
    · exact absurd vacated ((all a new).1 k)
    · exact ⟨a, old, vacated⟩
  refine ⟨⟨?_, fun a ha k vacated => ?_, fun k spent => lacks k (same k spent)⟩, same⟩
  · rw [SpentForGood, eq, List.pairwise_append]
    refine ⟨List.pairwise_of_forall_mem_list fun later _ earlier he k vacated =>
      absurd vacated ((all earlier he).1 k), h.forGood, fun later hl earlier he k vacated => ?_⟩
    obtain ⟨none, fills, lacks⟩ := all later hl
    have spent : Spent c d.history k := ⟨earlier, he, vacated⟩
    exact ⟨fills k spent, none k, lacks k spent⟩
  · rcases List.mem_append.1 (eq ▸ ha) with new | old
    · exact absurd vacated ((all a new).1 k)
    · exact h.left a old k vacated

/-- One call that may take a segment away, or fail. -/
theorem Bygone.vacate {call : Call} {result : Except FileError Unit}
    (h : Bygone c dir d.tree d.history) (noted : d' = d.noted call (Disk.errorOf result) d'.tree)
    (fills : ∀ j, ¬call.Fills (c.path (.segment j)))
    (vacates : ∀ j, call.Vacates (c.path (.segment j)) → j = k)
    (ends : (∃ e, result = .error e) ∧ d'.tree = d.tree ∨
      (d.tree.stock c dir).segments k ∧ d'.tree.stock c dir ≤ (d.tree.stock c dir).erase k) :
    Bygone c dir d'.tree d'.history ∧ ∀ j, Spent c d'.history j → Spent c d.history j ∨ j = k := by
  have history : d'.history = ⟨call, Disk.errorOf result, d'.tree⟩ :: d.history := by rw [noted]; rfl
  have new : ∀ j, Access.Vacated (c.path (.segment j)) ⟨call, Disk.errorOf result, d'.tree⟩ →
      j = k ∧ (d.tree.stock c dir).segments k ∧ ¬(d'.tree.stock c dir).segments k := by
    rintro j ⟨ok, vacated⟩
    rcases ends with ⟨⟨e, rfl⟩, -⟩ | ⟨there, less⟩
    · cases ok
    · exact ⟨vacates j vacated, there, fun still => (less.2 k still).2 rfl⟩
  have kept : (d'.tree.stock c dir).Lacks (Spent c d.history) := by
    rcases ends with ⟨-, same⟩ | ⟨-, less⟩
    · rw [same]
      exact h.lacks
    · exact Stock.lacks_hereditary _ (Stock.le_trans less (Stock.erase_le _ _)) h.lacks
  rw [history]
  refine ⟨⟨List.pairwise_cons.2 ⟨fun earlier he j vacated => ?_, h.forGood⟩, fun a ha j vacated => ?_,
    fun j spent => ?_⟩, fun j spent => ?_⟩
  · have spent : Spent c d.history j := ⟨earlier, he, vacated⟩
    refine ⟨fills j, fun again => ?_, kept j spent⟩
    obtain ⟨rfl, there, -⟩ := new j again
    exact h.lacks j spent there
  · rcases List.mem_cons.1 ha with rfl | old
    · obtain ⟨rfl, -, gone⟩ := new j vacated
      exact gone
    · exact h.left a old j vacated
  · rcases spent_cons.1 spent with now | before
    · obtain ⟨rfl, -, gone⟩ := new j now
      exact gone
    · exact kept j before
  · rcases spent_cons.1 spent with now | before
    · exact Or.inr (new j now).1
    · exact Or.inl before

section Segments

variable (h : Bygone c dir d.tree d.history) (homes : d.tree.Homes c dir) (named : c.Named)
include h homes named

/-- Removing a segment spends its number. -/
theorem Bygone.remove (k : Nat) :
    Bygone c dir (d.remove (c.path (.segment k))).2.tree (d.remove (c.path (.segment k))).2.history ∧
      ∀ j, Spent c (d.remove (c.path (.segment k))).2.history j → Spent c d.history j ∨ j = k := by
  have noted : (d.remove (c.path (.segment k))).2 = d.noted (.remove (c.path (.segment k)))
      (Disk.errorOf (d.remove (c.path (.segment k))).1) (d.remove (c.path (.segment k))).2.tree :=
    Disk.perform_noted _ _
  refine h.vacate noted (fun _ => id) (fun j same => ?_) ?_
  · exact (named.segment_inj.1 same).symm
  · obtain ⟨-, ⟨e, failed, tree, -⟩ | ⟨-, there, tree⟩⟩ := Disk.remove_ends (P := fun _ => True) homes
      named (.segment k) trivial trivial
    · exact Or.inl ⟨⟨e, failed⟩, tree⟩
    · refine Or.inr ⟨there, ?_⟩
      rw [tree, Tree.stock, Tree.shelf_erase]
      exact Stock.of_update_segment_none

/-- Setting a segment aside spends its number. -/
theorem Bygone.rename (k : Nat) :
    Bygone c dir (d.rename (c.path (.segment k)) (c.path (.quarantined k))).2.tree
        (d.rename (c.path (.segment k)) (c.path (.quarantined k))).2.history ∧
      ∀ j, Spent c (d.rename (c.path (.segment k)) (c.path (.quarantined k))).2.history j →
        Spent c d.history j ∨ j = k := by
  have noted : (d.rename (c.path (.segment k)) (c.path (.quarantined k))).2 =
      d.noted (.rename (c.path (.segment k)) (c.path (.quarantined k)))
        (Disk.errorOf (d.rename (c.path (.segment k)) (c.path (.quarantined k))).1)
        (d.rename (c.path (.segment k)) (c.path (.quarantined k))).2.tree := Disk.perform_noted _ _
  refine h.vacate noted (fun j same => ?_) (fun j same => ?_) ?_
  · cases ((Config.path_eq_iff named.noSlash named.noSlash rfl).1 same).2
  · exact (named.segment_inj.1 same).symm
  · obtain ⟨-, ⟨e, failed, tree, -⟩ | ⟨-, number, inode, found, tree⟩⟩ :=
      Disk.rename_ends (P := fun _ => True) (f := .segment k) (g := .quarantined k) homes named
        (by simp) id trivial fun _ _ _ => trivial
    · exact Or.inl ⟨⟨e, failed⟩, tree⟩
    · refine Or.inr ⟨?_, ?_⟩
      · have there : d.tree.shelf c dir (.segment k) ≠ none := by
          rw [found]
          nofun
        exact there
      · rw [tree, Tree.stock, Tree.shelf_move found, Stock.of_update_quarantined]
        exact Stock.of_update_segment_none

theorem Bygone.removeEach (ks : List Nat) :
    Bygone c dir (d.removeEach (ks.map fun k => c.path (.segment k))).2.tree
        (d.removeEach (ks.map fun k => c.path (.segment k))).2.history ∧
      ∀ j, Spent c (d.removeEach (ks.map fun k => c.path (.segment k))).2.history j →
        Spent c d.history j ∨ j ∈ ks := by
  induction ks generalizing d with
  | nil => exact ⟨h, fun _ => Or.inl⟩
  | cons k ks ih =>
    obtain ⟨first, spent⟩ := h.remove homes named k
    have homes' := (Disk.remove_through (P := fun _ => True) (k := k) homes named (fun _ _ _ => id)
      trivial).1.homes
    rw [List.map_cons, Disk.removeEach]
    revert first spent homes'
    cases d.remove (c.path (.segment k)) with
    | mk result d' =>
      intro first spent homes'
      obtain ⟨rest, spent'⟩ := ih first homes'
      have all : ∀ j, Spent c (d'.removeEach (ks.map fun k => c.path (.segment k))).2.history j →
          Spent c d.history j ∨ j ∈ k :: ks := by
        intro j gone
        rcases spent' j gone with before | later
        · exact (spent j before).imp_right (List.mem_cons.2 ∘ Or.inl)
        · exact Or.inr (List.mem_cons_of_mem _ later)
      cases result with
      | error e => exact ⟨rest, all⟩
      | ok u => exact ⟨rest, all⟩

end Segments

end DurableQueue
