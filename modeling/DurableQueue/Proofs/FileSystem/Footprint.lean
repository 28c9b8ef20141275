import DurableQueue.FileSystem.Disk
import DurableQueue.Naming

/-!
# Footprints

Which calls a run makes, whatever the disk holds and whatever fails on it: `Disk.Makes K` holds of
the disks before and after a run all of whose calls satisfy `K`. `Disk.since` are the trees that such a
run goes through (`Makes.mem_since`). `Disk.chosen` picks out of the calls that were made those that
somebody asks about; a run with none of them leaves them as they are (`Makes.chosen_eq`). The kinds of
calls that a queue makes have names.
-/

namespace DurableQueue.FileSystem

namespace Call

/-- A call that reads a file. -/
def Looks : Call → Prop
  | openRead _ | seek _ _ | read _ _ _ => True
  | _ => False

/-- A call that opens the file under a path for writing. -/
def Opens (path : String) : Call → Prop
  | openWrite p | seek p _ => p = path
  | _ => False

/-- A call that removes a file. -/
def Removes : Call → Prop
  | remove _ => True
  | _ => False

/-- A call of a sync: one that brings a file to the medium, or one on the way of a new record to
the place of the last one. -/
def Stores (record : String) : Call → Prop
  | sync _ => True
  | createNew path | write path _ _ | remove path => ∃ tag, path = Naming.temporaryPath record tag
  | rename source target => (∃ tag, source = Naming.temporaryPath record tag) ∧ target = record
  | _ => False

end Call

namespace Disk

/-- The second disk is the first after calls of which `K` holds. -/
structure Makes (K : Access → Prop) (d d' : Disk) : Prop where
  recent : ∃ recent, d'.history = recent ++ d.history ∧ ∀ a ∈ recent, K a
  faults_eq : d'.faults = d.faults

/-- From `d` to `d'` files are read, and nothing changes. -/
structure Looks (d d' : Disk) : Prop
    extends Makes (fun a => a.call.Looks ∧ a.after = d.tree) d d' where
  tree_eq : d'.tree = d.tree

/-- The trees that were on a disk from `before` on. -/
def since (d before : Disk) : List Tree :=
  before.tree :: (d.history.take (d.history.length - before.history.length)).map (·.after)

/-- What `choose` says of the calls that were made, the earliest first. -/
def chosen {α : Type} (choose : Access → Option α) (d : Disk) : List α :=
  d.history.reverse.filterMap choose

variable {K K' : Access → Prop} {C : Call → Prop} {d d' d'' : Disk} {α : Type} {h : Handle}

namespace Makes

theorem refl (d : Disk) : d.Makes K d := ⟨⟨[], rfl, by simp⟩, rfl⟩

theorem trans (first : d.Makes K d') (second : d'.Makes K d'') : d.Makes K d'' := by
  obtain ⟨earlier, eq, early⟩ := first.recent
  obtain ⟨later, eq', late⟩ := second.recent
  refine ⟨⟨later ++ earlier, by rw [eq', eq, List.append_assoc], fun a ha => ?_⟩,
    second.faults_eq.trans first.faults_eq⟩
  rcases List.mem_append.1 ha with ha | ha
  · exact late a ha
  · exact early a ha

theorem mono (h : d.Makes K d') (weaker : ∀ a, K a → K' a) : d.Makes K' d' := by
  obtain ⟨recent, eq, all⟩ := h.recent
  exact ⟨⟨recent, eq, fun a ha => weaker a (all a ha)⟩, h.faults_eq⟩

/-- The calls of a run have all that was told of them. -/
theorem and (h : d.Makes K d') (h' : d.Makes K' d') : d.Makes (fun a => K a ∧ K' a) d' := by
  obtain ⟨recent, eq, all⟩ := h.recent
  obtain ⟨recent', eq', all'⟩ := h'.recent
  obtain rfl : recent' = recent := List.append_cancel_right (eq'.symm.trans eq)
  exact ⟨⟨recent', eq, fun a ha => ⟨all a ha, all' a ha⟩⟩, h.faults_eq⟩

/-- Each tree since then is the one that was there or that which a call left. -/
theorem mem_since {t : Tree} (makes : d.Makes K d') (moment : t ∈ d'.since d) :
    t = d.tree ∨ ∃ a, K a ∧ a.after = t := by
  obtain ⟨recent, eq, all⟩ := makes.recent
  rcases List.mem_cons.1 moment with same | later
  · exact Or.inl same
  · rw [eq, List.length_append, Nat.add_sub_cancel, List.take_left] at later
    obtain ⟨a, ha, left⟩ := List.mem_map.1 later
    exact Or.inr ⟨a, all a ha, left⟩

/-- Calls that nobody asks about are not chosen. -/
theorem chosen_eq {choose : Access → Option α} (makes : d.Makes K d')
    (passed : ∀ a, K a → choose a = none) : d'.chosen choose = d.chosen choose := by
  obtain ⟨recent, eq, all⟩ := makes.recent
  have none_of : recent.reverse.filterMap choose = [] :=
    List.filterMap_eq_nil_iff.2 fun a ha => passed a (all a (List.mem_reverse.1 ha))
  rw [chosen, chosen, eq, List.reverse_append, List.filterMap_append, none_of, List.append_nil]

end Makes

namespace Looks

theorem refl (d : Disk) : d.Looks d := { Makes.refl d with tree_eq := rfl }

theorem trans (first : d.Looks d') (second : d'.Looks d'') : d.Looks d'' :=
  { first.toMakes.trans (second.toMakes.mono fun _ looked => ⟨looked.1, looked.2.trans first.tree_eq⟩)
    with tree_eq := second.tree_eq.trans first.tree_eq }

theorem makes (h : d.Looks d') : d.Makes (fun a => a.call.Looks) d' := h.toMakes.mono fun _ => And.left

end Looks

/-! ### Single calls -/

theorem chosen_noted (choose : Access → Option α) {call : Call} {error : Option FileError}
    {tree : Tree} : (d.noted call error tree).chosen choose =
      d.chosen choose ++ (choose ⟨call, error, tree⟩).toList := by
  rw [chosen, chosen, noted, List.reverse_cons, List.filterMap_append, List.filterMap_cons]
  cases choose ⟨call, error, tree⟩ <;> rfl

theorem makes_noted {call : Call} {error : Option FileError} {tree : Tree}
    (of : K ⟨call, error, tree⟩) : d.Makes K (d.noted call error tree) where
  recent := ⟨[⟨call, error, tree⟩], rfl, by simpa using of⟩
  faults_eq := rfl

/-- A call is noted with its outcome. -/
theorem perform_noted (call : Call) (act : Tree → Except FileError α × Tree) :
    (d.perform call act).2 =
      d.noted call (errorOf (d.perform call act).1) (d.perform call act).2.tree := by
  unfold perform
  split
  · rfl
  · rfl

theorem makes_perform {call : Call} (of : ∀ error after, K ⟨call, error, after⟩)
    (act : Tree → Except FileError α × Tree) : d.Makes K (d.perform call act).2 := by
  unfold perform
  split
  · exact makes_noted (of _ _)
  · exact makes_noted (of _ _)

theorem looks_observe (call : Call) (of : call.Looks) (look : Tree → Except FileError α) :
    d.Looks (d.observe call look).2 := by
  unfold observe perform
  split
  · exact { makes_noted ⟨of, rfl⟩ with tree_eq := rfl }
  · exact { makes_noted ⟨of, rfl⟩ with tree_eq := rfl }

theorem looks_openRead (path : String) : d.Looks (d.openRead path).2 :=
  looks_observe (.openRead path) trivial _

theorem looks_seek (h : Handle) (offset : Nat) : d.Looks (d.seek h offset).2 := by
  unfold seek
  split
  · exact .refl d
  · exact looks_observe (.seek h.path offset) trivial _

theorem looks_read (h : Handle) (size : Nat) : d.Looks (d.read h size).2 :=
  looks_observe (.read h.path h.offset size) trivial _

/-- Reading a whole file changes nothing. -/
theorem looks_readFile (path : String) : d.Looks (d.readFile path).2 := by
  have opened := looks_openRead (d := d) path
  unfold readFile
  revert opened
  cases d.openRead path with
  | mk result d₁ =>
    intro opened
    cases result with
    | error e => exact opened
    | ok h =>
      simp only
      split
      · next eq => exact opened.trans (congrArg Prod.snd eq ▸ looks_read h _)
      · next eq => exact opened.trans (congrArg Prod.snd eq ▸ looks_read h _)

theorem makes_openWrite {path : String} (of : C (.openWrite path)) :
    d.Makes (fun a => C a.call) (d.openWrite path).2 := makes_perform (fun _ _ => of) _

theorem makes_createNew {path : String} (of : C (.createNew path)) :
    d.Makes (fun a => C a.call) (d.createNew path).2 := makes_perform (fun _ _ => of) _

theorem makes_seek {offset : Nat} (of : C (.seek h.path offset)) :
    d.Makes (fun a => C a.call) (d.seek h offset).2 := by
  unfold seek
  split
  · exact .refl d
  · exact makes_perform (fun _ _ => of) _

theorem makes_sync (of : C (.sync h.path)) : d.Makes (fun a => C a.call) (d.sync h).2 :=
  makes_perform (fun _ _ => of) _

theorem makes_rename {source target : String} (of : C (.rename source target)) :
    d.Makes (fun a => C a.call) (d.rename source target).2 := makes_perform (fun _ _ => of) _

theorem makes_remove {path : String} (of : C (.remove path)) :
    d.Makes (fun a => C a.call) (d.remove path).2 := makes_perform (fun _ _ => of) _

/-- A call that succeeds does what it is for. -/
theorem perform_ok {call : Call} {act : Tree → Except FileError α × Tree} {a : α}
    (ok : (d.perform call act).1 = .ok a) : (act d.tree).1 = .ok a := by
  unfold perform at ok
  split at ok
  · cases ok
  · exact ok

/-- A file that is opened by a path stands at its start. -/
theorem openWrite_ok {path : String} (ok : (d.openWrite path).1 = .ok h) :
    h.path = path ∧ h.offset = 0 := by
  have opened := perform_ok ok
  simp only at opened
  cases result : (d.tree.openWrite (Path.parts path)).1 with
  | error e =>
    rw [result] at opened
    cases opened
  | ok node =>
    rw [result] at opened
    cases opened
    exact ⟨rfl, rfl⟩

theorem createNew_ok {path : String} (ok : (d.createNew path).1 = .ok h) :
    h.path = path ∧ h.offset = 0 := by
  have opened := perform_ok ok
  simp only at opened
  cases result : (d.tree.createNew (Path.parts path)).1 with
  | error e =>
    rw [result] at opened
    cases opened
  | ok node =>
    rw [result] at opened
    cases opened
    exact ⟨rfl, rfl⟩

/-- A write is one call; one that succeeds moves the file on past what was written. -/
theorem write_outcome (d : Disk) (h : Handle) (new : Bytes) :
    (∃ e tree, d.write h new = (.error e, d.noted (.write h.path h.offset new) (some e) tree)) ∨
    ∃ tree, d.write h new = (.ok { h with offset := h.offset + new.length },
      d.noted (.write h.path h.offset new) none tree) := by
  unfold write
  simp only
  split
  · exact Or.inl ⟨_, _, rfl⟩
  · cases d.tree.write h.node h.offset new with
    | mk result tree =>
      cases result with
      | error e => exact Or.inl ⟨e, tree, rfl⟩
      | ok u => exact Or.inr ⟨tree, rfl⟩

theorem makes_removeEach {paths : List String} (of : ∀ path ∈ paths, C (.remove path)) :
    d.Makes (fun a => C a.call) (d.removeEach paths).2 := by
  induction paths generalizing d with
  | nil => exact .refl d
  | cons path paths ih =>
    have first : d.Makes (fun a => C a.call) (d.remove path).2 :=
      makes_remove (of path List.mem_cons_self)
    have rest := fun d => @ih d fun p hp => of p (List.mem_cons_of_mem _ hp)
    rw [removeEach]
    revert first
    cases d.remove path with
    | mk result d' =>
      intro first
      cases result with
      | error e => exact first.trans (rest d')
      | ok u => exact first.trans (rest d')

end Disk

end DurableQueue.FileSystem
