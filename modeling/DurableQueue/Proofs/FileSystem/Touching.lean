import DurableQueue.Proofs.FileSystem.Directories
import DurableQueue.Proofs.FileSystem.Footprint
import DurableQueue.Proofs.FileSystem.Opening
import DurableQueue.Record.Store

/-!
# The paths that calls name

Which files a run touches is told by the paths that its calls name (`Call.paths`), whatever stands
there and whatever fails. A call on an open file names the path that the file was opened by, so
reading a file names one path from the opening to the last byte (`makes_readFile`). Creating a
directory names that directory and those on the way to it (`makes_makeDirectories`).
-/

namespace DurableQueue.FileSystem

namespace Call

/-- The paths that a call names. -/
def paths : Call → List String
  | openRead path | openWrite path | createNew path | seek path _ | read path _ _ | write path _ _
  | sync path | remove path | makeDirectory path | list path => [path]
  | rename source target => [source, target]

/-- A call that names nothing but paths of which `P` holds. -/
def Within (P : String → Prop) (call : Call) : Prop := ∀ path ∈ call.paths, P path

/-- A call that creates a directory or one on the way to it. -/
def Prepares (dir : String) (call : Call) : Prop :=
  ∃ path, call = makeDirectory path ∧ Path.names path <+: Path.names dir

end Call

namespace Disk

variable {C : Call → Prop} {d : Disk} {h : Handle} {path : String}

theorem makes_openRead (of : C (.openRead path)) :
    d.Makes (fun a => C a.call) (d.openRead path).2 := makes_perform (fun _ _ => of) _

theorem makes_read {size : Nat} (of : C (.read h.path h.offset size)) :
    d.Makes (fun a => C a.call) (d.read h size).2 := makes_perform (fun _ _ => of) _

theorem openRead_ok (ok : (d.openRead path).1 = .ok h) : h.path = path := by
  have opened := perform_ok ok
  cases found : d.tree.openRead (Path.parts path) with
  | error e =>
    simp only [found] at opened
    cases opened
  | ok node =>
    simp only [found] at opened
    cases opened
    rfl

theorem seek_path {h' : Handle} {offset : Nat} (ok : (d.seek h offset).1 = .ok h') :
    h'.path = h.path := by
  unfold seek at ok
  split at ok
  · cases ok
    rfl
  · have sought := perform_ok ok
    simp only at sought
    split at sought
    · cases sought
      rfl
    · cases sought

theorem read_path {h' : Handle} {size : Nat} {bs : Bytes} (ok : (d.read h size).1 = .ok (bs, h')) :
    h'.path = h.path := by
  have fetched := perform_ok ok
  cases found : d.tree.read h.node h.offset size with
  | error e =>
    simp only [found] at fetched
    cases fetched
  | ok bs =>
    simp only [found] at fetched
    cases fetched
    rfl

/-- Reading a whole file names its path alone. -/
theorem makes_readFile (open_ : C (.openRead path)) (read : ∀ offset size, C (.read path offset size)) :
    d.Makes (fun a => C a.call) (d.readFile path).2 := by
  have opened := makes_openRead (d := d) open_
  have named := fun h => @openRead_ok d h path
  unfold readFile
  revert opened named
  cases d.openRead path with
  | mk result d₁ =>
    intro opened named
    cases result with
    | error e => exact opened
    | ok h =>
      obtain rfl := named h rfl
      simp only
      split
      · next eq => exact opened.trans (congrArg Prod.snd eq ▸ makes_read (read _ _))
      · next eq => exact opened.trans (congrArg Prod.snd eq ▸ makes_read (read _ _))

theorem makes_makeDirectory (of : C (.makeDirectory path)) :
    d.Makes (fun a => C a.call) (d.makeDirectory path).2 := makes_perform (fun _ _ => of) _

/-- What is so of each creation of a directory on the way of a path is so of creating the path. -/
theorem makeDirectories_closed {R : Disk → Disk → Prop} (refl : ∀ d, R d d)
    (trans : ∀ {d₁ d₂ d₃}, R d₁ d₂ → R d₂ d₃ → R d₁ d₃) {path : String}
    (made : ∀ d front, Path.names front <+: Path.names path → R d (d.makeDirectory front).2) :
    R d (d.makeDirectories path).2 := by
  refine makeAll_closed refl trans fun d above more within => made d _ ?_
  have front : above.reverse <+: Path.names path := by
    simpa using List.reverse_prefix.2 within
  have texts := fun name (there : name ∈ above.reverse) => Path.text_of_mem_names (front.subset there)
  have written := (Path.names_intercalate (by simpa using more) texts "").1
  split
  · rw [Path.names_of_root, written]
    exact front
  · rw [String.empty_append, written]
    exact front

/-- Creating the directories of a path names that path and those on the way to it. -/
theorem makes_makeDirectories (d : Disk) (path : String) :
    d.Makes (fun a => a.call.Prepares path) (d.makeDirectories path).2 :=
  makeDirectories_closed (R := fun d d' => d.Makes _ d') (fun d => .refl d)
    (fun first second => first.trans second) fun _ _ within => makes_makeDirectory ⟨_, rfl, within⟩

end Disk

end DurableQueue.FileSystem
