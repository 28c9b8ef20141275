import DurableQueue.FileSystem.Path

/-!
# The file tree

What a disk holds at one moment: directories, files, symbolic links and the devices that a
link may point to, each at its `Location`, together with the contents of the files. A name
in a directory leads to a file through its number, so that a file that is open lives on when
its name is removed or given to another file.

`lookup` is the view of a tree through which everything else is said, and each operation has
one lemma for what it does to that view. `locate` follows a path part by part, through
symbolic links, to the place that it names; the last part need not exist.
-/

namespace DurableQueue.FileSystem

/-- Why a file operation failed. -/
inductive FileError where
  | notFound
  | isDirectory
  | notDirectory
  | alreadyExists
  | directoryNotEmpty
  | invalidName
  | invalidInput
  | invalidData
  | unexpectedEnd
  | storageFull
  | tooManyLinks
  | other
  deriving DecidableEq, Repr

/-- A place in the tree: the names that lead to it, the innermost first. -/
abbrev Location := List Name

/-- A device file. -/
inductive Device where
  /-- Swallows what is written and holds nothing. -/
  | null
  /-- Swallows what is written and reads as zeros without end. -/
  | zero
  /-- Has room for nothing and reads as zeros without end. -/
  | full
  deriving DecidableEq, Repr

/-- What stands at a location. -/
inductive Node where
  | directory
  | file (number : Nat)
  | link (target : String)
  | device (d : Device)
  deriving DecidableEq, Repr

/-- A file: its bytes, and how many of the first of them are known to be on the medium. -/
structure Inode where
  contents : Bytes := []
  durable : Nat := 0
  deriving DecidableEq, Repr

/-- All files and directories at one moment. The root is not listed. -/
structure Tree where
  entries : List (Location × Node) := []
  inodes : Array Inode := #[]
  deriving DecidableEq, Repr

namespace Tree

/-- What stands at a location. -/
def lookup (t : Tree) (place : Location) : Option Node :=
  if place = [] then some .directory
  else (t.entries.find? fun e => e.1 = place).map (·.2)

/-- The tree without what stands at a location. -/
def erase (t : Tree) (place : Location) : Tree :=
  { t with entries := t.entries.filter fun e => e.1 ≠ place }

/-- The tree with `node` at a location. -/
def put (t : Tree) (place : Location) (node : Node) : Tree :=
  { t with entries := (place, node) :: (t.erase place).entries }

/-- The tree with a new file at a location, and the number of the file. -/
def putFile (t : Tree) (place : Location) (file : Inode) : Nat × Tree :=
  (t.inodes.size, { t.put place (.file t.inodes.size) with inodes := t.inodes.push file })

/-- The file with a number; a number that no file has reads as an empty file. -/
def inode (t : Tree) (number : Nat) : Inode := t.inodes.getD number {}

/-- The tree in which the file with a number is changed by `f`. -/
def modify (t : Tree) (number : Nat) (f : Inode → Inode) : Tree :=
  { t with inodes := t.inodes.modify number f }

/-- Whether a location is a directory. -/
def isDirectory (t : Tree) (place : Location) : Bool := t.lookup place == some .directory

/-- The names in a directory. -/
def namesIn (t : Tree) (dir : Location) : List Name :=
  t.entries.filterMap fun e =>
    match e.1 with
    | name :: parent => if parent = dir then some name else none
    | [] => none

/-- Follows the parts of a path from a directory. `follow` is used for a symbolic link; a
link at the last part is followed only if `last` says so. -/
def walkWith (t : Tree) (last : Bool)
    (follow : Location → List Name → Except FileError Location) :
    Location → List Name → Except FileError Location
  | here, [] => .ok here
  | here, name :: rest =>
    match t.lookup here with
    | none => .error .notFound
    | some .directory =>
      if name = .text "." then walkWith t last follow here rest
      else if name = .text ".." then walkWith t last follow here.tail rest
      else if name.isTooLong then .error .invalidName
      else
        match t.lookup (name :: here) with
        | some (.link target) =>
          if rest ≠ [] ∨ last then
            follow (if Path.isAbsolute target then [] else here) (Path.parts target ++ rest)
          else .ok (name :: here)
        | _ => walkWith t last follow (name :: here) rest
    | some _ => .error .notDirectory

/-- Follows the parts of a path through at most `links` symbolic links. -/
def walk (t : Tree) (last : Bool) : Nat → Location → List Name → Except FileError Location
  | 0 => walkWith t last fun _ _ => .error .tooManyLinks
  | links + 1 => walkWith t last (walk t last links)

/-- How many symbolic links one path may lead through. -/
def maxLinks : Nat := 40

/-- The place that the parts of a path lead to, from the root. -/
def locate (t : Tree) (last : Bool) (parts : List Name) : Except FileError Location :=
  if parts = [] then .error .notFound
  else if parts.any fun n => n.bytes.contains 0 then .error .invalidInput
  else walk t last maxLinks [] parts

/-- What the parts of a path lead to, symbolic links followed. -/
def find? (t : Tree) (parts : List Name) : Except FileError Node := do
  let here ← t.locate true parts
  match t.lookup here with
  | some node => .ok node
  | none => .error .notFound

/-! ### The view of each operation -/

theorem lookup_of_ne_nil {t : Tree} {place : Location} (h : place ≠ []) :
    t.lookup place = (t.entries.find? fun e => e.1 = place).map (·.2) := if_neg h

theorem lookup_erase {t : Tree} {gone place : Location} (h : place ≠ []) :
    (t.erase gone).lookup place = if place = gone then none else t.lookup place := by
  rw [lookup_of_ne_nil h, lookup_of_ne_nil h, erase, List.find?_filter]
  by_cases hg : place = gone
  · subst hg
    simp
  · rw [if_neg hg]
    congr 2
    funext e
    by_cases he : e.1 = place
    · simp [he, hg]
    · simp [he]

theorem lookup_put {t : Tree} {new place : Location} {node : Node} (h : place ≠ []) :
    (t.put new node).lookup place = if place = new then some node else t.lookup place := by
  by_cases hn : place = new
  · subst hn
    simp [lookup_of_ne_nil h, put]
  · have : (t.erase new).lookup place = _ := lookup_erase h
    rw [if_neg hn] at this ⊢
    rw [← this, lookup_of_ne_nil h, lookup_of_ne_nil h, put, List.find?_cons_of_neg]
    simpa using Ne.symm hn

@[simp] theorem lookup_modify {t : Tree} {number : Nat} {f : Inode → Inode} {place : Location} :
    (t.modify number f).lookup place = t.lookup place := rfl

theorem lookup_putFile {t : Tree} {new place : Location} {file : Inode} (h : place ≠ []) :
    (t.putFile new file).2.lookup place =
      if place = new then some (.file t.inodes.size) else t.lookup place :=
  lookup_put h

@[simp] theorem inode_put {t : Tree} {new : Location} {node : Node} {number : Nat} :
    (t.put new node).inode number = t.inode number := rfl

@[simp] theorem inode_erase {t : Tree} {gone : Location} {number : Nat} :
    (t.erase gone).inode number = t.inode number := rfl

theorem inode_putFile {t : Tree} {new : Location} {file : Inode} {number : Nat} :
    (t.putFile new file).2.inode number =
      if number = t.inodes.size then file else t.inode number := by
  simp only [putFile, inode, Array.getD_eq_getD_getElem?, Array.getElem?_push]
  split <;> rfl

theorem inode_modify {t : Tree} {changed number : Nat} {f : Inode → Inode}
    (h : changed < t.inodes.size) :
    (t.modify changed f).inode number =
      if number = changed then f (t.inode number) else t.inode number := by
  simp only [modify, inode, Array.getD_eq_getD_getElem?, Array.getElem?_modify]
  by_cases hn : number = changed
  · subst hn
    simp [h]
  · simp [hn, Ne.symm hn]

end Tree

end DurableQueue.FileSystem
