import DurableQueue.FileSystem.Operations

/-!
# Changes from outside

What other programs may do to the files behind a queue's back: write, cut, copy, link and
remove. These act on the tree directly and are not calls of the queue. Paths are given by
their parts, so that names that are not text can be used as well.
-/

namespace DurableQueue.FileSystem.Tree

/-- The tree after an operation that succeeded. -/
def after : Except FileError Unit × Tree → Except FileError Tree
  | (.ok (), t) => .ok t
  | (.error e, _) => .error e

/-- Gives a file, new or not, the contents `bs`. -/
def writeFile (t : Tree) (parts : List Name) (bs : Bytes) : Except FileError Tree :=
  match t.openWrite parts with
  | (.error e, _) => .error e
  | (.ok (.file number), t) => .ok (t.modify number fun _ => { contents := bs })
  | (.ok node, t) => after (t.write node 0 bs)

/-- Adds bytes at the end of a file. -/
def appendFile (t : Tree) (parts : List Name) (bs : Bytes) : Except FileError Tree := do
  match ← t.find? parts with
  | .file number => return t.modify number fun f => { f with contents := f.contents ++ bs }
  | node => after (t.write node 0 bs)

/-- Writes bytes into a file in place. -/
def patchFile (t : Tree) (parts : List Name) (offset : Nat) (bs : Bytes) :
    Except FileError Tree := do
  after (t.write (← t.find? parts) offset bs)

/-- Cuts a file, or fills it with zeros, to a length. -/
def resizeFile (t : Tree) (parts : List Name) (length : Nat) : Except FileError Tree := do
  match ← t.find? parts with
  | .file number =>
    return t.modify number fun f =>
      { contents := f.contents.resize length, durable := min f.durable length }
  | .directory => throw .isDirectory
  | _ => throw .invalidInput

/-- Removes the name of anything but a directory. -/
def removeFile (t : Tree) (parts : List Name) : Except FileError Tree := after (t.remove parts)

/-- Creates a directory and all that are missing on the way to it. What was created before a
failure stays. `names` are the names of the path, the innermost first. -/
def makePath (t : Tree) : List Name → Except FileError Unit × Tree
  | [] => (.ok (), t)
  | name :: above =>
    let parts := (name :: above).reverse
    let settled (e : FileError) (t : Tree) : Except FileError Unit × Tree :=
      match t.find? parts with
      | .ok .directory => (.ok (), t)
      | _ => (.error e, t)
    match t.makeDirectory parts with
    | (.ok (), t) => (.ok (), t)
    | (.error .notFound, t) =>
      match makePath t above with
      | (.error e, t) => (.error e, t)
      | (.ok (), t) =>
        match t.makeDirectory parts with
        | (.ok (), t) => (.ok (), t)
        | (.error e, t) => settled e t
    | (.error e, t) => settled e t

/-- Removes a directory with all that lies below it, or the link that names one. -/
def removeTree (t : Tree) (parts : List Name) : Except FileError Tree := do
  let place ← t.locate false parts
  match t.lookup place with
  | none => .error .notFound
  | some .directory =>
    return { t with entries := t.entries.filter fun e => !isBelow place e.1 }
  | some (.link _) => return t.erase place
  | some _ => .error .notDirectory

/-- Renames a file or directory. -/
def renameFile (t : Tree) (source target : List Name) : Except FileError Tree :=
  after (t.rename source target)

/-- Gives a file, new or not, the contents of another. -/
def copyFile (t : Tree) (source target : List Name) : Except FileError Tree := do
  match ← t.find? source with
  | .file number => t.writeFile target (t.inode number).contents
  | _ => .error .invalidInput

/-- Creates a symbolic link. -/
def makeLink (t : Tree) (parts : List Name) (target : String) : Except FileError Tree := do
  let place ← t.locate false parts
  match t.lookup place with
  | none => return t.put place (.link target)
  | some _ => .error .alreadyExists

/-- What lies below a directory: for each entry its parts from there, and what it is. -/
def below (t : Tree) (dir : Location) : List (List Name × Node) :=
  t.entries.filterMap fun e =>
    if isBelow dir e.1 ∧ e.1 ≠ dir then
      some ((e.1.take (e.1.length - dir.length)).reverse, e.2)
    else none

end DurableQueue.FileSystem.Tree
