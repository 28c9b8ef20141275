import DurableQueue.FileSystem.Tree

/-!
# Operations on the file tree

What each system call does to the tree, given the parts of its path. Opening follows a
symbolic link at the last part and may create the file it dangles to; creating anew,
removing and renaming act on the link itself. An operation that fails leaves the tree as it
was.
-/

namespace DurableQueue.FileSystem.Tree

/-- What opening a path for reading finds. -/
def openRead (t : Tree) (parts : List Name) : Except FileError Node := t.find? parts

/-- What opening a path for writing finds, creating an empty file if nothing is there. -/
def openWrite (t : Tree) (parts : List Name) : Except FileError Node × Tree :=
  match t.locate true parts with
  | .error e => (.error e, t)
  | .ok place =>
    match t.lookup place with
    | none =>
      let (number, t) := t.putFile place {}
      (.ok (.file number), t)
    | some .directory => (.error .isDirectory, t)
    | some node => (.ok node, t)

/-- Creates a file where nothing is. -/
def createNew (t : Tree) (parts : List Name) : Except FileError Node × Tree :=
  match t.locate false parts with
  | .error e => (.error e, t)
  | .ok place =>
    match t.lookup place with
    | none =>
      let (number, t) := t.putFile place {}
      (.ok (.file number), t)
    | some _ => (.error .alreadyExists, t)

/-- Up to `size` bytes from `offset` on. -/
def read (t : Tree) (node : Node) (offset size : Nat) : Except FileError Bytes :=
  match node with
  | .file number => .ok (((t.inode number).contents.drop offset).take size)
  | .device .null => .ok []
  | .device _ => .ok (List.replicate size 0)
  | .directory => .error .isDirectory
  | .link _ => .error .other

/-- Writes bytes at `offset`; of what was on the medium, what lies before them stays so. -/
def write (t : Tree) (node : Node) (offset : Nat) (new : Bytes) : Except FileError Unit × Tree :=
  match node with
  | .file number =>
    (.ok (), t.modify number fun f =>
      { contents := f.contents.overwrite offset new, durable := min f.durable offset })
  | .device .full => (.error .storageFull, t)
  | .device _ => (.ok (), t)
  | .directory => (.error .isDirectory, t)
  | .link _ => (.error .other, t)

/-- Brings the whole of a file to the medium. -/
def sync (t : Tree) (node : Node) : Except FileError Unit × Tree :=
  match node with
  | .file number => (.ok (), t.modify number fun f => { f with durable := f.contents.length })
  | .directory => (.ok (), t)
  | _ => (.error .invalidInput, t)

/-- Removes the name of anything but a directory. -/
def remove (t : Tree) (parts : List Name) : Except FileError Unit × Tree :=
  match t.locate false parts with
  | .error e => (.error e, t)
  | .ok place =>
    match t.lookup place with
    | none => (.error .notFound, t)
    | some .directory => (.error .isDirectory, t)
    | some _ => (.ok (), t.erase place)

/-- Whether `place` is `above` or lies below it. -/
def isBelow (above place : Location) : Bool := above.isSuffixOf place

/-- Moves what stands at `source`, and all that lies below it, to `target`. -/
def move (t : Tree) (source target : Location) : Tree :=
  { t with entries := (t.erase target).entries.map fun e =>
      if isBelow source e.1 then (e.1.take (e.1.length - source.length) ++ target, e.2) else e }

/-- Gives what one path names the other name, in place of a file or an empty directory that
has it. -/
def rename (t : Tree) (source target : List Name) : Except FileError Unit × Tree :=
  match t.locate false source with
  | .error e => (.error e, t)
  | .ok here =>
    match t.locate false target with
    | .error e => (.error e, t)
    | .ok there =>
      match t.lookup here with
      | none => (.error .notFound, t)
      | some node =>
        if here = there then (.ok (), t)
        else
          match node, t.lookup there with
          | .directory, some .directory =>
            if isBelow here there then (.error .invalidInput, t)
            else if t.namesIn there = [] then (.ok (), t.move here there)
            else (.error .directoryNotEmpty, t)
          | .directory, some _ => (.error .notDirectory, t)
          | .directory, none =>
            if isBelow here there then (.error .invalidInput, t) else (.ok (), t.move here there)
          | _, some .directory => (.error .isDirectory, t)
          | node, _ => (.ok (), (t.erase here).put there node)

/-- Creates a directory where nothing is. -/
def makeDirectory (t : Tree) (parts : List Name) : Except FileError Unit × Tree :=
  match t.locate false parts with
  | .error e => (.error e, t)
  | .ok place =>
    match t.lookup place with
    | none => (.ok (), t.put place .directory)
    | some _ => (.error .alreadyExists, t)

/-- The names in the directory that a path means. -/
def list (t : Tree) (parts : List Name) : Except FileError (List Name) :=
  match t.locate true parts with
  | .error e => .error e
  | .ok place =>
    match t.lookup place with
    | none => .error .notFound
    | some .directory => .ok (t.namesIn place)
    | some _ => .error .notDirectory

end DurableQueue.FileSystem.Tree
