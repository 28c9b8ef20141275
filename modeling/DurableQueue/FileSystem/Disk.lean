import DurableQueue.FileSystem.Operations
import DurableQueue.Word

/-!
# The disk

A `Disk` is a file tree together with the calls made on it so far. Every call that can fail
or change the tree goes through `Disk.perform`, which asks the fault plan whether this call
is to fail, acts on the tree if it is not, and notes the call with the tree that it left
behind. So one definition answers three questions: what a run does when nothing fails (the
empty plan), what it does when any of its calls fail (any other plan), and what is on the
disk if the process dies between two calls (`Disk.history`).

A `Handle` is an open file: what it was opened on, not the name that was used, and the place
of the next read or write.
-/

namespace DurableQueue.FileSystem

/-- A system call. Calls on an open file carry the path that it was opened by. -/
inductive Call where
  | openRead (path : String)
  | openWrite (path : String)
  | createNew (path : String)
  | seek (path : String) (offset : Nat)
  | read (path : String) (offset size : Nat)
  | write (path : String) (offset : Nat) (new : Bytes)
  | sync (path : String)
  | rename (source target : String)
  | remove (path : String)
  | makeDirectory (path : String)
  | list (path : String)
  deriving DecidableEq, Repr

/-- How a call fails; a failing write may have written some of its bytes before it did. -/
structure Fault where
  error : FileError
  written : Nat := 0
  deriving DecidableEq, Repr

/-- A call that was made: how it failed, if it did, and the tree after it. -/
structure Access where
  call : Call
  error : Option FileError
  after : Tree

/-- A file tree, what its calls meet, and the calls made on it, the latest first. -/
structure Disk where
  tree : Tree := {}
  /-- The fault that a call meets, given how many calls came before it. -/
  faults : Nat → Call → Option Fault := fun _ _ => none
  history : List Access := []
  /-- The number of calls made. -/
  calls : Nat := 0
  /-- Where the numbering of temporary names starts. -/
  seed : Nat := 0

/-- An open file and the place of the next read or write. -/
structure Handle where
  path : String
  node : Node
  offset : Nat := 0
  deriving DecidableEq, Repr

namespace Disk

/-- The disk after a call that left `tree` behind. -/
def noted (d : Disk) (call : Call) (error : Option FileError) (tree : Tree) : Disk :=
  { d with tree, history := ⟨call, error, tree⟩ :: d.history, calls := d.calls + 1 }

/-- The error of a result, if it is one. -/
def errorOf {α : Type} : Except FileError α → Option FileError
  | .ok _ => none
  | .error e => some e

/-- Makes a call: fails as the plan has it, or does `act` to the tree. -/
def perform {α : Type} (d : Disk) (call : Call)
    (act : Tree → Except FileError α × Tree) : Except FileError α × Disk :=
  match d.faults d.calls call with
  | some fault => (.error fault.error, d.noted call (some fault.error) d.tree)
  | none =>
    let (result, tree) := act d.tree
    (result, d.noted call (errorOf result) tree)

/-- Makes a call that looks at the tree and changes nothing. -/
def observe {α : Type} (d : Disk) (call : Call) (look : Tree → Except FileError α) :
    Except FileError α × Disk :=
  d.perform call fun t => (look t, t)

/-- Opens a path for reading. -/
def openRead (d : Disk) (path : String) : Except FileError Handle × Disk :=
  d.observe (.openRead path) fun t => (t.openRead (Path.parts path)).map fun node => ⟨path, node, 0⟩

/-- Opens a path for writing in place, creating the file if there is none. -/
def openWrite (d : Disk) (path : String) : Except FileError Handle × Disk :=
  d.perform (.openWrite path) fun t =>
    let (result, t) := t.openWrite (Path.parts path)
    (result.map fun node => ⟨path, node, 0⟩, t)

/-- Creates a file that was not there and opens it for writing. -/
def createNew (d : Disk) (path : String) : Except FileError Handle × Disk :=
  d.perform (.createNew path) fun t =>
    let (result, t) := t.createNew (Path.parts path)
    (result.map fun node => ⟨path, node, 0⟩, t)

/-- Moves an open file to an offset; at the start it stands there already. No file has an
offset that does not fit 63 bits. -/
def seek (d : Disk) (h : Handle) (offset : Nat) : Except FileError Handle × Disk :=
  if offset = 0 then (.ok h, d)
  else
    d.observe (.seek h.path offset) fun _ =>
      if offset < Word.signedLimit then .ok { h with offset } else .error .invalidInput

/-- Reads up to `size` bytes; fewer come only at the end of the file. -/
def read (d : Disk) (h : Handle) (size : Nat) : Except FileError (Bytes × Handle) × Disk :=
  d.observe (.read h.path h.offset size) fun t =>
    (t.read h.node h.offset size).map fun bs => (bs, { h with offset := h.offset + bs.length })

/-- Writes all of `new`. A write that fails may have written a part of it. -/
def write (d : Disk) (h : Handle) (new : Bytes) : Except FileError Handle × Disk :=
  let call := Call.write h.path h.offset new
  match d.faults d.calls call with
  | some fault =>
    (.error fault.error,
      d.noted call (some fault.error) (d.tree.write h.node h.offset (new.take fault.written)).2)
  | none =>
    let (result, tree) := d.tree.write h.node h.offset new
    (result.map fun _ => { h with offset := h.offset + new.length },
      d.noted call (errorOf result) tree)

/-- Brings an open file to the medium. -/
def sync (d : Disk) (h : Handle) : Except FileError Unit × Disk :=
  d.perform (.sync h.path) fun t => t.sync h.node

/-- Renames a file or directory. -/
def rename (d : Disk) (source target : String) : Except FileError Unit × Disk :=
  d.perform (.rename source target) fun t => t.rename (Path.parts source) (Path.parts target)

/-- Removes a file. -/
def remove (d : Disk) (path : String) : Except FileError Unit × Disk :=
  d.perform (.remove path) fun t => t.remove (Path.parts path)

/-- Removes files in turn; answers the paths that could not be removed, a missing file not
counting, in the order in which they were met. -/
def removeEach (d : Disk) : List String → List (String × FileError) × Disk
  | [] => ([], d)
  | path :: rest =>
    match d.remove path with
    | (.error e, d) =>
      let (failed, d) := removeEach d rest
      (if e = .notFound then failed else (path, e) :: failed, d)
    | (.ok (), d) => removeEach d rest

/-- Creates a directory. -/
def makeDirectory (d : Disk) (path : String) : Except FileError Unit × Disk :=
  d.perform (.makeDirectory path) fun t => t.makeDirectory (Path.names path)

/-- Whether a path means a directory. -/
def isDirectory (d : Disk) (path : String) : Bool :=
  match d.tree.find? (Path.parts path) with
  | .ok .directory => true
  | _ => false

/-- Whether a path means a regular file. -/
def isFile (d : Disk) (path : String) : Bool :=
  match d.tree.find? (Path.parts path) with
  | .ok (.file _) => true
  | _ => false

/-- Whether a path leads anywhere. -/
def isThere (d : Disk) (path : String) : Bool :=
  match d.tree.find? (Path.parts path) with
  | .ok _ => true
  | .error _ => false

/-- The size of what a path means; only a regular file has one. -/
def size (d : Disk) (path : String) : Except FileError Nat :=
  (d.tree.find? (Path.parts path)).map fun node =>
    match node with
    | .file number => (d.tree.inode number).contents.length
    | _ => 0

/-- Creates the directory under `above` and all that are missing on the way to it. The whole
path is tried first, then what lies above it. `names` are the names of the path, the
innermost first. -/
def makeAll (d : Disk) (root : String) : List Name → Except FileError Unit × Disk
  | [] => (.ok (), d)
  | name :: above =>
    let path := root ++ "/".intercalate ((name :: above).reverse.map Name.shown)
    let settled (e : FileError) (d : Disk) : Except FileError Unit × Disk :=
      if d.isDirectory path then (.ok (), d) else (.error e, d)
    match d.makeDirectory path with
    | (.ok (), d) => (.ok (), d)
    | (.error .notFound, d) =>
      match makeAll d root above with
      | (.error e, d) => (.error e, d)
      | (.ok (), d) =>
        match d.makeDirectory path with
        | (.ok (), d) => (.ok (), d)
        | (.error e, d) => settled e d
    | (.error e, d) => settled e d

/-- Creates a directory and all that are missing on the way to it; that it is there already
is no failure. -/
def makeDirectories (d : Disk) (path : String) : Except FileError Unit × Disk :=
  d.makeAll (if Path.isAbsolute path then "/" else "") (Path.names path).reverse

/-- The names in a directory. -/
def list (d : Disk) (path : String) : Except FileError (List Name) × Disk :=
  d.observe (.list path) fun t => t.list (Path.parts path)

/-- All bytes of the file that a path means. -/
def readFile (d : Disk) (path : String) : Except FileError Bytes × Disk :=
  match d.openRead path with
  | (.error e, d) => (.error e, d)
  | (.ok h, d) =>
    let size := match h.node with
      | .file number => (d.tree.inode number).contents.length
      | _ => 1
    match d.read h size with
    | (.error e, d) => (.error e, d)
    | (.ok (bs, _), d) => (.ok bs, d)

/-- How many tags there are. -/
def tagCount : Nat := 340282366920938463463374607431768211456

/-- A tag for a temporary name: thirty-two hexadecimal digits, no two alike in `tagCount` calls. -/
def freshTag (d : Disk) : String :=
  String.ofList ((Nat.toDigits 16 ((d.seed + d.calls) % tagCount)).leftpad 32 '0')

/-- The disk without the calls made so far. They decide nothing that comes later. -/
def forget (d : Disk) : Disk := { d with history := [] }

/-- The disk after a process that died when `tree` was on it: what was done stays, and the
next process meets a plan of its own. -/
def rebooted (d : Disk) (tree : Tree) (faults : Nat → Call → Option Fault) : Disk :=
  { d with tree, faults }

end Disk

end DurableQueue.FileSystem
