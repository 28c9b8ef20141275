import DurableQueue.FileSystem.Disk
import DurableQueue.Naming
import DurableQueue.Error

/-!
# Listing segments

The segments of a queue that are in its directory, found by their names alone and listed by
number. Directories, links that dangle and the files of other queues are passed over, and so
are names that are not text.
-/

namespace DurableQueue.Segments

open FileSystem

/-- The segments among the names in a directory, each with its number and path. -/
def among (d : Disk) (dir queue : String) (names : List Name) : List (Nat × String) :=
  names.filterMap fun name => do
    let fileName ← name.toText?
    let path := Path.join dir fileName
    if d.isFile path then
      let number ← Naming.segmentNumber? queue fileName
      some (number, path)
    else none

/-- The segments of a queue in a directory, by number. A directory that is not there holds
none. -/
def scan (d : Disk) (dir queue : String) : Except Error (List (Nat × String)) × Disk :=
  if d.isThere dir then
    match d.list dir with
    | (.error e, d) => (.error (.scanDirectory dir e), d)
    | (.ok names, d) => (.ok ((among d dir queue names).mergeSort fun a b => a.1 ≤ b.1), d)
  else (.ok [], d)

end DurableQueue.Segments
