import DurableQueue.Record
import DurableQueue.Naming
import DurableQueue.Error
import DurableQueue.FileSystem.Disk

/-!
# Keeping the record on disk

The record's file is never changed in place. A new record is written under a temporary name,
brought to the medium, and only then given the place of the last one by a rename, so that
whoever reads the file finds one record or the other whole.
-/

namespace DurableQueue.Record

open FileSystem (Disk FileError)

/-- Reads the record at a path; none is there for a queue that never kept one. -/
def load (d : Disk) (path : String) : Except Error (Option Record) × Disk :=
  match d.readFile path with
  | (.error .notFound, d) => (.ok none, d)
  | (.error e, d) => (.error (.readRecord path e), d)
  | (.ok bs, d) =>
    match Text.decode bs with
    | none => (.error (.readRecord path .invalidData), d)
    | some s =>
      match parse s with
      | .error flaw => (.error (.recordCorrupt path flaw.reason), d)
      | .ok r => (.ok (some r), d)

/-- What came of storing a record. -/
structure Stored where
  result : Except Error Unit
  disk : Disk
  /-- Whether the temporary file of a failed attempt could not be removed. -/
  leftover : Bool := false

/-- Writes `bs` to a new file and brings it to the medium. -/
def writeSynced (d : Disk) (path : String) (bs : Bytes) : Except FileError Unit × Disk :=
  match d.createNew path with
  | (.error e, d) => (.error e, d)
  | (.ok h, d) =>
    match d.write h bs with
    | (.error e, d) => (.error e, d)
    | (.ok h, d) => d.sync h

/-- Ends a failed attempt: the temporary file goes, if it is there. -/
def abandon (d : Disk) (temporary : String) (e : Error) : Stored :=
  match d.remove temporary with
  | (.ok (), disk) => { result := .error e, disk }
  | (.error e', disk) => { result := .error e, disk, leftover := e' ≠ .notFound }

/-- Puts a record in the place of the last one at a path. -/
def store (r : Record) (d : Disk) (path : String) : Stored :=
  let temporary := Naming.temporaryPath path d.freshTag
  match writeSynced d temporary (Text.encode r.text) with
  | (.error e, d) => abandon d temporary (.writeRecord temporary e)
  | (.ok (), d) =>
    match d.rename temporary path with
    | (.error e, d) => abandon d temporary (.writeRecord path e)
    | (.ok (), disk) => { result := .ok (), disk }

/-- Removes the record at a path; a missing file is no failure. -/
def remove (d : Disk) (path : String) : Except FileError Unit × Disk :=
  match d.remove path with
  | (.error .notFound, d) => (.ok (), d)
  | (result, d) => (result, d)

end DurableQueue.Record
