import DurableQueue.FileSystem.Tree

/-!
# Errors

Everything that a queue can answer instead of a result, each by its cause, and the wording
of each. Errors that come from the file system carry why the call failed; the wording leaves
that out, since whoever shows the error shows the cause under it.
-/

namespace DurableQueue

open FileSystem (FileError)

/-- Why an operation of a queue failed. -/
inductive Error where
  /-- The queue was closed or deleted before; nothing was attempted. -/
  | exited (queue : String)
  /-- A message outside the bounds of the queue. -/
  | invalidMessageSize (size least most : Nat)
  /-- A frame header on disk that is outside the bounds. -/
  | frameCorrupt (size least most : Nat)
  | readFrame (cause : FileError)
  | openSegment (path : String) (cause : FileError)
  | writeSegment (path : String) (cause : FileError)
  | syncSegment (path : String) (cause : FileError)
  | removeFile (path : String) (cause : FileError)
  | readRecord (path : String) (cause : FileError)
  | writeRecord (path : String) (cause : FileError)
  /-- A record that is text and not a record. -/
  | recordCorrupt (path reason : String)
  | createDirectory (path : String) (cause : FileError)
  | scanDirectory (path : String) (cause : FileError)
  | invalidConfig (reason : String)
  /-- The loop that owns the queue's files could not be started. -/
  | startLoop (cause : FileError)
  /-- The loop that owns the queue's files ended without an answer. -/
  | loopFailed
  deriving DecidableEq, Repr

namespace Error

/-- What an error says. -/
def message : Error → String
  | exited queue => s!"queue {queue} has been exited"
  | invalidMessageSize size least most =>
    s!"invalid message size {size}, expected {least}..={most}"
  | frameCorrupt size least most =>
    s!"corrupt frame header: size {size} outside {least}..={most}"
  | readFrame _ => "failed to read frame"
  | openSegment path _ => s!"failed to open segment {path}"
  | writeSegment path _ => s!"failed to write segment {path}"
  | syncSegment path _ => s!"failed to sync segment {path}"
  | removeFile path _ => s!"failed to remove {path}"
  | readRecord path _ => s!"failed to read metadata {path}"
  | writeRecord path _ => s!"failed to write metadata {path}"
  | recordCorrupt path reason => s!"metadata {path} is corrupt: {reason}"
  | createDirectory path _ => s!"failed to create data directory {path}"
  | scanDirectory path _ => s!"failed to scan data directory {path}"
  | invalidConfig reason => s!"invalid queue config: {reason}"
  | startLoop _ => "failed to spawn queue io thread"
  | loopFailed => "queue io thread panicked"

/-- Why the file system refused, for an error that comes from it. -/
def cause? : Error → Option FileError
  | readFrame cause | openSegment _ cause | writeSegment _ cause | syncSegment _ cause
  | removeFile _ cause | readRecord _ cause | writeRecord _ cause | createDirectory _ cause
  | scanDirectory _ cause | startLoop cause => some cause
  | _ => none

end Error

end DurableQueue
