import DurableQueue.FileSystem.Disk
import DurableQueue.Frame

/-!
# Reading ahead

A segment is read through a buffer: what a read brings in beyond the bytes asked for is kept
for the next one. What is kept is not read again, so a reader that stays open hands out the
bytes that were in the file when it fetched them.
-/

namespace DurableQueue

open FileSystem (Disk FileError Handle)

/-- An open segment and the bytes fetched from it that nobody has taken yet. -/
structure Reader where
  handle : Handle
  ahead : Bytes := []
  deriving DecidableEq, Repr

namespace Reader

/-- The least number of bytes that a fetch asks for. -/
def capacity : Nat := 8192

/-- Hands out the next `n` bytes, from those kept and then from the file. A fetch brings
fewer bytes than it asks for only at the end of the file. -/
def take (n : Nat) : Reader × Disk → Except FileError Bytes × (Reader × Disk)
  | (r, d) =>
    if n ≤ r.ahead.length then (.ok (r.ahead.take n), ({ r with ahead := r.ahead.drop n }, d))
    else
      let missing := n - r.ahead.length
      match d.read r.handle (max missing capacity) with
      | (.error e, d) => (.error e, (r, d))
      | (.ok (fetched, handle), d) =>
        if fetched.length < missing then (.error .unexpectedEnd, ({ handle, ahead := [] }, d))
        else
          (.ok (r.ahead ++ fetched.take missing),
            ({ handle, ahead := fetched.drop missing }, d))

/-- Reads the next frame. -/
def readFrame (least most : Nat) (r : Reader) (d : Disk) :
    Except Error Bytes × (Reader × Disk) :=
  Frame.decodeFrom take least most (r, d)

end Reader

end DurableQueue
