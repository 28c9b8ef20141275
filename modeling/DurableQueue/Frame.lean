import DurableQueue.Bytes
import DurableQueue.Error

/-!
# Frames

A message is stored as a frame: four bytes with the number of its bytes, the most
significant first, and then the bytes. The number is held against the bounds of the queue
before anything after it is read, so that a damaged header cannot ask for more than a
message may hold.

`decodeFrom` reads a frame from anything that hands out bytes, be it a run of bytes in
memory (`decode`) or an open file.
-/

namespace DurableQueue.Frame

open FileSystem (FileError)

/-- The size of a frame's header. -/
def headerSize : Nat := 4

/-- The size on disk of a frame for a message of `size` bytes. -/
def diskSize (size : Nat) : Nat := headerSize + size

/-- The frame of a message. -/
def encode (message : Bytes) : Bytes := Bytes.ofWord message.length ++ message

/-- Reads one frame. `take n s` hands out the next `n` bytes of `s`, or says why it cannot. -/
def decodeFrom {σ : Type} (take : Nat → σ → Except FileError Bytes × σ) (least most : Nat)
    (s : σ) : Except Error Bytes × σ :=
  match take headerSize s with
  | (.error e, s) => (.error (.readFrame e), s)
  | (.ok header, s) =>
    let size := Bytes.toWord header
    if size < least ∨ most < size then (.error (.frameCorrupt size least most), s)
    else
      match take size s with
      | (.error e, s) => (.error (.readFrame e), s)
      | (.ok message, s) => (.ok message, s)

/-- The first `n` bytes; too few are all used up. -/
def takeBytes (n : Nat) (bs : Bytes) : Except FileError Bytes × Bytes :=
  if n ≤ bs.length then (.ok (bs.take n), bs.drop n) else (.error .unexpectedEnd, [])

/-- Reads one frame from the front of a run of bytes; answers also what follows. -/
def decode (least most : Nat) (bs : Bytes) : Except Error Bytes × Bytes :=
  decodeFrom takeBytes least most bs

/-- Reads up to `times` frames and stops after the first that fails. Each message comes with
the bytes that follow it. -/
def decodeUpTo (least most : Nat) : Nat → Bytes → List (Except Error (Bytes × Bytes))
  | 0, _ => []
  | times + 1, bs =>
    match decode least most bs with
    | (.error e, _) => [.error e]
    | (.ok message, rest) => .ok (message, rest) :: decodeUpTo least most times rest

theorem length_encode (message : Bytes) : (encode message).length = diskSize message.length := by
  simp [encode, diskSize, headerSize]

theorem takeBytes_append {n : Nat} {front rest : Bytes} (h : front.length = n) :
    takeBytes n (front ++ rest) = (.ok front, rest) := by
  subst h
  simp [takeBytes]

/-- Reading gives back what was written and stops right after it. -/
theorem decode_encode_append {least most : Nat} {message : Bytes} (rest : Bytes)
    (hlo : least ≤ message.length) (hhi : message.length ≤ most)
    (hword : message.length < 4294967296) :
    decode least most (encode message ++ rest) = (.ok message, rest) := by
  have hhead : takeBytes headerSize (Bytes.ofWord message.length ++ (message ++ rest)) =
      (.ok (Bytes.ofWord message.length), message ++ rest) := takeBytes_append rfl
  have hbody : takeBytes message.length (message ++ rest) = (.ok message, rest) :=
    takeBytes_append rfl
  have hin : ¬(message.length < least ∨ most < message.length) := by omega
  simp only [decode, decodeFrom, encode, List.append_assoc, hhead, Bytes.toWord_ofWord hword,
    if_neg hin, hbody]

end DurableQueue.Frame
