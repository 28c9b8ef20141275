import DurableQueue.Frame
import DurableQueue.Word
import Mathlib.Algebra.GroupWithZero.Nat

/-!
# Frames one after another

A segment is a run of frames with perhaps something else behind it. Writing and reading such
a run are inverse to each other: what `encodeAll` writes is read back by `decodeMany`, and
whatever `decodeMany` reads was the writing of just what it answers. Where reading stops, the
bytes at that place say why. Main statement: `codec`.

All of it comes from one equation, `decode_eq`, which tells from the bytes alone what reading
one frame answers and what it leaves.
-/

namespace DurableQueue.Frame

open FileSystem (FileError)

/-- The frames of `messages`, one after another. -/
def encodeAll (messages : List Bytes) : Bytes := messages.flatMap encode

/-- Reads `times` frames, one after another, and stops at the first that fails. Answers also
what is left. -/
def decodeMany (least most : Nat) : Nat → Bytes → Except Error (List Bytes) × Bytes
  | 0, bs => (.ok [], bs)
  | times + 1, bs =>
    match decode least most bs with
    | (.error e, rest) => (.error e, rest)
    | (.ok message, rest) =>
      match decodeMany least most times rest with
      | (.error e, rest) => (.error e, rest)
      | (.ok messages, rest) => (.ok (message :: messages), rest)

/-- A message with a number of bytes within the bounds. -/
def Within (least most : Nat) (message : Bytes) : Prop :=
  least ≤ message.length ∧ message.length ≤ most

/-- The number of bytes that the header at the front of `bs` asks for. -/
def announced (bs : Bytes) : Nat := Bytes.toWord (bs.take headerSize)

/-- A whole header stands at the front of `bs` and asks for a number of bytes within the
bounds. -/
def Announces (least most : Nat) (bs : Bytes) : Prop :=
  headerSize ≤ bs.length ∧ least ≤ announced bs ∧ announced bs ≤ most

variable {least most times : Nat} {message bs rest : Bytes} {messages : List Bytes} {e : Error}

@[simp] theorem encodeAll_nil : encodeAll [] = [] := rfl

@[simp] theorem encodeAll_cons (message : Bytes) (messages : List Bytes) :
    encodeAll (message :: messages) = encode message ++ encodeAll messages := rfl

theorem length_encodeAll (messages : List Bytes) :
    (encodeAll messages).length = (messages.map fun message => diskSize message.length).sum := by
  induction messages with
  | nil => rfl
  | cons message messages ih =>
    rw [encodeAll_cons, List.length_append, length_encode, ih, List.map_cons, List.sum_cons]

/-! ## One frame -/

/-- What reading one frame answers, and what it leaves. -/
theorem decode_eq (least most : Nat) (bs : Bytes) :
    decode least most bs =
      if bs.length < headerSize then (.error (.readFrame .unexpectedEnd), [])
      else if announced bs < least ∨ most < announced bs then
        (.error (.frameCorrupt (announced bs) least most), bs.drop headerSize)
      else if bs.length < diskSize (announced bs) then
        (.error (.readFrame .unexpectedEnd), [])
      else
        (.ok ((bs.drop headerSize).take (announced bs)), bs.drop (diskSize (announced bs))) := by
  unfold decode decodeFrom
  by_cases header : bs.length < headerSize
  · rw [if_pos header, takeBytes, if_neg (by omega)]
  rw [if_neg header, takeBytes, if_pos (by omega)]
  have size : Bytes.toWord (bs.take headerSize) = announced bs := rfl
  simp only [size]
  by_cases outside : announced bs < least ∨ most < announced bs
  · rw [if_pos outside, if_pos outside]
  rw [if_neg outside, if_neg outside]
  have left : (bs.drop headerSize).length = bs.length - headerSize := List.length_drop
  by_cases short : bs.length < diskSize (announced bs)
  · rw [if_pos short, takeBytes, if_neg (by simp only [diskSize] at short; omega)]
  · rw [if_neg short, takeBytes, if_pos (by simp only [diskSize] at short; omega),
      List.drop_drop, diskSize]

/-- A message is read exactly if its frame is at the front, and what follows it is left. -/
theorem decode_eq_ok_iff (word : most < Word.smallLimit) :
    decode least most bs = (.ok message, rest) ↔
      Within least most message ∧ bs = encode message ++ rest := by
  constructor
  · intro read
    rw [decode_eq] at read
    split at read
    · cases read
    next header =>
    split at read
    · cases read
    next inside =>
    split at read
    · cases read
    next long =>
    simp only [Prod.mk.injEq, Except.ok.injEq] at read
    obtain ⟨rfl, rfl⟩ := read
    simp only [diskSize] at long
    have four : (bs.take headerSize).length = 4 := by
      simp only [headerSize] at header ⊢
      rw [List.length_take]
      omega
    have size : ((bs.drop headerSize).take (announced bs)).length = announced bs := by
      rw [List.length_take, List.length_drop]
      omega
    refine ⟨⟨by omega, by omega⟩, ?_⟩
    rw [encode, size, announced, Bytes.ofWord_toWord four, diskSize, ← List.drop_drop,
      List.append_assoc, List.take_append_drop, List.take_append_drop]
  · rintro ⟨⟨low, high⟩, rfl⟩
    exact decode_encode_append rest low high (Nat.lt_of_le_of_lt high word)

/-- A header is turned down exactly if it is whole and asks for too few or too many bytes;
nothing after it is read. -/
theorem decode_eq_frameCorrupt_iff {size low high : Nat} :
    decode least most bs = (.error (.frameCorrupt size low high), rest) ↔
      (headerSize ≤ bs.length ∧ ¬(least ≤ announced bs ∧ announced bs ≤ most)) ∧
        (size = announced bs ∧ low = least ∧ high = most) ∧ rest = bs.drop headerSize := by
  rw [decode_eq]
  split
  next header =>
    constructor
    · rintro ⟨⟩
    · rintro ⟨⟨whole, -⟩, -⟩
      omega
  next header =>
  split
  next outside =>
    simp only [Prod.mk.injEq, Except.error.injEq, Error.frameCorrupt.injEq]
    constructor
    · rintro ⟨⟨rfl, rfl, rfl⟩, rfl⟩
      exact ⟨⟨by omega, by omega⟩, ⟨rfl, rfl, rfl⟩, rfl⟩
    · rintro ⟨-, ⟨rfl, rfl, rfl⟩, rfl⟩
      exact ⟨⟨rfl, rfl, rfl⟩, rfl⟩
  next inside =>
    constructor
    · intro read
      split at read <;> cases read
    · rintro ⟨⟨-, outside⟩, -⟩
      omega

/-- Bytes are wanting exactly if the header is cut short, or a header within the bounds asks
for more than there is; the bytes there are used up. -/
theorem decode_eq_readFrame_iff {cause : FileError} :
    decode least most bs = (.error (.readFrame cause), rest) ↔
      (bs.length < headerSize ∨
        Announces least most bs ∧ bs.length < diskSize (announced bs)) ∧
        cause = .unexpectedEnd ∧ rest = [] := by
  rw [decode_eq]
  split
  next header =>
    simp only [Prod.mk.injEq, Except.error.injEq, Error.readFrame.injEq]
    constructor
    · rintro ⟨rfl, rfl⟩
      exact ⟨.inl header, rfl, rfl⟩
    · rintro ⟨-, rfl, rfl⟩
      exact ⟨rfl, rfl⟩
  next header =>
  split
  next outside =>
    constructor
    · rintro ⟨⟩
    · rintro ⟨header' | ⟨⟨-, low, high⟩, -⟩, -⟩ <;> omega
  next inside =>
  split
  next short =>
    simp only [Prod.mk.injEq, Except.error.injEq, Error.readFrame.injEq]
    constructor
    · rintro ⟨rfl, rfl⟩
      exact ⟨.inr ⟨⟨by omega, by omega, by omega⟩, short⟩, rfl, rfl⟩
    · rintro ⟨-, rfl, rfl⟩
      exact ⟨rfl, rfl⟩
  next long =>
    constructor
    · rintro ⟨⟩
    · rintro ⟨header' | ⟨-, short⟩, -⟩ <;> omega

/-- Reading a frame fails in no third way. -/
theorem decode_error_cases (failed : decode least most bs = (.error e, rest)) :
    (∃ size, e = .frameCorrupt size least most) ∨ e = .readFrame .unexpectedEnd := by
  rw [decode_eq] at failed
  split at failed
  · cases failed
    exact .inr rfl
  split at failed
  · cases failed
    exact .inl ⟨_, rfl⟩
  split at failed <;> cases failed
  exact .inr rfl

/-! ## Many frames -/

/-- Messages are read one after another exactly if their frames are at the front. -/
theorem decodeMany_eq_ok_iff (word : most < Word.smallLimit) :
    decodeMany least most times bs = (.ok messages, rest) ↔
      (messages.length = times ∧ ∀ message ∈ messages, Within least most message) ∧
        bs = encodeAll messages ++ rest := by
  induction times generalizing bs messages with
  | zero =>
    simp only [decodeMany, Prod.mk.injEq, Except.ok.injEq, List.length_eq_zero_iff]
    constructor
    · rintro ⟨rfl, rfl⟩
      exact ⟨⟨rfl, by simp⟩, rfl⟩
    · rintro ⟨⟨rfl, -⟩, rfl⟩
      exact ⟨rfl, rfl⟩
  | succ times ih =>
    constructor
    · intro read
      rw [decodeMany] at read
      split at read
      · cases read
      next message between first =>
      split at read
      · cases read
      next later rest' next =>
      obtain ⟨rfl, rfl⟩ : message :: later = messages ∧ rest' = rest := by
        simpa only [Prod.mk.injEq, Except.ok.injEq] using read
      obtain ⟨within, rfl⟩ := (decode_eq_ok_iff word).1 first
      obtain ⟨⟨rfl, all⟩, rfl⟩ := ih.1 next
      refine ⟨⟨rfl, ?_⟩, by rw [encodeAll_cons, List.append_assoc]⟩
      intro some member
      obtain rfl | member := List.mem_cons.1 member
      · exact within
      · exact all some member
    · rintro ⟨⟨count, all⟩, rfl⟩
      cases messages with
      | nil => cases count
      | cons message later =>
        have first : decode least most (encodeAll (message :: later) ++ rest) =
            (.ok message, encodeAll later ++ rest) := by
          apply (decode_eq_ok_iff word).2
          exact ⟨all message List.mem_cons_self, by rw [encodeAll_cons, List.append_assoc]⟩
        have next : decodeMany least most times (encodeAll later ++ rest) = (.ok later, rest) := by
          apply ih.2
          refine ⟨⟨?_, fun some member => all some (List.mem_cons_of_mem _ member)⟩, rfl⟩
          simpa using count
        simp only [decodeMany, first, next]

/-- Where reading stops short, the messages before were read, and the next frame fails. -/
theorem decodeMany_stops (word : most < Word.smallLimit)
    (failed : decodeMany least most times bs = (.error e, rest)) :
    ∃ messages left, messages.length < times ∧
      (∀ message ∈ messages, Within least most message) ∧
      bs = encodeAll messages ++ left ∧ decode least most left = (.error e, rest) := by
  induction times generalizing bs with
  | zero => cases failed
  | succ times ih =>
    rw [decodeMany] at failed
    split at failed
    next e' rest' first =>
      obtain ⟨rfl, rfl⟩ : e' = e ∧ rest' = rest := by
        simpa only [Prod.mk.injEq, Except.error.injEq] using failed
      exact ⟨[], bs, by simp, by simp, rfl, first⟩
    next message between first =>
    split at failed
    next e' rest' next =>
      obtain ⟨rfl, rfl⟩ : e' = e ∧ rest' = rest := by
        simpa only [Prod.mk.injEq, Except.error.injEq] using failed
      obtain ⟨within, rfl⟩ := (decode_eq_ok_iff word).1 first
      obtain ⟨later, left, fewer, all, rfl, stop⟩ := ih next
      refine ⟨message :: later, left, by simpa using fewer, ?_, ?_, stop⟩
      · intro some member
        obtain rfl | member := List.mem_cons.1 member
        · exact within
        · exact all some member
      · rw [encodeAll_cons, List.append_assoc]
    · cases failed

/-- What writing and reading frames within the bounds `least` and `most` promise each other. -/
structure Codec (least most : Nat) : Prop where
  /-- What was written is read back, and reading stands at the start of what follows it. -/
  reads_back : ∀ messages suffix, (∀ message ∈ messages, Within least most message) →
    decodeMany least most messages.length (encodeAll messages ++ suffix) = (.ok messages, suffix)
  /-- The bytes between are as many as the frames take up on disk. -/
  consumes : ∀ messages,
    (encodeAll messages).length = (messages.map fun message => diskSize message.length).sum
  /-- Whatever is read within the bounds was written so. -/
  was_written : ∀ times bs messages rest,
    decodeMany least most times bs = (.ok messages, rest) →
      bs = encodeAll messages ++ rest ∧ messages.length = times ∧
        ∀ message ∈ messages, Within least most message
  /-- Reading many frames stops where reading one fails. -/
  stops : ∀ times bs e rest, decodeMany least most times bs = (.error e, rest) →
    ∃ messages left, messages.length < times ∧
      (∀ message ∈ messages, Within least most message) ∧
      bs = encodeAll messages ++ left ∧ decode least most left = (.error e, rest)
  /-- A header is corrupt exactly if it is whole and out of bounds. -/
  corrupt_iff : ∀ bs, (∃ size low high,
      (decode least most bs).1 = .error (.frameCorrupt size low high)) ↔
    headerSize ≤ bs.length ∧ ¬(least ≤ announced bs ∧ announced bs ≤ most)
  /-- A corrupt header is named with the bounds, and only the header is used up. -/
  corrupt_after_header : ∀ bs size low high,
    (decode least most bs).1 = .error (.frameCorrupt size low high) →
      size = announced bs ∧ low = least ∧ high = most ∧
        (decode least most bs).2 = bs.drop headerSize
  /-- Bytes are wanting exactly if the header or a message within the bounds is cut short. -/
  short_iff : ∀ bs, (∃ cause, (decode least most bs).1 = .error (.readFrame cause)) ↔
    bs.length < headerSize ∨ Announces least most bs ∧ bs.length < diskSize (announced bs)
  /-- There is no third way to fail. -/
  fails_so : ∀ bs e, (decode least most bs).1 = .error e →
    (∃ size, e = .frameCorrupt size least most) ∨ e = .readFrame .unexpectedEnd

/-- Frames whose bounds fit the word of their header are read as they were written, and only
so. -/
theorem codec (word : most < Word.smallLimit) : Codec least most where
  reads_back messages suffix within :=
    (decodeMany_eq_ok_iff word).2 ⟨⟨rfl, within⟩, rfl⟩
  consumes := length_encodeAll
  was_written times bs messages rest read := by
    obtain ⟨⟨count, within⟩, split⟩ := (decodeMany_eq_ok_iff word).1 read
    exact ⟨split, count, within⟩
  stops times bs e rest failed := decodeMany_stops word failed
  corrupt_iff bs := by
    constructor
    · rintro ⟨size, low, high, failed⟩
      exact (decode_eq_frameCorrupt_iff.1 (Prod.ext failed rfl)).1
    · intro outside
      refine ⟨announced bs, least, most, ?_⟩
      rw [decode_eq_frameCorrupt_iff.2 ⟨outside, ⟨rfl, rfl, rfl⟩, rfl⟩]
  corrupt_after_header bs size low high failed := by
    obtain ⟨-, ⟨rfl, rfl, rfl⟩, left⟩ := decode_eq_frameCorrupt_iff.1 (Prod.ext failed rfl)
    exact ⟨rfl, rfl, rfl, left⟩
  short_iff bs := by
    constructor
    · rintro ⟨cause, failed⟩
      exact (decode_eq_readFrame_iff.1 (Prod.ext failed rfl)).1
    · intro short
      refine ⟨.unexpectedEnd, ?_⟩
      rw [decode_eq_readFrame_iff.2 ⟨short, rfl, rfl⟩]
  fails_so bs e failed := decode_error_cases (Prod.ext failed rfl)

/-- The widest bounds there are. -/
theorem codec_widest : 4294967295 < Word.smallLimit ∧ Codec 0 4294967295 :=
  ⟨by decide, codec (by decide)⟩

example : decodeMany 1 2 2 [0, 0, 0, 1, 7, 0, 0, 0, 2, 8, 9, 5] = (.ok [[7], [8, 9]], [5]) := by
  cbv

example : decode 1 2 [0, 0, 0, 3, 7] = (.error (.frameCorrupt 3 1 2), [7]) := by
  cbv

end DurableQueue.Frame
