import DurableQueue.FileSystem.Path
import DurableQueue.Text.Decimal
import DurableQueue.Word

/-!
# File names

The files of a queue stand side by side in its data directory, and the queue's name begins
each of their names:

* `<name>.queue.<number>.dat`, a segment, the number filled with zeros to six digits;
* `<name>.queue.<number>.dat.bad`, a segment set aside because it could not be read;
* `<name>.queue.meta.dat`, the record of the cursors;
* `<name>.queue.meta.dat.<tag>.tmp`, a record on its way to the place of the last one.

`segmentNumber?` reads the number back out of a segment's name. It takes any run of digits
that fits a word, so `segmentNumber?_segmentName` says that every segment is found, and not
that each number has one name only.
-/

namespace DurableQueue.Naming

open FileSystem Text

/-- The file name of segment `number` of a queue. -/
def segmentName (queue : String) (number : Nat) : String :=
  queue ++ String.ofList (".queue.".toList ++ Decimal.writePadded 6 number ++ ".dat".toList)

/-- The path of segment `number` of a queue. -/
def segmentPath (dir queue : String) (number : Nat) : String :=
  Path.join dir (segmentName queue number)

/-- The file name of a queue's record. -/
def recordName (queue : String) : String := queue ++ ".queue.meta.dat"

/-- The path of a queue's record. -/
def recordPath (dir queue : String) : String := Path.join dir (recordName queue)

/-- Where a segment that cannot be read is set aside. -/
def quarantinePath (segment : String) : String := segment ++ ".bad"

/-- Where a record is written before it takes the place of the last one. -/
def temporaryPath (record tag : String) : String := record ++ "." ++ tag ++ ".tmp"

/-- What remains of `cs` after `front`, if it starts so. -/
def dropFront? : List Char → List Char → Option (List Char)
  | [], cs => some cs
  | _ :: _, [] => none
  | f :: front, c :: cs => if f = c then dropFront? front cs else none

/-- What remains of `cs` before `back`, if it ends so. -/
def dropBack? (back cs : List Char) : Option (List Char) :=
  (dropFront? back.reverse cs.reverse).map List.reverse

/-- The number of the segment of a queue that a file name belongs to, if it is one. -/
def segmentNumber? (queue fileName : String) : Option Nat := do
  let rest ← dropFront? queue.toList fileName.toList
  let rest ← dropFront? ".queue.".toList rest
  let digits ← dropBack? ".dat".toList rest
  (Decimal.readNat digits).filter (· < Word.limit)

theorem dropFront?_eq_some_iff {front cs rest : List Char} :
    dropFront? front cs = some rest ↔ cs = front ++ rest := by
  induction front generalizing cs with
  | nil => simp [dropFront?, eq_comm]
  | cons f front ih =>
    cases cs with
    | nil => simp [dropFront?]
    | cons c cs =>
      by_cases h : f = c
      · simp [dropFront?, h, ih]
      · simp [dropFront?, h, Ne.symm h]

theorem dropBack?_eq_some_iff {back cs rest : List Char} :
    dropBack? back cs = some rest ↔ cs = rest ++ back := by
  rw [dropBack?, Option.map_eq_some_iff]
  constructor
  · rintro ⟨r, hr, rfl⟩
    have := congrArg List.reverse (dropFront?_eq_some_iff.1 hr)
    simpa using this
  · rintro rfl
    exact ⟨rest.reverse, dropFront?_eq_some_iff.2 (by simp), by simp⟩

/-- A segment's name is the queue's, a fixed middle, the digits and a fixed end. -/
theorem segmentNumber?_eq_some_iff {queue fileName : String} {number : Nat} :
    segmentNumber? queue fileName = some number ↔
      ∃ digits, fileName.toList = queue.toList ++ ".queue.".toList ++ digits ++ ".dat".toList ∧
        Decimal.readNat digits = some number ∧ number < Word.limit := by
  simp only [segmentNumber?, bind, Option.bind_eq_some_iff, dropFront?_eq_some_iff,
    dropBack?_eq_some_iff, Option.filter_eq_some_iff, decide_eq_true_eq]
  constructor
  · rintro ⟨_, h₁, _, rfl, digits, rfl, h₄⟩
    exact ⟨digits, by simpa using h₁, h₄⟩
  · rintro ⟨digits, h, h₄⟩
    exact ⟨_, by simpa using h, _, rfl, digits, rfl, h₄⟩

theorem segmentNumber?_segmentName {queue : String} {number : Nat} (h : number < Word.limit) :
    segmentNumber? queue (segmentName queue number) = some number :=
  segmentNumber?_eq_some_iff.2
    ⟨_, by simp [segmentName], Decimal.readNat_writePadded 6 number, h⟩

theorem segmentName_inj {queue : String} {m n : Nat} :
    segmentName queue m = segmentName queue n ↔ m = n := by
  refine ⟨fun h => ?_, fun h => h ▸ rfl⟩
  have := congrArg String.toList h
  simpa [segmentName, Decimal.writePadded_inj] using this

end DurableQueue.Naming
