import DurableQueue.Position
import DurableQueue.Text.Blank
import DurableQueue.Text.Encoding
import DurableQueue.Text.Lines
import DurableQueue.Word

/-!
# The record of a queue

What a queue keeps beside its segments: how many messages wait, and where the next is read
and written. It is stored as three lines of text, the number and then the two positions,

    3
    0,18
    2,7

and read back more freely than it is written: blanks around a number, a plus sign, carriage
returns and further lines do not matter.
-/

namespace DurableQueue

/-- The state that a queue keeps on disk. -/
structure Record where
  length : Int := 0
  read : Position := {}
  write : Position := {}
  deriving DecidableEq, Repr

namespace Record

open Text

/-- The first line of a record that is missing or malformed. -/
inductive Flaw where
  | length
  | read
  | write
  deriving DecidableEq, Repr

/-- What a flaw is called. -/
def Flaw.reason : Flaw → String
  | length => "missing or malformed length"
  | read => "missing or malformed read position"
  | write => "missing or malformed write position"

/-- The text of a record. -/
def text (r : Record) : String :=
  String.ofList (Decimal.writeInt r.length ++ '\n' :: r.read.text ++ '\n' :: r.write.text ++ ['\n'])

/-- The number that a line holds. -/
def parseLength (line : List Char) : Option Int := Decimal.readWithin Word.signedLimit (trim line)

/-- `cs` before and after its first comma. -/
def splitAtComma (cs : List Char) : Option (List Char × List Char) :=
  match cs.dropWhile (· ≠ ',') with
  | [] => none
  | _ :: rest => some (cs.takeWhile (· ≠ ','), rest)

/-- The position that a line holds. -/
def parsePosition (line : List Char) : Option Position := do
  let (file, offset) ← splitAtComma (trim line)
  return ⟨← Decimal.readBelow Word.limit (trim file),
    ← Decimal.readBelow Word.limit (trim offset)⟩

/-- The record that a text holds. -/
def parse (s : String) : Except Flaw Record :=
  let rows := lines '\n' '\r' s.toList
  match rows[0]?.bind parseLength with
  | none => .error .length
  | some length =>
    match rows[1]?.bind parsePosition with
    | none => .error .read
    | some read =>
      match rows[2]?.bind parsePosition with
      | none => .error .write
      | some write => .ok { length, read, write }

end Record

end DurableQueue
