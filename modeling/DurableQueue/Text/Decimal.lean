/-!
# Decimal numbers

Numbers as decimal digits. A natural number is written without leading zeros, or filled
with them to a least width; it is read from any run of digits, and `readNat (write n)` gives
`n` back. Whole numbers are written with a minus sign when they are negative. The readers
for numbers that must fit a word also take a plus sign and refuse what does not fit.
-/

namespace DurableQueue.Text.Decimal

/-- The digits of a number. -/
def write (n : Nat) : List Char := Nat.toDigits 10 n

/-- The digits of a number, filled from the left with zeros to at least `width`. -/
def writePadded (width n : Nat) : List Char := (write n).leftpad width '0'

/-- The digits of a whole number, after a minus sign if it is negative. -/
def writeInt : Int → List Char
  | .ofNat n => write n
  | .negSucc n => '-' :: write (n + 1)

/-- The number that a run of at least one digit spells. -/
def readNat (cs : List Char) : Option Nat :=
  if cs ≠ [] ∧ cs.all Char.isDigit then some (Nat.ofDigitChars 10 cs 0) else none

/-- A number below `bound`, with or without a plus sign. -/
def readBelow (bound : Nat) (cs : List Char) : Option Nat :=
  let digits := match cs with
    | '+' :: rest => rest
    | cs => cs
  (readNat digits).filter (· < bound)

/-- A whole number from `-bound` to `bound - 1`, with or without a sign. -/
def readWithin (bound : Nat) (cs : List Char) : Option Int :=
  match cs with
  | '-' :: rest => ((readNat rest).filter (· ≤ bound)).map fun n => -(n : Int)
  | cs => (readBelow bound cs).map Int.ofNat

theorem write_ne_nil (n : Nat) : write n ≠ [] := Nat.toDigits_ne_nil

theorem isDigit_of_mem_write {n : Nat} {c : Char} (h : c ∈ write n) : c.isDigit = true :=
  Nat.isDigit_of_mem_toDigits (by decide) (by decide) h

theorem readNat_write (n : Nat) : readNat (write n) = some n := by
  rw [readNat, if_pos ⟨write_ne_nil n, List.all_eq_true.2 fun c h => isDigit_of_mem_write h⟩,
    write, Nat.ofDigitChars_ten_toDigits]

theorem readNat_writePadded (width n : Nat) : readNat (writePadded width n) = some n := by
  have hne : writePadded width n ≠ [] := by simp [writePadded, List.leftpad, write_ne_nil]
  have hdigit : (writePadded width n).all Char.isDigit = true := by
    simp only [writePadded, List.leftpad, List.all_append, Bool.and_eq_true, List.all_eq_true]
    exact ⟨fun c hc => by rw [(List.mem_replicate.1 hc).2]; decide,
      fun c h => isDigit_of_mem_write h⟩
  rw [readNat, if_pos ⟨hne, hdigit⟩, writePadded, List.leftpad, Nat.ofDigitChars_append,
    Nat.ofDigitChars_replicate_zero, Nat.mul_zero, write, Nat.ofDigitChars_ten_toDigits]

theorem writePadded_inj {width m n : Nat} : writePadded width m = writePadded width n ↔ m = n :=
  ⟨fun h => by simpa [readNat_writePadded] using congrArg readNat h, fun h => h ▸ rfl⟩

end DurableQueue.Text.Decimal
