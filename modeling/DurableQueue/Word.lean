/-!
# Words

Numbers that are kept in words of a fixed width: the limits of those words, and what becomes
of a count that leaves them. The limits are written out, and each is a power of two.
-/

namespace DurableQueue.Word

/-- The first number that does not fit 64 bits. -/
def limit : Nat := 18446744073709551616

/-- The first number that does not fit 64 bits of which one is a sign. -/
def signedLimit : Nat := 9223372036854775808

/-- The first number that does not fit 32 bits. -/
def smallLimit : Nat := 4294967296

example : limit = 2 ^ 64 ∧ signedLimit = 2 ^ 63 ∧ smallLimit = 2 ^ 32 := by decide

/-- A count as 64 bits with a sign hold it: past its ends it wraps around. -/
def wrap (count : Int) : Int := count.bmod limit

/-- A count that fits is held as it is. -/
theorem wrap_of_fits {count : Int} (hlo : -9223372036854775808 ≤ count)
    (hhi : count < 9223372036854775808) : wrap count = count := by
  rw [wrap, Int.bmod_eq_of_le] <;> simp only [limit] <;> omega

/-- Whatever is held fits. -/
theorem wrap_fits (count : Int) :
    -9223372036854775808 ≤ wrap count ∧ wrap count < 9223372036854775808 := by
  have hlo := Int.le_bmod (x := count) (m := limit) (by decide)
  have hhi := Int.bmod_lt (x := count) (m := limit) (by decide)
  simp only [wrap, limit] at *
  omega

end DurableQueue.Word
