import Mathlib.Algebra.Group.Nat.Defs
import DurableQueue.Proofs.Text.Numeral

/-!
# Numbers filled with zeros

A run of digits spells one number, but many runs spell the same one, since zeros may stand before it.
`Filled` says how many zeros there are: as many as the width asks for. Of the runs that spell a number
one is filled to a width (`Numeral.eq_of_filled`), and it is the one that is written
(`writePadded_eq_iff`).
-/

namespace DurableQueue.Text.Decimal

variable {cs cs' : List Char} {n width : Nat}

/-- A run of digits is as long as the width, or it is longer and does not begin with a zero. -/
def Filled (width : Nat) (cs : List Char) : Prop :=
  cs.length = width ∨ width < cs.length ∧ cs.head? ≠ some '0'

instance (width : Nat) (cs : List Char) : Decidable (Filled width cs) :=
  inferInstanceAs (Decidable (cs.length = width ∨ width < cs.length ∧ cs.head? ≠ some '0'))

theorem Numeral.ne_nil (digits : Numeral cs n) : cs ≠ [] := by
  cases digits <;> simp

theorem Numeral.lt_pow (digits : Numeral cs n) : n < 10 ^ cs.length := by
  induction digits with
  | digit small => simpa using small
  | snoc front small ih =>
    rw [List.length_append, List.length_singleton, Nat.pow_succ]
    omega

/-- A number weighs as much as its digits do, if the first of them is not a zero. -/
theorem Numeral.pow_le (digits : Numeral cs n) (head : cs.head? ≠ some '0') :
    10 ^ (cs.length - 1) ≤ n := by
  induction digits with
  | @digit d small =>
    have some_ : d ≠ 0 := by
      rintro rfl
      exact head rfl
    simpa [Nat.one_le_iff_ne_zero] using some_
  | @snoc cs n d front small ih =>
    have long : cs.length - 1 + 1 = cs.length := by
      have := List.length_pos_of_ne_nil front.ne_nil
      omega
    have weighs := ih (by rwa [List.head?_append_of_ne_nil _ front.ne_nil] at head)
    calc 10 ^ ((cs ++ [d.digitChar]).length - 1)
        = 10 ^ (cs.length - 1 + 1) := by rw [List.length_append, List.length_singleton, long]; rfl
      _ = 10 * 10 ^ (cs.length - 1) := by rw [Nat.pow_succ, Nat.mul_comm]
      _ ≤ 10 * n + d := by omega

/-- Two runs of one length that spell the same number are the same. -/
theorem Numeral.eq_of_length (digits : Numeral cs n) (digits' : Numeral cs' n)
    (length : cs.length = cs'.length) : cs = cs' := by
  -- both runs are taken apart from the last digit on
  induction digits generalizing cs' with
  | digit small =>
    cases digits' with
    | digit small' => rfl
    | snoc front' small' =>
      have := List.length_pos_of_ne_nil front'.ne_nil
      simp only [List.length_append, List.length_singleton] at length
      omega
  | @snoc cs n d front small ih =>
    generalize value : 10 * n + d = m at digits'
    cases digits' with
    | digit small' =>
      have := List.length_pos_of_ne_nil front.ne_nil
      simp only [List.length_append, List.length_singleton] at length
      omega
    | @snoc cs' n' d' front' small' =>
      obtain ⟨rfl, rfl⟩ : n = n' ∧ d = d' := by omega
      rw [ih front' (by simpa using length)]

theorem Numeral.length_le_of_filled (digits : Numeral cs n) (digits' : Numeral cs' n)
    (filled : Filled width cs) (filled' : Filled width cs') : cs.length ≤ cs'.length := by
  rcases filled with full | ⟨-, head⟩
  · rcases filled' with full' | ⟨longer, -⟩ <;> omega
  · have between : 10 ^ (cs.length - 1) < 10 ^ cs'.length :=
      Nat.lt_of_le_of_lt (digits.pow_le head) digits'.lt_pow
    have := (Nat.pow_lt_pow_iff_right (by decide)).1 between
    omega

/-- **One run of digits spells a number and is filled to a width.** -/
theorem Numeral.eq_of_filled (digits : Numeral cs n) (digits' : Numeral cs' n)
    (filled : Filled width cs) (filled' : Filled width cs') : cs = cs' :=
  digits.eq_of_length digits' (Nat.le_antisymm (digits.length_le_of_filled digits' filled filled')
    (digits'.length_le_of_filled digits filled' filled))

/-- A zero in front changes nothing. -/
theorem Numeral.of_zero_cons (digits : Numeral ('0' :: cs) n) (more : cs ≠ []) : Numeral cs n := by
  rw [← readNat_eq_some_iff] at digits ⊢
  simp only [readNat, Option.ite_none_right_eq_some, List.all_cons, Bool.and_eq_true] at digits ⊢
  obtain ⟨⟨-, -, all⟩, value⟩ := digits
  exact ⟨⟨more, all⟩, by simpa [Nat.ofDigitChars_cons] using value⟩

/-- No number of two digits or more is written with a zero in front. -/
theorem head_write (long : 1 < (write n).length) : (write n).head? ≠ some '0' := by
  intro zero
  obtain ⟨rest, cut⟩ := List.head?_eq_some_iff.1 zero
  have length : (write n).length = rest.length + 1 := by rw [cut, List.length_cons]
  have spelt : Numeral rest n := by
    have digits := numeral_of_readNat (readNat_write n)
    rw [cut] at digits
    exact digits.of_zero_cons (List.ne_nil_of_length_pos (by omega))
  have short := (Nat.length_toDigits_le_iff (b := 10) (n := n) (k := rest.length) (by decide)
    (by omega)).2 spelt.lt_pow
  rw [write] at length
  omega

theorem filled_writePadded (pos : 0 < width) (n : Nat) : Filled width (writePadded width n) := by
  rw [writePadded, List.leftpad]
  by_cases short : (write n).length ≤ width
  · left
    rw [List.length_append, List.length_replicate]
    omega
  · right
    have none : width - (write n).length = 0 := by omega
    rw [none, List.replicate_zero, List.nil_append]
    exact ⟨by omega, head_write (by omega)⟩

/-- **What is written of a number is the run of digits that spells it and is filled to the width.** -/
theorem writePadded_eq_iff (pos : 0 < width) :
    writePadded width n = cs ↔ Numeral cs n ∧ Filled width cs := by
  have spelt : Numeral (writePadded width n) n := numeral_of_readNat (readNat_writePadded width n)
  constructor
  · rintro rfl
    exact ⟨spelt, filled_writePadded pos n⟩
  · rintro ⟨digits, filled⟩
    exact spelt.eq_of_filled digits (filled_writePadded pos n) filled

end DurableQueue.Text.Decimal
