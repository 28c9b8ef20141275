import Mathlib.Data.List.Basic
import Mathlib.Data.List.TakeWhile
import DurableQueue.Text.Blank
import DurableQueue.Text.Decimal

/-!
# What a number in a text is

The rules for blanks and numbers, as relations that say nothing of how a text is read: a text
is another with blanks around it (`Padded`), a run of digits spells a number (`Numeral`), and a
number that must fit a word may have a sign (`Unsigned`, `Signed`). The readers accept exactly
these and give the number spelled: `padded_trim`, `trim_of_padded`, `readNat_eq_some_iff`,
`readBelow_eq_some_iff` and `readWithin_eq_some_iff`.
-/

namespace DurableQueue.Text

variable {cs core before after rest : List Char} {c : Char}

/-- `cs` is `core` with blanks around it, and `core` neither begins nor ends with one. -/
def Padded (cs core : List Char) : Prop :=
  ∃ before after : List Char, cs = before ++ core ++ after ∧
    (∀ c ∈ before, isBlank c = true) ∧ (∀ c ∈ after, isBlank c = true) ∧
    (∀ c ∈ core.head?, isBlank c = false) ∧ ∀ c ∈ core.getLast?, isBlank c = false

theorem dropWhile_blanks_append (blank : ∀ c ∈ before, isBlank c = true)
    (head : ∀ c ∈ rest.head?, isBlank c = false) : (before ++ rest).dropWhile isBlank = rest := by
  induction before with
  | nil =>
    cases rest with
    | nil => rfl
    | cons c rest => simp [head c (by simp)]
  | cons c before ih =>
    rw [List.cons_append, List.dropWhile_cons, if_pos (blank c (by simp))]
    exact ih fun b hb => blank b (List.mem_cons_of_mem _ hb)

theorem head_dropWhile_blanks (cs : List Char) :
    ∀ c ∈ (cs.dropWhile isBlank).head?, isBlank c = false := by
  intro c hc
  have := List.head?_dropWhile_not isBlank cs
  simp only [Option.mem_def] at hc
  simpa [hc] using this

theorem trim_of_padded (padded : Padded cs core) : trim cs = core := by
  obtain ⟨before, after, rfl, blank, blank', head, last⟩ := padded
  -- blanks alone would all be dropped from the left
  by_cases empty : core = []
  · subst empty
    have all : ∀ c ∈ before ++ [] ++ after, isBlank c = true := by
      intro c hc
      simp only [List.append_nil, List.mem_append] at hc
      exact hc.elim (blank c) (blank' c)
    have none : (before ++ [] ++ after).dropWhile isBlank = [] := by
      simpa using all
    rw [trim, none]
    rfl
  · have head' : ∀ c ∈ (core ++ after).head?, isBlank c = false := by
      rwa [List.head?_append_of_ne_nil _ empty]
    rw [trim, List.append_assoc, dropWhile_blanks_append blank head', List.reverse_append,
      dropWhile_blanks_append (by simpa using blank') (by simpa using last), List.reverse_reverse]

theorem padded_trim (cs : List Char) : Padded cs (trim cs) := by
  obtain ⟨rest, rest_eq⟩ : ∃ rest, rest = cs.dropWhile isBlank := ⟨_, rfl⟩
  have front : cs = cs.takeWhile isBlank ++ rest := by
    rw [rest_eq, List.takeWhile_append_dropWhile]
  have back : rest = trim cs ++ (rest.reverse.takeWhile isBlank).reverse := by
    rw [trim, ← rest_eq, ← List.reverse_append, List.takeWhile_append_dropWhile,
      List.reverse_reverse]
  refine ⟨cs.takeWhile isBlank, (rest.reverse.takeWhile isBlank).reverse, ?_,
    fun c hc => List.mem_takeWhile_imp hc, ?_, ?_, ?_⟩
  · rw [List.append_assoc, ← back, ← front]
  · intro c hc
    exact List.mem_takeWhile_imp (List.mem_reverse.1 hc)
  · intro c hc
    have head := head_dropWhile_blanks cs
    rw [← rest_eq, back] at head
    exact head c (by rw [List.head?_append]; simp [Option.mem_def.1 hc])
  · intro c hc
    rw [trim, List.getLast?_reverse] at hc
    exact head_dropWhile_blanks _ c hc

namespace Decimal

variable {n bound : Nat}

/-- A run of digits spells a number. -/
inductive Numeral : List Char → Nat → Prop
  | digit {d : Nat} (small : d < 10) : Numeral [d.digitChar] d
  | snoc {cs : List Char} {n d : Nat} (front : Numeral cs n) (small : d < 10) :
      Numeral (cs ++ [d.digitChar]) (10 * n + d)

/-- A number below `bound`, with or without a plus sign. -/
inductive Unsigned (bound : Nat) : List Char → Nat → Prop
  | bare {cs : List Char} {n : Nat} (digits : Numeral cs n) (fits : n < bound) : Unsigned bound cs n
  | plus {cs : List Char} {n : Nat} (digits : Numeral cs n) (fits : n < bound) :
      Unsigned bound ('+' :: cs) n

/-- A whole number from `-bound` to `bound - 1`, with or without a sign. -/
inductive Signed (bound : Nat) : List Char → Int → Prop
  | unsigned {cs : List Char} {n : Nat} (number : Unsigned bound cs n) : Signed bound cs n
  | minus {cs : List Char} {n : Nat} (digits : Numeral cs n) (fits : n ≤ bound) :
      Signed bound ('-' :: cs) (-n)

theorem exists_digitChar (digit : c.isDigit = true) : ∃ d < 10, c = d.digitChar := by
  simp only [Char.isDigit, Bool.and_eq_true, decide_eq_true_eq, ge_iff_le,
    UInt32.le_iff_toNat_le] at digit
  change 48 ≤ c.toNat ∧ c.toNat ≤ 57 at digit
  refine ⟨c.toNat - 48, by omega, Char.toNat_inj.1 ?_⟩
  have value := Nat.toNat_digitChar_sub_48_of_lt_ten (n := c.toNat - 48) (by omega)
  have low : 48 ≤ (c.toNat - 48).digitChar.toNat := by
    have isDigit : (c.toNat - 48).digitChar.isDigit = true := by
      rw [Nat.isDigit_digitChar]
      exact decide_eq_true (by omega)
    simp only [Char.isDigit, Bool.and_eq_true, decide_eq_true_eq, ge_iff_le,
      UInt32.le_iff_toNat_le] at isDigit
    exact isDigit.1
  omega

theorem ofDigitChars_snoc {d : Nat} (small : d < 10) :
    Nat.ofDigitChars 10 (cs ++ [d.digitChar]) 0 = 10 * Nat.ofDigitChars 10 cs 0 + d := by
  rw [Nat.ofDigitChars_append, Nat.ofDigitChars_cons]
  exact congrArg (10 * Nat.ofDigitChars 10 cs 0 + ·) (Nat.toNat_digitChar_sub_48_of_lt_ten small)

theorem readNat_of_numeral (digits : Numeral cs n) : readNat cs = some n := by
  have isDigit : ∀ {d : Nat}, d < 10 → d.digitChar.isDigit = true := by
    intro d small
    rw [Nat.isDigit_digitChar]
    exact decide_eq_true small
  induction digits with
  | @digit d small =>
    have value : Nat.ofDigitChars 10 ([] ++ [d.digitChar]) 0 = 10 * 0 + d := ofDigitChars_snoc small
    simp only [List.nil_append, Nat.mul_zero, Nat.zero_add] at value
    simp [readNat, isDigit small, value]
  | @snoc cs n d front small ih =>
    simp only [readNat, Option.ite_none_right_eq_some, Option.some.injEq] at ih
    obtain ⟨⟨-, all⟩, value⟩ := ih
    rw [readNat, if_pos, ofDigitChars_snoc small, value]
    simpa [isDigit small] using all

theorem numeral_of_readNat (read : readNat cs = some n) : Numeral cs n := by
  -- from the last digit, which weighs least
  induction size : cs.length generalizing cs n with
  | zero => simp [readNat, List.length_eq_zero_iff.1 size] at read
  | succ k shorter =>
    simp only [readNat, Option.ite_none_right_eq_some, Option.some.injEq] at read
    obtain ⟨⟨ne, all⟩, rfl⟩ := read
    obtain ⟨front, c, rfl⟩ : ∃ front c, cs = front ++ [c] :=
      ⟨_, _, (List.dropLast_concat_getLast ne).symm⟩
    simp only [List.all_append, List.all_cons, List.all_nil, Bool.and_true, Bool.and_eq_true] at all
    obtain ⟨d, small, rfl⟩ := exists_digitChar all.2
    rw [ofDigitChars_snoc small]
    by_cases empty : front = []
    · subst empty
      simpa using Numeral.digit small
    · exact .snoc (shorter (by rw [readNat, if_pos ⟨empty, all.1⟩]) (by simpa using size)) small

theorem readNat_eq_some_iff : readNat cs = some n ↔ Numeral cs n :=
  ⟨numeral_of_readNat, readNat_of_numeral⟩

theorem Numeral.isDigit (digits : Numeral cs n) : ∀ c ∈ cs, c.isDigit = true := by
  have read := readNat_of_numeral digits
  simp only [readNat, Option.ite_none_right_eq_some] at read
  exact List.all_eq_true.1 read.1.2

/-- A run of digits does not begin with a sign. -/
theorem Numeral.not_sign {sign : Char} (digits : Numeral (sign :: rest) n)
    (other : sign.isDigit = false) : False := by
  have := digits.isDigit sign (by simp)
  rw [other] at this
  cases this

theorem readBelow_eq_some_iff : readBelow bound cs = some n ↔ Unsigned bound cs n := by
  simp only [readBelow, Option.filter_eq_some_iff, decide_eq_true_eq, readNat_eq_some_iff]
  constructor
  · rintro ⟨digits, fits⟩
    split at digits
    · exact .plus digits fits
    · exact .bare digits fits
  · intro number
    cases number with
    | bare digits fits =>
      refine ⟨?_, fits⟩
      split
      · exact (digits.not_sign (by decide)).elim
      · exact digits
    | plus digits fits => exact ⟨digits, fits⟩

theorem readWithin_eq_some_iff {n : Int} : readWithin bound cs = some n ↔ Signed bound cs n := by
  constructor
  · intro read
    unfold readWithin at read
    split at read
    · next rest =>
      simp only [Option.map_eq_some_iff, bind, pure, Option.bind_eq_some_iff,
        Option.filter_eq_some_iff, Option.some.injEq, decide_eq_true_eq, readNat_eq_some_iff] at read
      obtain ⟨_, ⟨m, ⟨digits, fits⟩, rfl⟩, rfl⟩ := read
      exact .minus digits fits
    · obtain ⟨m, number, rfl⟩ := Option.map_eq_some_iff.1 read
      exact .unsigned (readBelow_eq_some_iff.1 number)
  · intro number
    cases number with
    | @unsigned _ m number =>
      have read := readBelow_eq_some_iff.2 number
      unfold readWithin
      split
      · next rest =>
        cases number with
        | bare digits fits => exact (digits.not_sign (by decide)).elim
      · rw [read]
        rfl
    | @minus rest m digits fits =>
      rw [readWithin, readNat_of_numeral digits, Option.filter_some, decide_eq_true fits, if_pos rfl]
      rfl

end Decimal

end DurableQueue.Text
