import DurableQueue.Text.Decimal

/-!
# Positions

A place in the sequence of segments: a segment's number and an offset in it. Positions are
ordered by segment first, so that the start of the next segment lies past every offset of
this one.
-/

namespace DurableQueue

/-- A place in the sequence of segments. -/
structure Position where
  file : Nat := 0
  offset : Nat := 0
  deriving DecidableEq, Repr

namespace Position

/-- The start of the segment after this one. -/
def nextFile (p : Position) : Position := ⟨p.file + 1, 0⟩

instance : LT Position := ⟨fun p q => p.file < q.file ∨ p.file = q.file ∧ p.offset < q.offset⟩

instance : LE Position := ⟨fun p q => p.file < q.file ∨ p.file = q.file ∧ p.offset ≤ q.offset⟩

instance (p q : Position) : Decidable (p < q) :=
  inferInstanceAs (Decidable (p.file < q.file ∨ p.file = q.file ∧ p.offset < q.offset))

instance (p q : Position) : Decidable (p ≤ q) :=
  inferInstanceAs (Decidable (p.file < q.file ∨ p.file = q.file ∧ p.offset ≤ q.offset))

/-- How two positions compare. -/
def compare (p q : Position) : Ordering := if p < q then .lt else if p = q then .eq else .gt

/-- The later of two positions. -/
def max (p q : Position) : Position := if p ≤ q then q else p

/-- The segment number and the offset, with a comma between them. -/
def text (p : Position) : List Char :=
  Text.Decimal.write p.file ++ ',' :: Text.Decimal.write p.offset

theorem lt_iff {p q : Position} :
    p < q ↔ p.file < q.file ∨ p.file = q.file ∧ p.offset < q.offset := Iff.rfl

theorem le_iff {p q : Position} :
    p ≤ q ↔ p.file < q.file ∨ p.file = q.file ∧ p.offset ≤ q.offset := Iff.rfl

theorem ext_iff' {p q : Position} : p = q ↔ p.file = q.file ∧ p.offset = q.offset := by
  cases p; cases q; simp

theorem not_lt {p q : Position} : ¬p < q ↔ q ≤ p := by
  simp only [lt_iff, le_iff]; omega

theorem le_refl (p : Position) : p ≤ p := Or.inr ⟨rfl, Nat.le_refl _⟩

theorem le_trans {p q r : Position} (hpq : p ≤ q) (hqr : q ≤ r) : p ≤ r := by
  simp only [le_iff] at *; omega

theorem le_antisymm {p q : Position} (hpq : p ≤ q) (hqp : q ≤ p) : p = q := by
  simp only [le_iff, ext_iff'] at *; omega

theorem lt_nextFile (p : Position) : p < p.nextFile := by
  simp [lt_iff, nextFile]

theorem compare_eq_lt_iff {p q : Position} : compare p q = .lt ↔ p < q := by
  unfold compare
  repeat' split
  all_goals simp_all

end Position

end DurableQueue
