import DurableQueue.Record

/-!
# Reading a record back

The text of a record is read back as the record (`parse_text`), for every record whose numbers
fit the words that they are kept in. Nothing in it is a blank, a line end or a second comma, so
each line comes back whole, and so do both halves of a position.
-/

namespace DurableQueue

open Text

/-- A character of a number or a position. -/
def Record.Solid (c : Char) : Prop := c.isDigit = true ∨ c = '-' ∨ c = ','

namespace Text

theorem cutLines_line {α : Type} [DecidableEq α] {feed : α} {line rest : List α}
    (whole : feed ∉ line) :
    cutLines feed (line ++ feed :: rest) =
      (line :: (cutLines feed rest).1, (cutLines feed rest).2) := by
  induction line with
  | nil => simp [cutLines]
  | cons c line ih =>
    have head : c ≠ feed := fun e => whole (by simp [e])
    have tail := ih fun h => whole (List.mem_cons_of_mem _ h)
    simp only [List.cons_append, cutLines, tail, if_neg head]

theorem dropReturn_of_not_mem {α : Type} [DecidableEq α] {ret : α} {line : List α}
    (whole : ret ∉ line) : dropReturn ret line = line := by
  rw [dropReturn, if_neg]
  intro last
  exact whole (List.mem_of_getLast? last)

namespace Decimal

theorem isDigit_of_mem_writeInt {n : Int} {c : Char} (h : c ∈ writeInt n) :
    c.isDigit = true ∨ c = '-' := by
  cases n with
  | ofNat n => exact Or.inl (isDigit_of_mem_write h)
  | negSucc n =>
    rcases List.mem_cons.1 h with sign | digit
    · exact Or.inr sign
    · exact Or.inl (isDigit_of_mem_write digit)

/-- A run of digits does not begin with a sign. -/
theorem write_not_sign (n : Nat) {sign : Char} (other : sign.isDigit = false) (rest : List Char) :
    write n ≠ sign :: rest := by
  intro e
  have digit : sign.isDigit = true := isDigit_of_mem_write (n := n) (by simp [e])
  rw [other] at digit
  cases digit

theorem readBelow_write {bound n : Nat} (fits : n < bound) : readBelow bound (write n) = some n := by
  have digits := readNat_write n
  unfold readBelow
  split
  · next rest e => exact absurd e (write_not_sign n (by decide) rest)
  · simp only [digits, Option.filter_some, decide_eq_true fits, if_true]

theorem readWithin_writeInt {bound : Nat} {n : Int} (low : -(bound : Int) ≤ n) (high : n < bound) :
    readWithin bound (writeInt n) = some n := by
  cases n with
  | ofNat n =>
    have fits : n < bound := Int.ofNat_lt.1 high
    rw [writeInt, readWithin]
    · rw [readBelow_write fits]
      rfl
    · exact write_not_sign n (by decide)
  | negSucc n =>
    have fits : n + 1 ≤ bound := by omega
    rw [writeInt, readWithin, readNat_write, Option.filter_some, decide_eq_true fits, if_pos rfl]
    rfl

end Decimal

end Text

/-- A position whose numbers fit unsigned words. -/
def Position.InWords (p : Position) : Prop := p.file < Word.limit ∧ p.offset < Word.limit

theorem Position.solid_text (p : Position) : ∀ c ∈ p.text, Record.Solid c := by
  intro c hc
  rcases List.mem_append.1 hc with file | rest
  · exact Or.inl (Decimal.isDigit_of_mem_write file)
  · rcases List.mem_cons.1 rest with comma | offset
    · exact Or.inr (Or.inr comma)
    · exact Or.inl (Decimal.isDigit_of_mem_write offset)

namespace Record

/-- A record whose numbers fit the words that they are kept in. -/
structure InWords (r : Record) : Prop where
  low : -(Word.signedLimit : Int) ≤ r.length
  high : r.length < Word.signedLimit
  read : r.read.InWords
  write : r.write.InWords

variable {line : List Char}

theorem Solid.not_blank {c : Char} (h : Solid c) : isBlank c = false := by
  rcases h with digit | rfl | rfl
  · simp only [Char.isDigit, Bool.and_eq_true, decide_eq_true_eq, ge_iff_le,
      UInt32.le_iff_toNat_le] at digit
    change 48 ≤ c.toNat ∧ c.toNat ≤ 57 at digit
    simp only [isBlank, blankRanges, List.any_cons, List.any_nil, Bool.or_false, Bool.or_eq_false_iff,
      Bool.and_eq_false_iff, decide_eq_false_iff_not]
    omega
  · decide
  · decide

theorem trim_of_solid (solid : ∀ c ∈ line, Solid c) : trim line = line := by
  apply trim_eq_self
  · intro c hc
    exact (solid c (List.mem_of_head? hc)).not_blank
  · intro c hc
    exact (solid c (List.mem_of_getLast? hc)).not_blank

theorem not_mem_of_solid {c : Char} (solid : ∀ c ∈ line, Solid c) (blank : isBlank c = true) :
    c ∉ line := by
  intro there
  rw [(solid c there).not_blank] at blank
  cases blank

theorem solid_writeInt (n : Int) : ∀ c ∈ Decimal.writeInt n, Solid c := by
  intro c hc
  rcases Decimal.isDigit_of_mem_writeInt hc with digit | sign
  · exact Or.inl digit
  · exact Or.inr (Or.inl sign)

theorem splitAtComma_append {front back : List Char} (whole : ',' ∉ front) :
    splitAtComma (front ++ ',' :: back) = some (front, back) := by
  induction front with
  | nil => simp [splitAtComma]
  | cons c front ih =>
    have head : c ≠ ',' := fun e => whole (by simp [e])
    have tail := ih fun h => whole (List.mem_cons_of_mem _ h)
    simp only [splitAtComma, List.cons_append, List.dropWhile_cons, List.takeWhile_cons, head,
      ne_eq, not_false_eq_true, decide_true, if_true] at tail ⊢
    split at tail
    · cases tail
    · next e =>
      simp only [Option.some.injEq, Prod.mk.injEq] at tail
      rw [tail.1, tail.2]

theorem parseLength_writeInt {n : Int} (low : -(Word.signedLimit : Int) ≤ n)
    (high : n < Word.signedLimit) : parseLength (Decimal.writeInt n) = some n := by
  rw [parseLength, trim_of_solid (solid_writeInt n)]
  exact Decimal.readWithin_writeInt low high

theorem parsePosition_text {p : Position} (fits : p.InWords) : parsePosition p.text = some p := by
  have digits : ∀ n : Nat, ∀ c ∈ Decimal.write n, Solid c := fun n c hc =>
    Or.inl (Decimal.isDigit_of_mem_write hc)
  have comma : ',' ∉ Decimal.write p.file := by
    intro there
    have := Decimal.isDigit_of_mem_write there
    revert this
    decide
  rw [parsePosition, trim_of_solid p.solid_text, Position.text, splitAtComma_append comma]
  simp only [bind, Option.bind, trim_of_solid (digits _), Decimal.readBelow_write fits.1,
    Decimal.readBelow_write fits.2]
  rfl

/-- Whatever is read fits the words that it is kept in. -/
theorem inWords_of_parse {s : String} {r : Record} (parsed : parse s = .ok r) : r.InWords := by
  have below : ∀ {bound n : Nat} {cs : List Char}, Decimal.readBelow bound cs = some n → n < bound := by
    intro bound n cs read
    simpa using (Option.filter_eq_some_iff.1 read).2
  have position : ∀ {line : List Char} {p : Position}, parsePosition line = some p → p.InWords := by
    intro line p read
    simp only [parsePosition, bind, Option.bind_eq_some_iff] at read
    obtain ⟨⟨file, offset⟩, -, f, file_eq, o, offset_eq, made⟩ := read
    cases made
    exact ⟨below file_eq, below offset_eq⟩
  have length : ∀ {line : List Char} {n : Int}, parseLength line = some n →
      -(Word.signedLimit : Int) ≤ n ∧ n < Word.signedLimit := by
    intro line n read
    unfold parseLength Decimal.readWithin at read
    split at read
    · simp only [Option.map_eq_some_iff, bind, pure, Option.bind_eq_some_iff,
        Option.filter_eq_some_iff, Option.some.injEq] at read
      obtain ⟨_, ⟨m, ⟨-, small⟩, rfl⟩, rfl⟩ := read
      have small : m ≤ Word.signedLimit := by simpa using small
      simp only [Word.signedLimit] at small ⊢
      omega
    · obtain ⟨m, m_eq, rfl⟩ := Option.map_eq_some_iff.1 read
      have small := below m_eq
      simp only [Word.signedLimit, Int.ofNat_eq_natCast] at small ⊢
      omega
  obtain ⟨rows, rows_eq⟩ : ∃ rows, rows = lines '\n' '\r' s.toList := ⟨_, rfl⟩
  unfold parse at parsed
  simp only [← rows_eq] at parsed
  split at parsed
  · cases parsed
  · next n first =>
    split at parsed
    · cases parsed
    · next read second =>
      split at parsed
      · cases parsed
      · next write third =>
        cases parsed
        obtain ⟨_, _, n_eq⟩ := Option.bind_eq_some_iff.1 first
        obtain ⟨_, _, read_eq⟩ := Option.bind_eq_some_iff.1 second
        obtain ⟨_, _, write_eq⟩ := Option.bind_eq_some_iff.1 third
        exact ⟨(length n_eq).1, (length n_eq).2, position read_eq, position write_eq⟩

/-- **A record is read back as it was written.** -/
theorem parse_text {r : Record} (fits : r.InWords) : parse r.text = .ok r := by
  have feed : isBlank '\n' = true := by decide
  have ret : isBlank '\r' = true := by decide
  have length := solid_writeInt r.length
  have read := r.read.solid_text
  have write := r.write.solid_text
  have rows : lines '\n' '\r' r.text.toList =
      [Decimal.writeInt r.length, r.read.text, r.write.text] := by
    have text : r.text.toList = Decimal.writeInt r.length ++ '\n' ::
        (r.read.text ++ '\n' :: (r.write.text ++ '\n' :: [])) := by
      simp [Record.text]
    rw [lines, text, cutLines_line (not_mem_of_solid length feed),
      cutLines_line (not_mem_of_solid read feed), cutLines_line (not_mem_of_solid write feed)]
    simp [cutLines, dropReturn_of_not_mem (not_mem_of_solid length ret),
      dropReturn_of_not_mem (not_mem_of_solid read ret),
      dropReturn_of_not_mem (not_mem_of_solid write ret)]
  rw [parse, rows]
  simp only [List.getElem?_cons_zero, List.getElem?_cons_succ, Option.bind_some,
    parseLength_writeInt fits.low fits.high, parsePosition_text fits.read,
    parsePosition_text fits.write]

end Record

end DurableQueue
