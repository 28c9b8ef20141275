import DurableQueue.Proofs.Record.RoundTrip
import DurableQueue.Proofs.Text.Lined
import DurableQueue.Proofs.Text.Numeral
import DurableQueue.Record.Store

/-!
# Which texts are records

The rule for the text of a record, as a relation that says nothing of how it is read: the first
three lines hold the number and the two positions (`Holds`), and a text of which this is not so
has a first line that is missing or malformed (`Lacks`). `text_reads_back` says that a text is
read as a record exactly by this rule, that the flaw of any other text is the one the rule
names, and that a record that was read is written as a text that is read as the same record.
-/

namespace DurableQueue.Record

open Text
open FileSystem (Disk)

variable {line : List Char} {rows : List (List Char)} {s : String} {r : Record} {flaw : Flaw}

/-- A line that holds a number of messages. -/
def HoldsLength (line : List Char) (length : Int) : Prop :=
  ∃ number : List Char, Padded line number ∧ Decimal.Signed Word.signedLimit number length

/-- A line that holds a position: a number before its first comma and another after it. -/
def HoldsPosition (line : List Char) (p : Position) : Prop :=
  ∃ front back file offset : List Char,
    Padded line (front ++ ',' :: back) ∧ ',' ∉ front ∧
    Padded front file ∧ Decimal.Unsigned Word.limit file p.file ∧
    Padded back offset ∧ Decimal.Unsigned Word.limit offset p.offset

/-- A text that holds a record. Lines after the third do not matter. -/
def Holds (s : String) (r : Record) : Prop :=
  ∃ first second third others,
    Lined '\n' '\r' s.toList (first :: second :: third :: others) ∧
    HoldsLength first r.length ∧ HoldsPosition second r.read ∧ HoldsPosition third r.write

/-- The first of three rows that is missing or malformed. -/
inductive FirstBad (rows : List (List Char)) : Flaw → Prop
  | length (bad : ∀ line ∈ rows[0]?, ∀ n, ¬HoldsLength line n) : FirstBad rows .length
  | read {first : List Char} {n : Int} (there : first ∈ rows[0]?) (length : HoldsLength first n)
      (bad : ∀ line ∈ rows[1]?, ∀ p, ¬HoldsPosition line p) : FirstBad rows .read
  | write {first second : List Char} {n : Int} {p : Position}
      (there : first ∈ rows[0]?) (length : HoldsLength first n)
      (there' : second ∈ rows[1]?) (read : HoldsPosition second p)
      (bad : ∀ line ∈ rows[2]?, ∀ p, ¬HoldsPosition line p) : FirstBad rows .write

/-- A text that holds no record, and what it lacks first. -/
def Lacks (s : String) (flaw : Flaw) : Prop :=
  ∃ rows, Lined '\n' '\r' s.toList rows ∧ FirstBad rows flaw

theorem splitAtComma_eq_some_iff {cs front back : List Char} :
    splitAtComma cs = some (front, back) ↔ cs = front ++ ',' :: back ∧ ',' ∉ front := by
  constructor
  · intro split
    unfold splitAtComma at split
    have whole := List.takeWhile_append_dropWhile (p := (· ≠ ',')) (l := cs)
    split at split
    · cases split
    · next comma rest rest_eq =>
      cases split
      have isComma : comma = ',' := by
        have := List.head?_dropWhile_not (fun c : Char => decide (c ≠ ',')) cs
        rw [rest_eq] at this
        simpa using this
      subst isComma
      refine ⟨by rw [← rest_eq, whole], fun there => ?_⟩
      simpa using List.mem_takeWhile_imp there
  · rintro ⟨rfl, whole⟩
    exact splitAtComma_append whole

theorem parseLength_eq_some_iff {n : Int} : parseLength line = some n ↔ HoldsLength line n := by
  rw [parseLength, Decimal.readWithin_eq_some_iff]
  constructor
  · intro number
    exact ⟨_, padded_trim line, number⟩
  · rintro ⟨number, padded, signed⟩
    rwa [trim_of_padded padded]

theorem parsePosition_eq_some_iff {p : Position} :
    parsePosition line = some p ↔ HoldsPosition line p := by
  simp only [parsePosition, bind, pure, Option.bind_eq_some_iff, Decimal.readBelow_eq_some_iff,
    Prod.exists, splitAtComma_eq_some_iff, Option.some.injEq]
  constructor
  · rintro ⟨front, back, ⟨cut, whole⟩, file, file_eq, offset, offset_eq, rfl⟩
    exact ⟨front, back, _, _, cut ▸ padded_trim line, whole, padded_trim front, file_eq,
      padded_trim back, offset_eq⟩
  · rintro ⟨front, back, file, offset, padded, whole, frontPadded, file_eq, backPadded, offset_eq⟩
    refine ⟨front, back, ⟨trim_of_padded padded, whole⟩, p.file, ?_, p.offset, ?_, rfl⟩
    · rwa [trim_of_padded frontPadded]
    · rwa [trim_of_padded backPadded]

/-- A row that is missing or malformed is one that nothing is read from. -/
theorem bind_eq_none_iff {α : Type} {row : Option (List Char)} {read : List Char → Option α}
    {Held : List Char → α → Prop} (reads : ∀ line a, read line = some a ↔ Held line a) :
    row.bind read = none ↔ ∀ line ∈ row, ∀ a, ¬Held line a := by
  simp only [Option.bind_eq_none_iff, Option.mem_def, ← reads]
  refine forall₂_congr fun line _ => ?_
  rw [Option.eq_none_iff_forall_ne_some]

theorem parse_eq_ok_iff : parse s = .ok r ↔ Holds s r := by
  obtain ⟨rows, rows_eq⟩ : ∃ rows, rows = lines '\n' '\r' s.toList := ⟨_, rfl⟩
  have parsed : parse s = .ok r ↔ rows[0]?.bind parseLength = some r.length ∧
      rows[1]?.bind parsePosition = some r.read ∧ rows[2]?.bind parsePosition = some r.write := by
    rw [parse, ← rows_eq]
    cases rows[0]?.bind parseLength <;> cases rows[1]?.bind parsePosition <;>
      cases rows[2]?.bind parsePosition <;> cases r <;> simp
  simp only [parsed, Holds, lined_iff (show '\n' ≠ '\r' by decide), ← rows_eq,
    Option.bind_eq_some_iff, parseLength_eq_some_iff, parsePosition_eq_some_iff]
  constructor
  · rintro ⟨⟨first, first_eq, length⟩, ⟨second, second_eq, read⟩, third, third_eq, write⟩
    refine ⟨first, second, third, rows.drop 3, ?_, length, read, write⟩
    apply List.ext_getElem?
    intro i
    rcases i with _ | _ | _ | i
    · exact first_eq
    · exact second_eq
    · exact third_eq
    · simp only [List.getElem?_cons_succ, List.getElem?_drop, Nat.add_comm 3]
  · rintro ⟨first, second, third, others, rows_eq, length, read, write⟩
    subst rows_eq
    exact ⟨⟨first, rfl, length⟩, ⟨second, rfl, read⟩, third, rfl, write⟩

theorem parse_eq_error_iff : parse s = .error flaw ↔ Lacks s flaw := by
  obtain ⟨rows, rows_eq⟩ : ∃ rows, rows = lines '\n' '\r' s.toList := ⟨_, rfl⟩
  have parsed : parse s = .error flaw ↔
      (flaw = .length ∧ rows[0]?.bind parseLength = none) ∨
      (flaw = .read ∧ (∃ n, rows[0]?.bind parseLength = some n) ∧
        rows[1]?.bind parsePosition = none) ∨
      (flaw = .write ∧ (∃ n, rows[0]?.bind parseLength = some n) ∧
        (∃ p, rows[1]?.bind parsePosition = some p) ∧ rows[2]?.bind parsePosition = none) := by
    rw [parse, ← rows_eq]
    cases rows[0]?.bind parseLength <;> cases rows[1]?.bind parsePosition <;>
      cases rows[2]?.bind parsePosition <;> simp [eq_comm]
  simp only [parsed, Lacks, lined_iff (show '\n' ≠ '\r' by decide), ← rows_eq, exists_eq_left',
    bind_eq_none_iff (fun _ _ => parseLength_eq_some_iff),
    bind_eq_none_iff (fun _ _ => parsePosition_eq_some_iff), Option.bind_eq_some_iff,
    parseLength_eq_some_iff, parsePosition_eq_some_iff]
  constructor
  · rintro (⟨rfl, bad⟩ | ⟨rfl, ⟨n, first, there, length⟩, bad⟩ |
      ⟨rfl, ⟨n, first, there, length⟩, ⟨p, second, there', read⟩, bad⟩)
    · exact .length bad
    · exact .read there length bad
    · exact .write there length there' read bad
  · rintro (bad | ⟨there, length, bad⟩ | ⟨there, length, there', read, bad⟩)
    · exact Or.inl ⟨rfl, bad⟩
    · exact Or.inr (Or.inl ⟨rfl, ⟨_, _, there, length⟩, bad⟩)
    · exact Or.inr (Or.inr ⟨rfl, ⟨_, _, there, length⟩, ⟨_, _, there', read⟩, bad⟩)

/-- What a text that is read from a file is taken for. -/
theorem load_of_readFile {d d' : Disk} {path : String}
    (bytes : d.readFile path = (.ok (encode s), d')) :
    load d path =
      ((match parse s with
        | .error flaw => .error (.recordCorrupt path flaw.reason)
        | .ok r => .ok (some r)), d') := by
  rw [load, bytes]
  simp only [decode_encode]
  cases parse s <;> rfl

/-- **The text of a record and its reader agree.** A record whose numbers fit their words is
read back from its text. Any text is read as a record exactly if its first three lines hold
one, and as that one; otherwise the error names the first of them that is missing or malformed,
also when the text stands in a file. What was read is written as a text that is read as the
same record. -/
theorem text_reads_back :
    (∀ r : Record, r.InWords → parse r.text = .ok r) ∧
    (∀ s r, parse s = .ok r ↔ Holds s r) ∧
    (∀ s flaw, parse s = .error flaw ↔ Lacks s flaw) ∧
    (∀ s r, parse s = .ok r → r.InWords ∧ parse r.text = .ok r) ∧
    ∀ (d d' : Disk) (path s : String), d.readFile path = (.ok (encode s), d') →
      load d path =
        ((match parse s with
          | .error flaw => .error (.recordCorrupt path flaw.reason)
          | .ok r => .ok (some r)), d') :=
  ⟨fun _ fits => parse_text fits, fun _ _ => parse_eq_ok_iff, fun _ _ => parse_eq_error_iff,
    fun _ _ parsed => ⟨inWords_of_parse parsed, parse_text (inWords_of_parse parsed)⟩,
    fun _ _ _ _ bytes => load_of_readFile bytes⟩

/-- A record with the least length and the greatest offset, and a text of it with blanks, a
plus sign, a carriage return and a fourth line. -/
theorem text_reads_back_widest :
    let r : Record := ⟨-9223372036854775808, ⟨0, 7⟩, ⟨0, 18446744073709551615⟩⟩
    let s := " -9223372036854775808 \r\n0,+7\n0 , 18446744073709551615\n4"
    let d : Disk := { tree := ⟨[([.text "q"], .file 0)], #[⟨encode s, 0⟩]⟩ }
    r.InWords ∧ parse r.text = .ok r ∧ parse s = .ok r ∧ Holds s r ∧
      (d.readFile "q").1 = .ok (encode s) ∧ (load d "q").1 = .ok (some r) := by
  intro r s d
  have fits : r.InWords := by
    constructor <;> first | decide | constructor <;> decide
  have parsed : parse s = .ok r := by decide +kernel
  have bytes : (d.readFile "q").1 = .ok (encode s) := by decide +kernel
  have written := text_reads_back.2.2.2.1 s r parsed
  have loaded := text_reads_back.2.2.2.2 d (d.readFile "q").2 "q" s (Prod.ext bytes rfl)
  rw [parsed] at loaded
  exact ⟨fits, text_reads_back.1 r fits, parsed, (text_reads_back.2.1 s r).1 parsed, bytes,
    by rw [loaded]⟩

end DurableQueue.Record
