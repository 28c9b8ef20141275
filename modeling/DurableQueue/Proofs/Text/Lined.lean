import DurableQueue.Proofs.Record.RoundTrip

/-!
# What the lines of an input are

The rule for lines, as a relation between an input and its rows (`Lined`) that says nothing of
how they are cut: a row is closed by a line feed, with or without a carriage return before it,
or it is what stands after the last line feed. Every input has exactly one list of rows under
this rule, and `lines` computes it (`lined_iff`).
-/

namespace DurableQueue.Text

variable {α : Type} {feed ret : α}

/-- `rows` are the lines of an input. -/
inductive Lined (feed ret : α) : List α → List (List α) → Prop
  | nothing : Lined feed ret [] []
  /-- The last line, which nothing closes. -/
  | last {line : List α} (more : line ≠ []) (whole : feed ∉ line) : Lined feed ret line [line]
  /-- A line closed by a line feed alone. -/
  | closed {line rest : List α} {rows : List (List α)} (whole : feed ∉ line)
      (bare : line.getLast? ≠ some ret) (others : Lined feed ret rest rows) :
      Lined feed ret (line ++ feed :: rest) (line :: rows)
  /-- A line closed by a carriage return and a line feed. -/
  | returned {line rest : List α} {rows : List (List α)} (whole : feed ∉ line)
      (others : Lined feed ret rest rows) :
      Lined feed ret (line ++ ret :: feed :: rest) (line :: rows)

variable [DecidableEq α]

theorem cutLines_of_not_mem {line : List α} (whole : feed ∉ line) :
    cutLines feed line = ([], line) := by
  induction line with
  | nil => rfl
  | cons c line ih =>
    have head : c ≠ feed := fun e => whole (by simp [e])
    have tail := ih fun h => whole (List.mem_cons_of_mem _ h)
    simp only [cutLines, tail, if_neg head]

/-- A first line and the lines of the rest. -/
theorem lines_cons {line rest : List α} (whole : feed ∉ line) :
    lines feed ret (line ++ feed :: rest) = dropReturn ret line :: lines feed ret rest := by
  simp only [lines, cutLines_line whole, List.map_cons, List.cons_append]

theorem lines_eq_of_lined {input : List α} {rows : List (List α)} (other : feed ≠ ret)
    (lined : Lined feed ret input rows) : lines feed ret input = rows := by
  induction lined with
  | nothing => rfl
  | last more whole => simp [lines, cutLines_of_not_mem whole, more]
  | @closed line rest rows whole bare _ ih =>
    rw [lines_cons whole, ih, dropReturn, if_neg bare]
  | @returned line rest rows whole _ ih =>
    have whole' : feed ∉ line ++ [ret] := by simp [whole, other]
    have cut : line ++ ret :: feed :: rest = (line ++ [ret]) ++ feed :: rest := by simp
    rw [cut, lines_cons whole', ih]
    simp [dropReturn]

theorem lined_lines (input : List α) : Lined feed ret input (lines feed ret input) := by
  -- by the length of what is left after the first line
  induction size : input.length using Nat.strongRecOn generalizing input with
  | ind n shorter =>
    by_cases there : feed ∈ input
    · obtain ⟨line, rest, rfl, whole⟩ := List.eq_append_cons_of_mem there
      have others := shorter rest.length (by simp at size; omega) rest rfl
      rw [lines_cons whole, dropReturn]
      split
      · next ends =>
        obtain ⟨front, rfl⟩ := List.getLast?_eq_some_iff.1 ends
        have whole' : feed ∉ front := fun h => whole (List.mem_append_left _ h)
        simpa using Lined.returned whole' others
      · next bare => exact .closed whole bare others
    · by_cases empty : input = []
      · subst empty
        exact .nothing
      · have only : lines feed ret input = [input] := by
          simp [lines, cutLines_of_not_mem there, empty]
        rw [only]
        exact .last empty there

/-- **Every input has its lines, and no others.** -/
theorem lined_iff {input : List α} {rows : List (List α)} (other : feed ≠ ret) :
    Lined feed ret input rows ↔ lines feed ret input = rows :=
  ⟨lines_eq_of_lined other, fun h => h ▸ lined_lines input⟩

end DurableQueue.Text
