/-!
# Lines

A text, or a run of bytes, as its lines. A line ends at a line feed or at the end of the
input; a carriage return just before the line feed is not part of the line, and nothing
after the last line feed is not a line.
-/

namespace DurableQueue.Text

/-- Cuts after each line feed: the closed pieces, without the line feeds, and what follows
the last of them. -/
def cutLines {α : Type} [DecidableEq α] (feed : α) : List α → List (List α) × List α
  | [] => ([], [])
  | c :: rest =>
    let (closed, last) := cutLines feed rest
    if c = feed then ([] :: closed, last)
    else
      match closed with
      | [] => ([], c :: last)
      | piece :: more => ((c :: piece) :: more, last)

/-- `line` without a carriage return at its end. -/
def dropReturn {α : Type} [DecidableEq α] (ret : α) (line : List α) : List α :=
  if line.getLast? = some ret then line.dropLast else line

/-- The lines of an input whose line feed is `feed` and whose carriage return is `ret`. -/
def lines {α : Type} [DecidableEq α] (feed ret : α) (input : List α) : List (List α) :=
  let (closed, last) := cutLines feed input
  closed.map (dropReturn ret) ++ if last.isEmpty then [] else [last]

/-- Joining the pieces with the line feeds that closed them gives the input back. -/
theorem cutLines_join {α : Type} [DecidableEq α] (feed : α) (input : List α) :
    ((cutLines feed input).1.flatMap (· ++ [feed])) ++ (cutLines feed input).2 = input := by
  induction input with
  | nil => rfl
  | cons c rest ih =>
    simp only [cutLines]
    by_cases h : c = feed
    · simp [h, ih]
    · simp only [h, if_false]
      cases hc : (cutLines feed rest).1 with
      | nil => simpa [hc] using ih
      | cons piece more => simpa [hc, List.flatMap_cons] using ih

/-- No piece holds a line feed. -/
theorem not_mem_cutLines {α : Type} [DecidableEq α] (feed : α) (input : List α) :
    (∀ piece ∈ (cutLines feed input).1, feed ∉ piece) ∧ feed ∉ (cutLines feed input).2 := by
  induction input with
  | nil => simp [cutLines]
  | cons c rest ih =>
    simp only [cutLines]
    by_cases h : c = feed
    · simpa [h] using ih
    · simp only [h, if_false]
      cases hc : (cutLines feed rest).1 with
      | nil => simpa [hc, Ne.symm h] using ih.2
      | cons piece more =>
        simp only [hc, List.mem_cons, forall_eq_or_imp] at ih ⊢
        exact ⟨⟨by simp [Ne.symm h, ih.1.1], ih.1.2⟩, ih.2⟩

end DurableQueue.Text
