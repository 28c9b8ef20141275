import DurableQueue.Proofs.Log.Appending

/-!
# Where accepted messages lie

All messages that a queue accepted since it was last emptied lie on one trail from its start,
whether or not their segments are still there; `Marks` says that a record's cursors stand on it,
and `Layout` that from the segment being read on it is still on disk. `Recoverable` is what a
queue may be reopened from: from some message on, which is not past the first undelivered one, up
to the write cursor of the record, the frames are on disk, and the segments that the record would
read before are gone as a whole. It follows from the layout at any moment
(`Layout.recoverable`).
-/

namespace DurableQueue

open FileSystem

/-- The cursors of a record stand after `i` and `j` of the accepted messages, and its length counts
what lies between. -/
structure Marks (c : Config) (start : Position) (accepted : List Bytes) (r : Record) (i j : Nat) :
    Prop where
  le : i ≤ j
  within : j ≤ accepted.length
  read_eq : r.read = start.ends c.maxBytesPerFile (accepted.take i)
  write_eq : r.write = start.ends c.maxBytesPerFile (accepted.take j)
  length_eq : r.length = (j - i : Nat)

/-- The accepted messages from number `a` on are on disk, from the start of segment `f`, and
nothing before that segment is. -/
structure Layout (c : Config) (segments : Nat → Option Bytes) (start : Position)
    (accepted : List Bytes) (a f : Nat) : Prop where
  within : a ≤ accepted.length
  opening : start.ends c.maxBytesPerFile (accepted.take a) = ⟨f, 0⟩
  trail : Trail c segments ⟨f, 0⟩ (accepted.drop a) (start.ends c.maxBytesPerFile accepted)
  gone : ∀ k < f, segments k = none

/-- What a record leads to: the messages from number `k` on up to its write cursor. -/
structure Leads (c : Config) (segments : Nat → Option Bytes) (start : Position)
    (accepted : List Bytes) (r : Record) (i j k : Nat) : Prop
    extends Marks c start accepted r i j where
  from_read : i ≤ k
  to_write : k ≤ j
  trail : Trail c segments (start.ends c.maxBytesPerFile (accepted.take k))
    ((accepted.take j).drop k) r.write
  /-- What comes before it is gone with its segments. -/
  skipped : k = i ∨ ∃ f, start.ends c.maxBytesPerFile (accepted.take k) = ⟨f, 0⟩ ∧
    r.read.file < f ∧ ∀ n, r.read.file ≤ n → n < f → segments n = none

/-- What a queue can be reopened from, once `u` of the accepted messages are delivered. -/
def Recoverable (c : Config) (start : Position) (accepted : List Bytes) (u : Nat) (v : View) :
    Prop :=
  ∀ bs ∈ v.record, ∃ r i j k, bs = Text.encode r.text ∧ r.InWords ∧ k ≤ u ∧
    Leads c v.segments start accepted r i j k

variable {c : Config} {segments segments' : Nat → Option Bytes} {start : Position}
  {accepted : List Bytes} {m : Bytes} {r : Record} {v : View} {i j a b f u : Nat}

theorem Marks.snoc (h : Marks c start accepted r i j) : Marks c start (accepted ++ [m]) r i j where
  le := h.le
  within := by
    have := h.within
    simp only [List.length_append]
    omega
  read_eq := by
    rw [List.take_append_of_le_length (Nat.le_trans h.le h.within)]
    exact h.read_eq
  write_eq := by
    rw [List.take_append_of_le_length h.within]
    exact h.write_eq
  length_eq := h.length_eq

/-- The cursors of a log, once `u` messages are delivered. -/
theorem marks_current (delivered : u ≤ accepted.length)
    (read : r.read = start.ends c.maxBytesPerFile (accepted.take u))
    (write : r.write = start.ends c.maxBytesPerFile accepted)
    (length : r.length = (accepted.length - u : Nat)) :
    Marks c start accepted r u accepted.length where
  le := delivered
  within := Nat.le_refl _
  read_eq := read
  write_eq := by
    rw [List.take_length]
    exact write
  length_eq := length

theorem Marks.le_write (h : Marks c start accepted r i j) : r.read ≤ r.write := by
  rw [h.read_eq, h.write_eq]
  exact Position.ends_take_le h.le h.within

/-! ### Layouts -/

/-- The part of a layout between two messages that it holds. -/
theorem Layout.between (h : Layout c segments start accepted a f) (low : a ≤ i) (le : i ≤ j) :
    Trail c segments (start.ends c.maxBytesPerFile (accepted.take i)) ((accepted.take j).drop i)
      (start.ends c.maxBytesPerFile (accepted.take j)) := by
  have ends : ∀ n, a ≤ n → start.ends c.maxBytesPerFile (accepted.take n) =
      Position.ends c.maxBytesPerFile ⟨f, 0⟩ ((accepted.drop a).take (n - a)) := by
    intro n hn
    have cut : accepted.take n = accepted.take a ++ (accepted.drop a).take (n - a) := by
      rw [← List.take_add, Nat.add_sub_cancel' hn]
    rw [cut, Position.ends_append, h.opening]
  have part := h.trail.part (i := i - a) (j := j - a) (by omega)
  have slice : ((accepted.drop a).take (j - a)).drop (i - a) = (accepted.take j).drop i := by
    rw [List.take_drop, List.drop_drop]
    congr 1
    · omega
    · congr 1
      omega
  rw [ends i low, ends j (Nat.le_trans low le), ← slice]
  exact part

theorem Layout.rest (h : Layout c segments start accepted a f) (low : a ≤ i)
    (within : i ≤ accepted.length) :
    Trail c segments (start.ends c.maxBytesPerFile (accepted.take i)) (accepted.drop i)
      (start.ends c.maxBytesPerFile accepted) := by
  have part := h.between low within
  rwa [List.take_length] at part

/-- A layout is left alone by changes past its end. -/
theorem Layout.congr (h : Layout c segments start accepted a f)
    (kept : ∀ k bs, k ≤ (start.ends c.maxBytesPerFile accepted).file → segments k = some bs →
      ∃ bs', segments' k = some bs' ∧ ∀ n,
        (⟨k, n⟩ : Position) ≤ start.ends c.maxBytesPerFile accepted → n ≤ bs.length →
        bs'.take n = bs.take n)
    (gone : ∀ k < f, segments' k = segments k) :
    Layout c segments' start accepted a f where
  within := h.within
  opening := h.opening
  trail := h.trail.congr fun k bs _ high => kept k bs high
  gone k low := (gone k low).trans (h.gone k low)

theorem Layout.file_le (h : Layout c segments start accepted a f) :
    f ≤ (start.ends c.maxBytesPerFile accepted).file := Position.file_le h.trail.le

/-- Opening the write segment for writing changes nothing that is laid out. -/
theorem Layout.opened {write : Position} (h : Layout c v.segments start accepted a f)
    (write_eq : write = start.ends c.maxBytesPerFile accepted) :
    Layout c (v.opened write.file).segments start accepted a f := by
  have low := h.file_le
  rw [← write_eq] at low
  refine h.congr (fun k bs _ there => ⟨bs, ?_, fun _ _ _ => rfl⟩) fun k less => ?_
  · by_cases e : k = write.file
    · subst e
      simp only [View.opened, Function.update_self, there, Option.getD_some]
    · simp only [View.opened, Function.update_of_ne e, there]
  · have ne : k ≠ write.file := by omega
    simp only [View.opened, Function.update_of_ne ne]

/-- A frame at the write cursor lays its message out after the others. -/
theorem Layout.snoc {write : Position} (h : Layout c v.segments start accepted a f)
    (write_eq : write = start.ends c.maxBytesPerFile accepted) (fits : write.Fits)
    (admitted : c.Admits m) :
    Layout c (v.withFrame write m).segments start (accepted ++ [m]) a f := by
  have low := h.file_le
  rw [← write_eq] at low
  have there : (v.withFrame write m).segments write.file =
      some (Bytes.overwrite ((v.segments write.file).getD []) write.offset (Frame.encode m)) := by
    simp only [View.withFrame, Function.update_self]
  have same : Layout c (v.withFrame write m).segments start accepted a f := by
    refine h.congr (fun k bs _ found => ?_) fun k less => ?_
    · by_cases e : k = write.file
      · subst e
        refine ⟨_, there, ?_⟩
        intro n before within
        rw [found, Option.getD_some]
        rw [← write_eq] at before
        exact Bytes.take_overwrite_of_le (by simp only [Position.le_iff] at before; omega) within
      · refine ⟨bs, ?_, fun _ _ _ => rfl⟩
        simp only [View.withFrame, Function.update_of_ne e, found]
    · have ne : k ≠ write.file := by omega
      simp only [View.withFrame, Function.update_of_ne ne]
  have trail := same.trail
  rw [← write_eq] at trail
  refine ⟨?_, ?_, ?_, same.gone⟩
  · have := h.within
    simp only [List.length_append]
    omega
  · rw [List.take_append_of_le_length h.within]
    exact h.opening
  · rw [List.drop_append_of_le_length h.within, Position.ends_append, ← write_eq]
    exact trail.snoc fits admitted there (Bytes.prefix_overwrite (Frame.encode_ne_nil m))

/-- Once a segment is left for the next, what lies from there on is laid out without it. -/
theorem Layout.leave (h : Layout c segments start accepted a f) (low : a ≤ i)
    (within : i ≤ accepted.length)
    (next : start.ends c.maxBytesPerFile (accepted.take i) = ⟨f + 1, 0⟩) :
    Layout c (Function.update segments f none) start accepted i (f + 1) where
  within := within
  opening := next
  trail := by
    have rest := h.rest low within
    rw [next] at rest
    refine rest.congr_between fun k above _ => Function.update_of_ne ?_ ..
    simp only at above
    omega
  gone k less := by
    by_cases e : k = f
    · rw [e, Function.update_self]
    · rw [Function.update_of_ne e]
      exact h.gone k (by omega)

/-- **A queue can be reopened from what the layout leaves on disk**, as long as the record does
not write before the segment that is being read. -/
theorem Layout.recoverable (h : Layout c v.segments start accepted a f) (delivered : a ≤ u)
    (recorded : ∀ bs ∈ v.record, ∃ r i j, bs = Text.encode r.text ∧ r.InWords ∧
      Marks c start accepted r i j ∧ i ≤ u ∧ f ≤ r.write.file) :
    Recoverable c start accepted u v := by
  intro bs there
  obtain ⟨r, i, j, rfl, words, marks, behind, reach⟩ := recorded bs there
  by_cases less : i < a
  · have later : a ≤ j := by
      have order : start.ends c.maxBytesPerFile (accepted.take a) ≤
          start.ends c.maxBytesPerFile (accepted.take j) := by
        rw [h.opening, ← marks.write_eq]
        simp only [Position.le_iff]
        omega
      exact Position.le_of_ends_le h.within order
    refine ⟨r, i, j, a, rfl, words, delivered, { marks with
      from_read := Nat.le_of_lt less
      to_write := later
      trail := marks.write_eq ▸ h.between (Nat.le_refl a) later
      skipped := Or.inr ⟨f, h.opening, ?_, fun n _ low => h.gone n low⟩ }⟩
    have before : r.read < ⟨f, 0⟩ := by
      rw [← h.opening, marks.read_eq]
      exact Position.ends_take_lt less (Nat.le_trans later marks.within)
    simp only [Position.lt_iff] at before
    omega
  · have low : a ≤ i := Nat.le_of_not_lt less
    exact ⟨r, i, j, i, rfl, words, behind, { marks with
      from_read := Nat.le_refl i
      to_write := marks.le
      trail := marks.write_eq ▸ h.between low marks.le
      skipped := Or.inl rfl }⟩

theorem Recoverable.snoc (h : Recoverable c start accepted u v) :
    Recoverable c start (accepted ++ [m]) u v := by
  intro bs there
  obtain ⟨r, i, j, k, eq, words, behind, leads⟩ := h bs there
  refine ⟨r, i, j, k, eq, words, behind, { leads.toMarks.snoc with
    from_read := leads.from_read
    to_write := leads.to_write
    trail := ?_
    skipped := ?_ }⟩
  · rw [List.take_append_of_le_length (Nat.le_trans leads.to_write leads.within),
      List.take_append_of_le_length leads.within]
    exact leads.trail
  · rw [List.take_append_of_le_length (Nat.le_trans leads.to_write leads.within)]
    exact leads.skipped

end DurableQueue
