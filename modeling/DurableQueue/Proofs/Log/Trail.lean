import DurableQueue.Log
import DurableQueue.Proofs.Frame.Exact

/-!
# Trails of frames

A `Trail` from one position to another is a run of messages whose frames lie one after the
other in the segments, each segment left where the cursors leave it. Both cursors of a log move
along the same trail, since the place after a frame depends on nothing but the place it begins
at and its size (`Position.past`).
-/

namespace DurableQueue

namespace Position

/-- The place after a frame for a message of `size` bytes that begins at `p`: in the same
segment, or at the start of the next once the offset is above `limit`. -/
def past (limit : Nat) (p : Position) (size : Nat) : Position :=
  if limit < p.offset + Frame.diskSize size then p.nextFile
  else ⟨p.file, p.offset + Frame.diskSize size⟩

/-- The place after the frames of some messages. -/
def ends (limit : Nat) (p : Position) (messages : List Bytes) : Position :=
  messages.foldl (fun p m => p.past limit m.length) p

/-- A position whose segment number and offset can be told to the file system. -/
def Fits (p : Position) : Prop := p.file < Word.limit ∧ p.offset < Word.signedLimit

instance (p : Position) : Decidable p.Fits := inferInstanceAs (Decidable (_ ∧ _))

variable {limit size : Nat} {p q r : Position} {ms ms' : List Bytes} {m : Bytes}

theorem past_cases (limit : Nat) (p : Position) (size : Nat) :
    (p.past limit size = ⟨p.file, p.offset + Frame.diskSize size⟩ ∧
        p.offset + Frame.diskSize size ≤ limit) ∨
      (p.past limit size = p.nextFile ∧ limit < p.offset + Frame.diskSize size) := by
  unfold past
  split
  · exact Or.inr ⟨rfl, by assumption⟩
  · exact Or.inl ⟨rfl, by omega⟩

theorem lt_past : p < p.past limit size := by
  rcases past_cases limit p size with ⟨e, -⟩ | ⟨e, -⟩
  · rw [e, lt_iff]
    refine Or.inr ⟨rfl, ?_⟩
    simp only [Frame.diskSize, Frame.headerSize]
    omega
  · rw [e]
    exact lt_nextFile p

theorem lt_irrefl : ¬p < p := by
  simp only [lt_iff]
  omega

theorem lt_of_le_of_lt (first : p ≤ q) (second : q < r) : p < r := by
  simp only [le_iff, lt_iff] at *
  omega

theorem lt_of_lt_of_le (first : p < q) (second : q ≤ r) : p < r := by
  simp only [le_iff, lt_iff] at *
  omega

theorem le_of_lt (h : p < q) : p ≤ q := by
  simp only [le_iff, lt_iff] at *
  omega

theorem file_le (h : p ≤ q) : p.file ≤ q.file := by
  simp only [le_iff] at h
  omega

@[simp] theorem ends_nil : ends limit p [] = p := rfl

@[simp] theorem ends_cons : ends limit p (m :: ms) = ends limit (p.past limit m.length) ms := rfl

theorem ends_append : ends limit p (ms ++ ms') = ends limit (ends limit p ms) ms' := by
  simp [ends]

theorem le_ends : p ≤ ends limit p ms := by
  induction ms generalizing p with
  | nil => exact le_refl p
  | cons m ms ih => exact le_trans (le_of_lt lt_past) ih

/-- A trail that ends in the segment that it begins in never left it. -/
theorem file_past_of_ends {n : Nat} (inside : (ends limit (p.past limit n) ms).file = p.file) :
    (p.past limit n).file = p.file := by
  have low : p ≤ p.past limit n := le_of_lt lt_past
  have high : p.past limit n ≤ ends limit (p.past limit n) ms := le_ends
  have := file_le low
  have := file_le high
  omega

theorem lt_ends (some : ms ≠ []) : p < ends limit p ms := by
  cases ms with
  | nil => exact absurd rfl some
  | cons m ms =>
    have first : p < p.past limit m.length := lt_past
    have rest : p.past limit m.length ≤ ends limit (p.past limit m.length) ms := le_ends
    simp only [lt_iff, le_iff, ends_cons] at *
    omega

theorem take_split {i j : Nat} (less : i ≤ j) : ms.take j = ms.take i ++ (ms.take j).drop i := by
  have cut := List.take_append_drop i (ms.take j)
  rw [List.take_take, Nat.min_eq_left less] at cut
  exact cut.symm

/-- Of two places on one trail, the one after more messages lies later. -/
theorem ends_take_lt {i j : Nat} (less : i < j) (within : j ≤ ms.length) :
    ends limit p (ms.take i) < ends limit p (ms.take j) := by
  rw [take_split (Nat.le_of_lt less), ends_append]
  apply lt_ends
  intro empty
  have := congrArg List.length empty
  simp only [List.length_drop, List.length_take, List.length_nil] at this
  omega

theorem ends_take_le {i j : Nat} (less : i ≤ j) (within : j ≤ ms.length) :
    ends limit p (ms.take i) ≤ ends limit p (ms.take j) := by
  rcases Nat.lt_or_eq_of_le less with lt | eq
  · exact le_of_lt (ends_take_lt lt within)
  · rw [eq]
    exact le_refl _

/-- Places on one trail are told apart by their order. -/
theorem le_of_ends_le {i j : Nat} (within : i ≤ ms.length)
    (h : ends limit p (ms.take i) ≤ ends limit p (ms.take j)) : i ≤ j := by
  apply Nat.le_of_not_lt
  intro less
  have later : ends limit p (ms.take j) < ends limit p (ms.take i) := ends_take_lt less within
  exact lt_irrefl (lt_of_le_of_lt h later)

end Position

open Position in
theorem Log.after_eq (log : Log) (p : Position) (size : Nat) :
    log.after p size = p.past log.config.maxBytesPerFile size := rfl

/-- The messages lie as frames from one position to another in the segments whose bytes
`segments` gives. Every frame begins at a place that a segment can be opened at. -/
inductive Trail (c : Config) (segments : Nat → Option Bytes) :
    Position → List Bytes → Position → Prop where
  | nil (p : Position) : Trail c segments p [] p
  | cons {p q : Position} {m bs : Bytes} {ms : List Bytes} (fits : p.Fits) (admitted : c.Admits m)
      (there : segments p.file = some bs) (frame : Frame.encode m <+: bs.drop p.offset)
      (rest : Trail c segments (p.past c.maxBytesPerFile m.length) ms q) :
      Trail c segments p (m :: ms) q

namespace Trail

variable {c : Config} {segments segments' : Nat → Option Bytes} {p q r : Position}
  {m : Bytes} {ms ms' : List Bytes}

theorem ends_eq (trail : Trail c segments p ms q) : p.ends c.maxBytesPerFile ms = q := by
  induction trail with
  | nil p => rfl
  | cons fits admitted there frame rest ih => exact ih

theorem le (trail : Trail c segments p ms q) : p ≤ q := by
  rw [← trail.ends_eq]
  exact Position.le_ends

/-- Something is unread exactly when there are messages left. -/
theorem lt_iff (trail : Trail c segments p ms q) : p < q ↔ ms ≠ [] := by
  rw [← trail.ends_eq]
  refine ⟨fun less empty => ?_, Position.lt_ends⟩
  subst empty
  exact Position.lt_irrefl less

theorem eq_nil (trail : Trail c segments p ms p) : ms = [] :=
  Decidable.byContradiction fun some => Position.lt_irrefl (trail.lt_iff.2 some)

/-- The segment that the first message is read from is there. -/
theorem there (trail : Trail c segments p ms q) (less : p < q) : segments p.file ≠ none := by
  cases trail with
  | nil => exact absurd less Position.lt_irrefl
  | cons fits admitted there frame rest =>
    rw [there]
    nofun

theorem append (first : Trail c segments p ms q) (second : Trail c segments q ms' r) :
    Trail c segments p (ms ++ ms') r := by
  induction first with
  | nil => exact second
  | cons fits admitted there frame rest ih =>
    exact .cons fits admitted there frame (ih second)

theorem admits (trail : Trail c segments p ms q) : ∀ x ∈ ms, c.Admits x := by
  induction trail with
  | nil p => nofun
  | cons fits admitted there frame rest ih =>
    intro x hx
    rcases List.mem_cons.1 hx with rfl | later
    · exact admitted
    · exact ih x later

/-- A trail can be cut after any of its messages. -/
theorem split (trail : Trail c segments p (ms ++ ms') r) :
    Trail c segments p ms (p.ends c.maxBytesPerFile ms) ∧
      Trail c segments (p.ends c.maxBytesPerFile ms) ms' r := by
  induction ms generalizing p with
  | nil => exact ⟨.nil p, trail⟩
  | cons m ms ih =>
    cases trail with
    | cons fits admitted there frame rest =>
      obtain ⟨first, second⟩ := ih rest
      exact ⟨.cons fits admitted there frame first, second⟩

/-- The part of a trail between two of its places. -/
theorem part (trail : Trail c segments p ms q) {i j : Nat} (less : i ≤ j) :
    Trail c segments (p.ends c.maxBytesPerFile (ms.take i)) ((ms.take j).drop i)
      (p.ends c.maxBytesPerFile (ms.take j)) := by
  have whole : ms = ms.take j ++ ms.drop j := (List.take_append_drop j ms).symm
  rw [whole] at trail
  have front := trail.split.1
  have cut : ms.take j = ms.take i ++ (ms.take j).drop i := Position.take_split less
  rw [cut] at front
  have back := front.split.2
  rwa [← cut] at back

/-- A trail stays where the bytes before its end do. -/
theorem congr (trail : Trail c segments p ms q)
    (kept : ∀ k bs, p.file ≤ k → k ≤ q.file → segments k = some bs →
      ∃ bs', segments' k = some bs' ∧
        ∀ n, (⟨k, n⟩ : Position) ≤ q → n ≤ bs.length → bs'.take n = bs.take n) :
    Trail c segments' p ms q := by
  induction trail with
  | nil p => exact .nil p
  | @cons p q m bs ms fits admitted there frame rest ih =>
    have later := rest.le
    have onward : p.file ≤ (p.past c.maxBytesPerFile m.length).file :=
      Position.file_le (Position.le_of_lt Position.lt_past)
    have last := Position.file_le later
    obtain ⟨bs', there', same⟩ := kept p.file bs (Nat.le_refl _) (Nat.le_trans onward last) there
    refine .cons fits admitted there' ?_ (ih fun k bs low => kept k bs (Nat.le_trans onward low))
    -- the frame ends before `q`, so its bytes are among those that stay
    have within : (⟨p.file, p.offset + Frame.diskSize m.length⟩ : Position) ≤ q := by
      rcases Position.past_cases c.maxBytesPerFile p m.length with ⟨e, -⟩ | ⟨e, -⟩
      · rw [e] at later
        exact later
      · rw [e] at later
        simp only [Position.nextFile, Position.le_iff] at later ⊢
        omega
    have length := Frame.length_encode m
    have reach : p.offset + Frame.diskSize m.length ≤ bs.length := by
      have := frame.length_le
      rw [List.length_drop, length] at this
      simp only [Frame.diskSize, Frame.headerSize] at this ⊢
      omega
    have front := same (p.offset + Frame.diskSize m.length) within reach
    rw [List.prefix_iff_eq_take, length] at frame ⊢
    rw [frame, List.take_drop, List.take_drop, front]

/-- A trail does not depend on segments outside the two that it runs between. -/
theorem congr_between (trail : Trail c segments p ms q)
    (kept : ∀ k, p.file ≤ k → k ≤ q.file → segments' k = segments k) :
    Trail c segments' p ms q :=
  trail.congr fun k bs low high there => ⟨bs, (kept k low high).trans there, fun _ _ _ => rfl⟩

theorem snoc {bs : Bytes} (trail : Trail c segments p ms q) (fits : q.Fits)
    (admitted : c.Admits m) (there : segments q.file = some bs)
    (frame : Frame.encode m <+: bs.drop q.offset) :
    Trail c segments p (ms ++ [m]) (q.past c.maxBytesPerFile m.length) :=
  trail.append (.cons fits admitted there frame (.nil _))

end Trail

end DurableQueue
