import DurableQueue.Proofs.Log.Trail

/-!
# Passages

A `Passage` is what a reader makes of segments whatever they hold: it reads frame after frame, and
where it can read none it passes over the rest of the segment. A trail is a passage on which nothing
is passed over (`Trail.passage`). Before the last segment a reader gets through anything, and comes
out at the start of the next segment (`Passage.through`).
-/

namespace DurableQueue

namespace Position

variable {limit size : Nat} {p q : Position}

theorem file_le_past : p.file ≤ (p.past limit size).file := file_le (le_of_lt lt_past)

theorem lt_of_past_le (le : p.past limit size ≤ q) : p < q := lt_of_lt_of_le lt_past le

end Position

/-- The frame of an admitted message stands at `p`. -/
def Stands (c : Config) (segments : Nat → Option Bytes) (p : Position) (m : Bytes) : Prop :=
  c.Admits m ∧ ∃ bs, segments p.file = some bs ∧ Frame.encode m <+: bs.drop p.offset

/-- The way from one position to another, with the messages that are read on it and the segments
whose rest is passed over because no frame can be read. -/
inductive Passage (c : Config) (segments : Nat → Option Bytes) :
    Position → List Bytes → List Nat → Position → Prop where
  | nil (p : Position) : Passage c segments p [] [] p
  | frame {p q : Position} {m : Bytes} {ms : List Bytes} {ks : List Nat}
      (stands : Stands c segments p m)
      (rest : Passage c segments (p.past c.maxBytesPerFile m.length) ms ks q) :
      Passage c segments p (m :: ms) ks q
  | broken {p q : Position} {ms : List Bytes} {ks : List Nat}
      (nothing : ∀ m, ¬Stands c segments p m) (before : p.file < q.file)
      (rest : Passage c segments p.nextFile ms ks q) : Passage c segments p ms (p.file :: ks) q

variable {c : Config} {segments segments' : Nat → Option Bytes} {p q r : Position} {m bs bs' : Bytes}
  {ms ms' : List Bytes} {ks ks' : List Nat}

theorem Stands.congr (h : Stands c segments p m) (there : segments p.file = some bs)
    (there' : segments' p.file = some bs') (grown : bs <+: bs') : Stands c segments' p m := by
  obtain ⟨admitted, held, found, frame⟩ := h
  rw [there] at found
  cases found
  obtain ⟨more, rfl⟩ := grown
  refine ⟨admitted, _, there', frame.trans ?_⟩
  rw [List.drop_append]
  exact List.prefix_append ..

theorem stands_congr (same : segments' p.file = segments p.file) :
    Stands c segments' p m ↔ Stands c segments p m := by
  rw [Stands, Stands, same]

/-- A frame ends within its segment. -/
theorem Stands.within (h : Stands c segments p m) (there : segments p.file = some bs) :
    p.offset + Frame.diskSize m.length ≤ bs.length := by
  obtain ⟨-, held, found, frame⟩ := h
  rw [there] at found
  cases found
  have length := frame.length_le
  rw [List.length_drop, Frame.length_encode] at length
  simp only [Frame.diskSize, Frame.headerSize] at length ⊢
  omega

/-- A reader that finds nothing wrong passes over nothing. -/
theorem Trail.passage (trail : Trail c segments p ms q) : Passage c segments p ms [] q := by
  induction trail with
  | nil p => exact .nil p
  | cons fits admitted there frame rest ih => exact .frame ⟨admitted, _, there, frame⟩ ih

namespace Passage

theorem le (h : Passage c segments p ms ks q) : p ≤ q := by
  induction h with
  | nil p => exact Position.le_refl p
  | frame stands rest ih => exact Position.le_trans (Position.le_of_lt Position.lt_past) ih
  | broken nothing before rest ih =>
    exact Position.le_trans (Position.le_of_lt (Position.lt_nextFile _)) ih

theorem append (first : Passage c segments p ms ks q) (second : Passage c segments q ms' ks' r) :
    Passage c segments p (ms ++ ms') (ks ++ ks') r := by
  induction first with
  | nil => exact second
  | frame stands rest ih => exact .frame stands (ih second)
  | broken nothing before rest ih =>
    exact .broken nothing (Nat.lt_of_lt_of_le before (Position.file_le second.le)) (ih second)

theorem snoc (h : Passage c segments p ms ks q) (stands : Stands c segments q m) :
    Passage c segments p (ms ++ [m]) ks (q.past c.maxBytesPerFile m.length) := by
  have whole := h.append (.frame stands (.nil _))
  rwa [List.append_nil] at whole

/-- A passage depends on the segments before the last and on what the last held when it was read. -/
theorem congr (h : Passage c segments p ms ks q)
    (same : ∀ k, p.file ≤ k → k < q.file → segments' k = segments k)
    (last : 0 < q.offset → ∀ bs, segments q.file = some bs →
      ∃ bs', segments' q.file = some bs' ∧ bs <+: bs') : Passage c segments' p ms ks q := by
  induction h with
  | nil p => exact .nil p
  | @frame p q m ms ks stands rest ih =>
    have onward : p.file ≤ (p.past c.maxBytesPerFile m.length).file := Position.file_le_past
    refine .frame ?_ (ih (fun k low => same k (Nat.le_trans onward low)) last)
    rcases Nat.lt_or_eq_of_le (Nat.le_trans onward (Position.file_le rest.le)) with before | here
    · exact (stands_congr (same p.file (Nat.le_refl _) before)).2 stands
    · -- the frame lies in the last segment, and so does the place after it
      have later := rest.le
      have inside : 0 < q.offset := by
        rcases Position.past_cases c.maxBytesPerFile p m.length with ⟨e, -⟩ | ⟨e, -⟩
        · simp only [e, Position.le_iff, Frame.diskSize, Frame.headerSize] at later
          omega
        · simp only [e, Position.le_iff, Position.nextFile] at later
          omega
      obtain ⟨-, bs, there, -⟩ := id stands
      obtain ⟨bs', there', grown⟩ := last inside bs (here ▸ there)
      exact stands.congr there (here ▸ there') grown
  | @broken p q ms ks nothing before rest ih =>
    refine .broken (fun m stands => nothing m ?_) before
      (ih (fun k low => same k (Nat.le_trans (Nat.le_succ _) low)) last)
    exact (stands_congr (same p.file (Nat.le_refl _) before)).1 stands

/-- The segments that are passed over come in order, each once, and before the last. -/
theorem sorted (h : Passage c segments p ms ks q) :
    ks.Pairwise (· < ·) ∧ ∀ k ∈ ks, p.file ≤ k ∧ k < q.file := by
  induction h with
  | nil p => exact ⟨.nil, nofun⟩
  | frame stands rest ih =>
    exact ⟨ih.1, fun k hk => ⟨Nat.le_trans Position.file_le_past (ih.2 k hk).1, (ih.2 k hk).2⟩⟩
  | broken nothing before rest ih =>
    refine ⟨List.pairwise_cons.2 ⟨fun k hk => (ih.2 k hk).1, ih.1⟩, fun k hk => ?_⟩
    rcases List.mem_cons.1 hk with rfl | later
    · exact ⟨Nat.le_refl _, before⟩
    · exact ⟨Nat.le_trans (Nat.le_succ _) (ih.2 k later).1, (ih.2 k later).2⟩

/-- No more segments are passed over than there are before the last. -/
theorem length_le (h : Passage c segments p ms ks q) : ks.length ≤ q.file - p.file := by
  induction h with
  | nil p => exact Nat.zero_le _
  | frame stands rest ih =>
    exact Nat.le_trans ih (Nat.sub_le_sub_left Position.file_le_past _)
  | broken nothing before rest ih =>
    simp only [Position.nextFile, List.length_cons] at ih ⊢
    omega

/-- **A reader gets through whatever a segment holds**, and comes out at the start of the next one.
It may read something on its way, and passes over the rest at most once. -/
theorem through (rest : Passage c segments p.nextFile ms ks q) :
    ∃ found passed, Passage c segments p (found ++ ms) (passed ++ ks) q ∧ ∀ k ∈ passed, k = p.file := by
  have before : p.file < q.file := Position.file_le rest.le
  obtain ⟨left, left_eq⟩ : ∃ left, left = ((segments p.file).getD []).length - p.offset := ⟨_, rfl⟩
  induction left using Nat.strongRecOn generalizing p with
  | ind left ih =>
    by_cases readable : ∃ m, Stands c segments p m
    case neg =>
      refine ⟨[], [p.file], .broken (fun m stands => readable ⟨m, stands⟩) before rest, ?_⟩
      exact fun k hk => List.mem_singleton.1 hk
    obtain ⟨m, stands⟩ := readable
    rcases Position.past_cases c.maxBytesPerFile p m.length with ⟨stays, -⟩ | ⟨leaves, -⟩
    · -- frames take up room, so there is less left after each
      have file : (p.past c.maxBytesPerFile m.length).file = p.file := by rw [stays]
      have next : (p.past c.maxBytesPerFile m.length).nextFile = p.nextFile := by
        rw [Position.nextFile, Position.nextFile, file]
      have less : ((segments p.file).getD []).length - (p.past c.maxBytesPerFile m.length).offset <
          left := by
        obtain ⟨-, bs, there, -⟩ := id stands
        have within := stands.within there
        simp only [stays, there, Option.getD_some, Frame.diskSize, Frame.headerSize] at *
        omega
      obtain ⟨found, passed, passage, only⟩ :=
        ih _ less (next ▸ rest) (file ▸ before) (by rw [file])
      exact ⟨m :: found, passed, .frame stands passage, file ▸ only⟩
    · exact ⟨[m], [], .frame stands (leaves ▸ rest), fun k hk => absurd hk List.not_mem_nil⟩

end Passage

end DurableQueue
