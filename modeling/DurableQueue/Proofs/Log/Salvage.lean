import DurableQueue.Proofs.Log.Passage
import Mathlib.Data.List.Basic

/-!
# What damaged segments leave

Of a trail some segments before the last are replaced by anything. `salvage` lists what can still be
read, segment by segment: the messages of every segment that is left as it was, and whatever is found
in the others; where nothing is damaged, these are the messages of the trail (`Trail.salvage_nil`). A
passage leads through it from the beginning of the trail to its end, and the only
segments that it passes over are among those that were replaced (`Trail.salvage`).
-/

namespace DurableQueue

/-- Of messages whose frames lie one after the other from `p` on, those that begin in segment `k`. -/
def messagesIn (limit k : Nat) (p : Position) : List Bytes → List Bytes
  | [] => []
  | m :: ms =>
    if p.file = k then m :: messagesIn limit k (p.past limit m.length) ms
    else messagesIn limit k (p.past limit m.length) ms

/-- The messages between two positions, with what is `found` in the segments in `damaged` in the place
of what was there. -/
def salvage (limit : Nat) (p q : Position) (ms : List Bytes) (damaged : List Nat)
    (found : Nat → List Bytes) : List Bytes :=
  (List.range' p.file (q.file + 1 - p.file)).flatMap fun k =>
    if k ∈ damaged then found k else messagesIn limit k p ms

variable {c : Config} {segments segments' : Nat → Option Bytes} {p q : Position} {ms here later : List Bytes}
  {limit k : Nat} {damaged : List Nat} {found found' : Nat → List Bytes}

theorem messagesIn_of_lt (behind : k < p.file) : messagesIn limit k p ms = [] := by
  induction ms generalizing p with
  | nil => rfl
  | cons m ms ih =>
    rw [messagesIn, if_neg (Nat.ne_of_gt behind)]
    exact ih (Nat.lt_of_lt_of_le behind Position.file_le_past)

/-- Messages that end in the segment that they begin in all lie there. -/
theorem messagesIn_of_ends (within : (p.ends limit ms).file = p.file) :
    messagesIn limit p.file p ms = ms := by
  induction ms generalizing p with
  | nil => rfl
  | cons m ms ih =>
    have stays := Position.file_past_of_ends within
    rw [messagesIn, if_pos rfl, ← stays, ih (within.trans stays.symm)]

/-- A trail that leaves its first segment can be cut where it does. -/
theorem Trail.leave (trail : Trail c segments p ms q) (before : p.file < q.file) :
    ∃ here later, ms = here ++ later ∧ Trail c segments p here p.nextFile ∧
      Trail c segments p.nextFile later q ∧
      ∀ k, messagesIn c.maxBytesPerFile k p ms =
        if k = p.file then here else messagesIn c.maxBytesPerFile k p.nextFile later := by
  induction trail with
  | nil p => exact absurd before (Nat.lt_irrefl _)
  | @cons p q m bs ms fits admitted there frame rest ih =>
    rcases Position.past_cases c.maxBytesPerFile p m.length with ⟨stays, -⟩ | ⟨leaves, -⟩
    · have file : (p.past c.maxBytesPerFile m.length).file = p.file := by rw [stays]
      have next : (p.past c.maxBytesPerFile m.length).nextFile = p.nextFile := by
        rw [Position.nextFile, Position.nextFile, file]
      obtain ⟨here, later, split, first, second, lies⟩ := ih (file ▸ before)
      rw [next] at first second
      refine ⟨m :: here, later, congrArg (List.cons m) split,
        .cons fits admitted there frame first, second, fun k => ?_⟩
      rw [messagesIn, lies k, file, next]
      by_cases e : k = p.file
      · rw [if_pos e, if_pos e, if_pos e.symm]
      · rw [if_neg e, if_neg e, if_neg (Ne.symm e)]
    · rw [leaves] at rest
      refine ⟨[m], ms, rfl, .cons fits admitted there frame (leaves ▸ .nil _), rest, fun k => ?_⟩
      rw [messagesIn, leaves]
      by_cases e : k = p.file
      · have behind : k < p.nextFile.file := e ▸ Nat.lt_succ_self _
        rw [if_pos e, if_pos e.symm, messagesIn_of_lt behind]
      · rw [if_neg e, if_neg (Ne.symm e)]

/-- What is salvaged comes segment by segment. -/
theorem salvage_leave (before : p.file < q.file)
    (lies : ∀ k, messagesIn limit k p ms =
      if k = p.file then here else messagesIn limit k p.nextFile later)
    (same : ∀ k, p.file < k → found' k = found k) :
    salvage limit p q ms damaged found' =
      (if p.file ∈ damaged then found' p.file else here) ++
        salvage limit p.nextFile q later damaged found := by
  have count : q.file + 1 - p.file = (q.file + 1 - p.nextFile.file) + 1 := by
    simp only [Position.nextFile]
    omega
  rw [salvage, count, List.range'_succ, List.flatMap_cons, lies, if_pos rfl, salvage]
  congr 1
  refine List.flatMap_congr fun k hk => ?_
  have beyond : p.file < k := by
    have := (List.mem_range'_1.1 hk).1
    omega
  rw [lies, if_neg (Nat.ne_of_gt beyond), same k beyond]

/-- Of the last segment everything is left. -/
theorem Trail.salvage_last (trail : Trail c segments p ms q) (last : p.file = q.file)
    (whole : q.file ∉ damaged) : salvage c.maxBytesPerFile p q ms damaged found = ms := by
  have one : q.file + 1 - p.file = 1 := by omega
  have inside : (p.ends c.maxBytesPerFile ms).file = p.file := by rw [trail.ends_eq, last]
  rw [salvage, one, List.range'_one, List.flatMap_singleton, last, if_neg whole, ← last,
    messagesIn_of_ends inside]

/-- Where nothing is damaged, everything is left. -/
theorem Trail.salvage_nil (trail : Trail c segments p ms q) :
    salvage c.maxBytesPerFile p q ms [] found = ms := by
  obtain ⟨distance, distance_eq⟩ : ∃ distance, distance = q.file - p.file := ⟨_, rfl⟩
  induction distance generalizing p ms with
  | zero =>
    have last : p.file = q.file := by
      have := Position.file_le trail.le
      omega
    exact trail.salvage_last last List.not_mem_nil
  | succ distance ih =>
    obtain ⟨here, later, split, first, rest, lies⟩ := trail.leave (by omega)
    rw [salvage_leave (by omega) lies fun _ _ => rfl, if_neg List.not_mem_nil,
      ih rest (by simp only [Position.nextFile]; omega), ← split]

/-- A trail can be passed if the segments that it leads through are as they were. -/
theorem Trail.passage_of_same (trail : Trail c segments p ms q)
    (same : ∀ k, p.file ≤ k → k < q.file ∨ 0 < q.offset ∧ k = q.file → segments' k = segments k) :
    Passage c segments' p ms [] q := by
  refine trail.passage.congr (fun k low high => same k low (Or.inl high)) fun inside bs there => ?_
  have kept := same q.file (Position.file_le trail.le) (Or.inr ⟨inside, rfl⟩)
  exact ⟨bs, kept.trans there, List.prefix_refl bs⟩

/-- **A trail is passed whatever some of its segments hold instead**, and everything in the others is
read. Nothing is passed over but damaged segments. -/
theorem Trail.salvage (trail : Trail c segments p ms q)
    (between : ∀ k ∈ damaged, k < q.file)
    (others : ∀ k, k ∉ damaged → segments' k = segments k) :
    ∃ found broken, Passage c segments' p (salvage c.maxBytesPerFile p q ms damaged found) broken q ∧
      ∀ k ∈ broken, k ∈ damaged := by
  have whole : q.file ∉ damaged := fun inside => Nat.lt_irrefl _ (between _ inside)
  obtain ⟨distance, distance_eq⟩ : ∃ distance, distance = q.file - p.file := ⟨_, rfl⟩
  induction distance generalizing p ms with
  | zero =>
    have last : p.file = q.file := by
      have := Position.file_le trail.le
      omega
    refine ⟨fun _ => [], [], ?_, fun k hk => absurd hk List.not_mem_nil⟩
    rw [trail.salvage_last last whole]
    refine trail.passage_of_same fun k low high => others k ?_
    have here : k = q.file := by omega
    exact here ▸ whole
  | succ distance ih =>
    have before : p.file < q.file := by omega
    obtain ⟨here, later, -, first, rest, lies⟩ := trail.leave before
    obtain ⟨found, broken, passage, only⟩ := ih rest (by simp only [Position.nextFile]; omega)
    by_cases hit : p.file ∈ damaged
    · obtain ⟨yield, passed, through, here_only⟩ := passage.through
      refine ⟨Function.update found p.file yield, passed ++ broken, ?_, fun k hk => ?_⟩
      · rw [salvage_leave before lies fun k beyond => Function.update_of_ne (Nat.ne_of_gt beyond) ..,
          if_pos hit, Function.update_self]
        exact through
      · rcases List.mem_append.1 hk with now | beyond
        · exact here_only k now ▸ hit
        · exact only k beyond
    · refine ⟨found, broken, ?_, only⟩
      rw [salvage_leave before lies fun _ _ => rfl, if_neg hit]
      have intact : Passage c segments' p here [] p.nextFile :=
        first.passage_of_same fun k low high => others k <| by
          have here : k = p.file := by
            simp only [Position.nextFile] at high
            omega
          exact here ▸ hit
      exact intact.append passage

end DurableQueue
