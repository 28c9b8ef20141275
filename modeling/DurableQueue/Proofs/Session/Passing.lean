import DurableQueue.Proofs.Log.Keeping
import DurableQueue.Proofs.Log.Passage
import DurableQueue.Proofs.Session.Outline

/-!
# Sessions that pass over what they cannot read

The sketch of a session is under way if its cursors stand on a passage (`Sketch.Underway`). Whatever
the segments before the last hold, it delivers the messages of the passage and then those that are
pushed, each once and in their order, and each segment that it passes over is set aside and counted
once, when the read cursor leaves it. An event takes a sketch that is under way to one that is
(`Underway.push`, `Underway.deliver`), and answers what the list of its messages would.
-/

namespace DurableQueue

open FileSystem (FileError)

namespace Lookahead

/-- The reader stands at `place` of a file that holds `contents`, and `bs` lies ahead. -/
structure Offers (contents : Bytes) (l : Lookahead) (place : Nat) (bs : Bytes) : Prop where
  offset_eq : l.offset = place + l.ahead.length
  ahead_eq : bs = l.ahead ++ contents.drop l.offset

variable {c : Config} {contents : Bytes} {l : Lookahead} {place : Nat} {m : Bytes}

/-- With too few bytes kept, a fetch brings what follows them in the file: as many as are missing,
or all that are left. -/
theorem take_fetches (contents : Bytes) {n : Nat} (more : l.ahead.length < n) :
    ∃ fetched rest, contents.drop l.offset = fetched ++ rest ∧
      rest = contents.drop (l.offset + fetched.length) ∧
      (fetched.length < n - l.ahead.length → rest = []) ∧
      take contents n l =
        if fetched.length < n - l.ahead.length then
          (.error .unexpectedEnd, { ahead := [], offset := l.offset + fetched.length })
        else
          (.ok (l.ahead ++ fetched.take (n - l.ahead.length)),
            { ahead := fetched.drop (n - l.ahead.length), offset := l.offset + fetched.length }) := by
  obtain ⟨size, size_eq⟩ : ∃ size, size = max (n - l.ahead.length) Reader.capacity := ⟨_, rfl⟩
  have wanted : n - l.ahead.length ≤ size := size_eq ▸ Nat.le_max_left ..
  refine ⟨(contents.drop l.offset).take size, (contents.drop l.offset).drop size,
    (List.take_append_drop ..).symm, ?_, ?_, ?_⟩
  · rw [List.drop_drop]
    apply List.drop_eq_drop_iff.2
    simp only [List.length_take, List.length_drop]
    omega
  · intro few
    apply List.drop_eq_nil_of_le
    simp only [List.length_take] at few
    omega
  · simp only [take, if_neg (Nat.not_le.2 more), ← size_eq]

theorem supplies (contents : Bytes) : Frame.Supplies (take contents) (Offers contents) := by
  rintro n l place bs ⟨offset_eq, rfl⟩ enough
  by_cases within : n ≤ l.ahead.length
  · refine ⟨{ l with ahead := l.ahead.drop n }, ?_, ?_, ?_⟩
    · rw [take, if_pos within, List.take_append_of_le_length within]
    · simp only [List.length_drop]
      omega
    · rw [List.drop_append_of_le_length within]
  · obtain ⟨fetched, rest, split, rest_eq, last, taken⟩ :=
      take_fetches contents (Nat.lt_of_not_le within)
    rw [split] at enough ⊢
    have plenty : ¬fetched.length < n - l.ahead.length := by
      intro few
      rw [last few, List.append_nil, List.length_append] at enough
      omega
    rw [if_neg plenty] at taken
    refine ⟨{ ahead := fetched.drop (n - l.ahead.length), offset := l.offset + fetched.length },
      ?_, ?_, ?_⟩
    · have all : l.ahead.take n = l.ahead := List.take_of_length_le (by omega)
      rw [taken, List.take_append, all, List.take_append_of_le_length (by omega)]
    · simp only [List.length_drop]
      omega
    · rw [List.drop_append, List.drop_of_length_le (by omega), List.nil_append,
        List.drop_append_of_le_length (by omega), rest_eq]

theorem exhausts (contents : Bytes) : Frame.Exhausts (take contents) (Offers contents) := by
  rintro n l place bs ⟨-, rfl⟩ few
  rw [List.length_append] at few
  obtain ⟨fetched, rest, split, -, -, taken⟩ :=
    take_fetches contents (l := l) (n := n) (by omega)
  rw [split, List.length_append] at few
  rw [if_pos (by omega)] at taken
  exact ⟨_, _, taken⟩

/-- A frame that lies ahead is read, and what follows it lies ahead then. -/
theorem readFrame_of_frame (valid : c.Valid) (admitted : c.Admits m)
    (offers : Offers contents l place (contents.drop place))
    (frame : Frame.encode m <+: contents.drop place) :
    ∃ l', l.readFrame c contents = (.ok m, l') ∧
      Offers contents l' (place + Frame.diskSize m.length)
        (contents.drop (place + Frame.diskSize m.length)) := by
  rw [← List.drop_drop]
  exact Frame.decodeFrom_of_ahead (supplies contents) valid admitted offers frame

/-- What is read lay ahead as a frame. -/
theorem frame_of_readFrame (offers : Offers contents l place (contents.drop place))
    (read : (l.readFrame c contents).1 = .ok m) :
    c.Admits m ∧ Frame.encode m <+: contents.drop place :=
  Frame.ahead_of_decodeFrom (supplies contents) (exhausts contents) offers read

/-- What was kept is still there after the file has grown. -/
theorem Offers.grow {more : Bytes} (offers : Offers contents l place (contents.drop place))
    (within : place ≤ contents.length) :
    Offers (contents ++ more) l place ((contents ++ more).drop place) := by
  obtain ⟨offset_eq, ahead_eq⟩ := offers
  have length := congrArg List.length ahead_eq
  simp only [List.length_append, List.length_drop] at length
  refine ⟨offset_eq, ?_⟩
  rw [List.drop_append_of_le_length within, ahead_eq, List.append_assoc,
    ← List.drop_append_of_le_length (by omega)]

end Lookahead

namespace Outline

/-- What is open for reading offers what lies from `p` on. If nothing is open, the segment can be
opened there once something is unread. -/
structure OpensAt (o : Outline) (p : Position) : Prop where
  reader : ∀ l ∈ o.reader, p.file = o.read.file ∧ ∃ contents, o.segments p.file = some contents ∧
    Lookahead.Offers contents l p.offset (contents.drop p.offset)
  closed : o.reader = none → p < o.write → p.offset < Word.signedLimit

variable {c : Config} {o : Outline} {m : Bytes}

theorem OpensAt.opened {contents : Bytes} (h : o.OpensAt o.read) (unread : o.read < o.write)
    (short : c.isLong (.segment o.read.file) = false) (there : o.segments o.read.file = some contents) :
    ∃ l, o.opened c = some (contents, l) ∧
      Lookahead.Offers contents l o.read.offset (contents.drop o.read.offset) := by
  cases opened : o.reader with
  | none =>
    have low := h.closed opened unread
    refine ⟨{ offset := o.read.offset }, ?_, rfl, rfl⟩
    have fits : ¬(c.isLong (.segment o.read.file) = true ∨ Word.signedLimit ≤ o.read.offset) := by
      rintro (long | high)
      · rw [short] at long
        cases long
      · exact absurd low (Nat.not_lt.2 high)
    simp only [Outline.opened, there, opened, if_neg fits]
  | some l =>
    obtain ⟨-, held, found, offers⟩ := h.reader l opened
    rw [there] at found
    cases found
    exact ⟨l, by simp only [Outline.opened, there, opened], offers⟩

/-- What is open stays so when the last segment grows at its end. -/
theorem OpensAt.grow {p : Position} {old more : Bytes} {segments : Nat → Option Bytes}
    (h : o.OpensAt p) (le : p ≤ o.write) (low : o.write.offset < Word.signedLimit)
    (old_eq : old = (o.segments o.write.file).getD []) (full : old.length = o.write.offset)
    (last : segments o.write.file = some (old ++ more))
    (same : ∀ j, j ≠ o.write.file → segments j = o.segments j) (write : Position) (depth : Int) :
    OpensAt { o with segments, write, depth } p where
  reader l open_ := by
    obtain ⟨here, contents, there, offers⟩ := h.reader l open_
    by_cases written : p.file = o.write.file
    · rw [written] at there
      have contents_eq : contents = old := by rw [old_eq, there, Option.getD_some]
      have within : p.offset ≤ contents.length := by
        rw [contents_eq, full]
        simp only [Position.le_iff] at le
        omega
      refine ⟨here, _, written ▸ last, ?_⟩
      rw [← contents_eq]
      exact offers.grow within
    · exact ⟨here, contents, (same _ written).trans there, offers⟩
  closed closed _ := by
    -- what is unread begins at the write cursor, unless something was unread before
    by_cases before : p < o.write
    · exact h.closed closed before
    · rw [Position.le_antisymm le (Position.not_lt.1 before)]
      exact low

/-- A frame at the read cursor is read. -/
theorem readFrame_of_stands (valid : c.Valid) (h : o.OpensAt o.read) (unread : o.read < o.write)
    (short : c.isLong (.segment o.read.file) = false) (stands : Stands c o.segments o.read m) :
    ∃ o', o.readFrame c = some (m, o') ∧ o'.OpensAt o'.next ∧ ∃ reader, o' = { o with
      next := o.read.past c.maxBytesPerFile m.length, reader } := by
  obtain ⟨admitted, contents, there, frame⟩ := stands
  obtain ⟨l, opened, offers⟩ := h.opened unread short there
  obtain ⟨l', read, offers'⟩ := Lookahead.readFrame_of_frame valid admitted offers frame
  refine ⟨_, by simp only [readFrame, opened, read]; rfl, ⟨?_, ?_⟩, _, rfl⟩
  · rcases Position.past_cases c.maxBytesPerFile o.read m.length with ⟨stays, -⟩ | ⟨leaves, -⟩
    · simp only [stays, if_true, Option.mem_some_iff]
      rintro _ rfl
      exact ⟨trivial, contents, there, offers'⟩
    · simp only [leaves, Position.nextFile, Nat.succ_ne_self, if_false]
      exact fun _ closed => absurd closed (Option.not_mem_none _)
  · rcases Position.past_cases c.maxBytesPerFile o.read m.length with ⟨stays, -⟩ | ⟨leaves, -⟩
    · simp only [stays, if_true]
      exact fun closed => absurd closed (Option.some_ne_none _)
    · intro _ _
      simp only [leaves, Position.nextFile]
      decide

/-- Where no frame stands nothing is read. -/
theorem readFrame_of_nothing (h : o.OpensAt o.read) (unread : o.read < o.write)
    (short : c.isLong (.segment o.read.file) = false)
    (nothing : ∀ m, ¬Stands c o.segments o.read m) : o.readFrame c = none := by
  cases there : o.segments o.read.file with
  | none => simp only [readFrame, opened, there]
  | some contents =>
    obtain ⟨l, opened, offers⟩ := h.opened unread short there
    cases read : l.readFrame c contents with
    | mk result l' =>
      cases result with
      | error e => simp only [readFrame, opened, read]
      | ok m =>
        obtain ⟨admitted, frame⟩ :=
          Lookahead.frame_of_readFrame (m := m) offers (congrArg Prod.fst read)
        exact absurd ⟨admitted, contents, there, frame⟩ (nothing m)

/-- A record whose cursors are in order gives them to the log. -/
theorem ofRecord_of_le (segments aside : Nat → Option Bytes) {r : Record} (le : r.read ≤ r.write) :
    ∃ depth, ofRecord c segments aside r =
      { segments, aside, read := r.read, next := r.read, write := r.write, depth, reader := none } := by
  have ordered : ¬r.write < r.read := fun less => Position.lt_irrefl (Position.lt_of_le_of_lt le less)
  rw [ofRecord, if_neg ordered]
  split
  · exact ⟨_, rfl⟩
  · exact ⟨_, rfl⟩

/-- A look at cursors that are in order changes the depth at most. -/
theorem checkTail_of_le (le : o.read ≤ o.write) : ∃ depth, o.checkTail c = { o with depth } := by
  rw [checkTail]
  split
  · exact ⟨_, rfl⟩
  · next tail =>
    rw [if_pos (Position.le_antisymm le (Position.not_lt.1 tail))]
    exact ⟨_, rfl⟩

/-- Giving up a segment before the last takes the read cursor to the next one. -/
theorem quarantine_skips (before : o.read.file < o.write.file) :
    ∃ segments aside depth, o.quarantine c = { o with
        segments, aside, read := o.read.nextFile, next := o.read.nextFile, depth, reader := none } ∧
      (∀ j, j ≠ o.read.file → segments j = o.segments j) ∧
      ∀ j, j ≠ o.read.file → aside j = o.aside j := by
  obtain ⟨stuck, stuck_eq⟩ : ∃ stuck, stuck = (c.isLong (.segment o.read.file) ||
    c.isLong (.quarantined o.read.file) || (o.segments o.read.file).isNone) := ⟨_, rfl⟩
  have le : o.read.nextFile ≤ o.write := by
    simp only [Position.nextFile, Position.le_iff]
    omega
  rw [quarantine, ← stuck_eq, if_neg (Nat.ne_of_lt before)]
  obtain ⟨depth, looked⟩ := checkTail_of_le (c := c) (o := { o with
    segments := if stuck then o.segments else Function.update o.segments o.read.file none
    aside := if stuck then o.aside
      else Function.update o.aside o.read.file (o.segments o.read.file)
    read := o.read.nextFile, next := o.read.nextFile, reader := none }) le
  refine ⟨_, _, depth, looked, fun j other => ?_, fun j other => ?_⟩
  · split
    · rfl
    · exact Function.update_of_ne other ..
  · split
    · rfl
    · exact Function.update_of_ne other ..

/-- Moving on changes nothing from the new read cursor on. -/
theorem commit_moves (onward : o.read ≤ o.next) (within : o.next ≤ o.write) :
    ∃ segments depth, o.commit c = { o with segments, read := o.next, depth } ∧
      ∀ j, o.next.file ≤ j → segments j = o.segments j := by
  obtain ⟨depth, looked⟩ := checkTail_of_le (c := c) (o := { o with
    segments := if o.next.file = o.read.file then o.segments else without c o.segments [o.read.file]
    read := o.next, depth := Word.wrap (o.depth - 1) }) within
  refine ⟨_, depth, looked, fun j later => ?_⟩
  split
  · rfl
  · next left =>
    have low := Position.file_le onward
    have apart : ¬(j ∈ [o.read.file] ∧ c.isLong (.segment j) = false) := by
      rintro ⟨here, -⟩
      rw [List.mem_singleton] at here
      omega
    exact if_neg apart

/-- A message that is admitted is written at the write cursor, which moves past its frame. -/
theorem append_writes (admitted : c.Admits m) (short : c.isLong (.segment o.write.file) = false)
    (low : o.write.offset < Word.signedLimit) :
    o.append c m = (.ok (), { o with
      segments := Function.update o.segments o.write.file (some
        (((o.segments o.write.file).getD []).overwrite o.write.offset (Frame.encode m)))
      write := o.write.past c.maxBytesPerFile m.length, depth := Word.wrap (o.depth + 1) }) := by
  have bounds : ¬(m.length < c.minMsgSize ∨ c.maxMsgSize < m.length) := by
    simp only [Config.Admits] at admitted
    omega
  rw [append, if_neg bounds, short, if_neg Bool.false_ne_true, if_neg (Nat.not_le.2 low)]

theorem append_refuses (refused : ¬c.Admits m) :
    o.append c m = (.error (.invalidMessageSize m.length c.minMsgSize c.maxMsgSize), o) := by
  have bounds : m.length < c.minMsgSize ∨ c.maxMsgSize < m.length := by
    simp only [Config.Admits] at refused
    omega
  rw [append, if_pos bounds]

end Outline

/-- Nothing lies past the write cursor, whatever happens before its segment. -/
theorem Ends.congr {segments segments' : Nat → Option Bytes} {write : Position}
    (h : Ends segments write) (same : ∀ j, write.file ≤ j → segments' j = segments j) :
    Ends segments' write where
  beyond j high := (same j (Nat.le_of_lt high)).trans (h.beyond j high)
  last := by
    rw [same _ (Nat.le_refl _)]
    exact h.last

namespace Sketch

/-- From the place after what is staged a passage leads to the write cursor: `rest` is read on it, and
`later` is passed over. Nothing lies past the write cursor. -/
structure Passing (k : Sketch) (c : Config) (rest : List Bytes) (later : List Nat) : Prop where
  passage : Passage c k.log.segments k.log.next rest later k.log.write
  next_eq : k.log.next = k.log.read.ends c.maxBytesPerFile k.staged.toList
  opens : k.log.OpensAt k.log.next
  ends : Ends k.log.segments k.log.write
  small : k.log.write.file < Word.limit

/-- The segments in `passed` lie behind the read cursor and were counted. Where segments are set aside
there is still what `aside` gives, except for theirs. -/
structure Counts (k : Sketch) (aside : Nat → Option Bytes) (passed : List Nat) : Prop where
  corruptions : k.corruptions = passed.length
  behind : ∀ j ∈ passed, j < k.log.read.file
  aside : ∀ j, j ∉ passed → k.log.aside j = aside j

/-- A sketch that waits, with `ms` undelivered. Of `broken`, the segments that it can read no further,
it has passed the first ones. -/
structure Underway (k : Sketch) (c : Config) (aside : Nat → Option Bytes) (broken : List Nat)
    (ms : List Bytes) : Prop where
  passing : ∃ rest passed later, ms = k.staged.toList ++ rest ∧ broken = passed ++ later ∧
    k.Passing c rest later ∧ k.Counts aside passed
  offer : k.staged = ms.head?
  blocked : k.Blocked

variable {k : Sketch} {c : Config} {aside : Nat → Option Bytes} {broken passed later : List Nat}
  {m : Bytes} {ms rest : List Bytes}

theorem Passing.read_le (h : k.Passing c rest later) : k.log.read ≤ k.log.next := by
  rw [h.next_eq]
  exact Position.le_ends

/-- With nothing on offer, what is read next lies at the read cursor. -/
theorem Passing.next_eq_read (h : k.Passing c rest later) (idle : k.staged = none) :
    k.log.next = k.log.read := by
  rw [h.next_eq, idle]
  rfl

theorem Passing.short (h : k.Passing c rest later) (sound : c.Sound) :
    c.isLong (.segment k.log.read.file) = false :=
  sound.not_isTooLong (.segment _) (Nat.lt_of_le_of_lt
    (Nat.le_trans (Position.file_le h.read_le) (Position.file_le h.passage.le)) h.small)

theorem busy_of_lt (idle : k.staged = none) (unread : k.log.read < k.log.write) : ¬k.Blocked := by
  refine not_not.2 ⟨by rw [idle]; rfl, ?_⟩
  exact decide_eq_true unread

/-- A frame at the read cursor is staged. -/
theorem Passing.stage (h : k.Passing c (m :: rest) later) (sound : c.Sound) (idle : k.staged = none)
    (counts : k.Counts aside passed) (stands : Stands c k.log.segments k.log.read m)
    (onward : Passage c k.log.segments (k.log.read.past c.maxBytesPerFile m.length) rest later
      k.log.write) :
    ∃ log, k.log.readFrame c = some (m, log) ∧
      Underway { k with log, staged := some m } c aside (passed ++ later) (m :: rest) := by
  have here := h.next_eq_read idle
  obtain ⟨log, read, opens, reader, rfl⟩ := Outline.readFrame_of_stands sound.toValid
    (here ▸ h.opens) (Position.lt_of_past_le onward.le) (h.short sound) stands
  refine ⟨_, read, ⟨rest, passed, later, rfl, rfl, ?_, counts.corruptions, counts.behind,
    counts.aside⟩, rfl, fun idle => absurd idle.1 Bool.false_ne_true⟩
  exact ⟨onward, rfl, opens, h.ends, h.small⟩

/-- A segment before the last that can be read no further is passed over. -/
theorem Passing.skip (h : k.Passing c rest (k.log.read.file :: later)) (sound : c.Sound)
    (idle : k.staged = none) (counts : k.Counts aside passed)
    (nothing : ∀ m, ¬Stands c k.log.segments k.log.read m)
    (before : k.log.read.file < k.log.write.file)
    (onward : Passage c k.log.segments k.log.read.nextFile rest later k.log.write) :
    k.log.readFrame c = none ∧ (k.giveUp c).Passing c rest later ∧ (k.giveUp c).staged = none ∧
      (k.giveUp c).Counts aside (passed ++ [k.log.read.file]) := by
  have here := h.next_eq_read idle
  obtain ⟨segments, given, depth, eq, same, kept⟩ := Outline.quarantine_skips (c := c) before
  refine ⟨Outline.readFrame_of_nothing (here ▸ h.opens) (Or.inl before) (h.short sound) nothing, ?_,
    idle, ?_⟩
  · rw [giveUp, eq]
    have last := same k.log.write.file (Nat.ne_of_gt before)
    constructor
    case passage =>
      refine onward.congr (fun j low _ => same j (Nat.ne_of_gt low)) fun _ bs there => ?_
      exact ⟨bs, last.trans there, List.prefix_refl bs⟩
    case next_eq =>
      rw [show k.staged.toList = [] by rw [idle]; rfl]
      rfl
    case opens =>
      exact ⟨fun _ closed => absurd closed (Option.not_mem_none _), fun _ _ => Nat.zero_lt_succ _⟩
    case ends => exact h.ends.congr fun j high => same j (by omega)
    case small => exact h.small
  · rw [giveUp, eq]
    constructor
    case corruptions =>
      rw [List.length_append, ← counts.corruptions]
      rfl
    case behind =>
      intro j hj
      rcases List.mem_append.1 hj with old | new
      · exact Nat.lt_succ_of_lt (counts.behind j old)
      · rw [List.mem_singleton.1 new]
        exact Nat.lt_succ_self _
    case aside =>
      intro j hj
      rw [List.mem_append, List.mem_singleton, not_or] at hj
      exact (kept j hj.2).trans (counts.aside j hj.1)

/-- Settling passes over segments until there is a message to offer, or nothing is left. -/
theorem Passing.settleWithin (h : k.Passing c rest later) (sound : c.Sound) (idle : k.staged = none)
    (counts : k.Counts aside passed) {rounds : Nat} (enough : later.length < rounds) :
    (k.settleWithin c rounds).Underway c aside (passed ++ later) rest := by
  induction rounds generalizing k passed later with
  | zero => exact absurd enough (Nat.not_lt_zero _)
  | succ rounds ih =>
    have here := h.next_eq_read idle
    obtain ⟨p, p_eq⟩ : ∃ p, p = k.log.read := ⟨_, rfl⟩
    obtain ⟨q, q_eq⟩ : ∃ q, q = k.log.write := ⟨_, rfl⟩
    have passage := h.passage
    rw [here, ← p_eq, ← q_eq] at passage
    cases passage with
    | nil p =>
      have blocked : k.Blocked := blocked_of_met (p_eq.symm.trans q_eq)
      rw [settleWithin_of_blocked blocked]
      exact ⟨⟨[], passed, [], by rw [idle]; rfl, rfl, h, counts⟩, idle, blocked⟩
    | frame stands onward =>
      have unread : p < q := Position.lt_of_past_le onward.le
      subst p_eq q_eq
      obtain ⟨log, read, underway⟩ := h.stage sound idle counts stands onward
      rw [Sketch.settleWithin, if_neg (busy_of_lt idle unread), read]
      exact underway
    | broken nothing before onward =>
      have unread : p < q := Or.inl before
      subst p_eq q_eq
      obtain ⟨failed, passing, idle', counts'⟩ := h.skip sound idle counts nothing before onward
      rw [Sketch.settleWithin, if_neg (busy_of_lt idle unread), failed, List.append_cons]
      exact ih passing idle' counts' (Nat.lt_of_succ_lt_succ enough)

/-- **A sketch whose cursors stand on a passage gets under way.** -/
theorem Passing.settle (h : k.Passing c rest later) (sound : c.Sound)
    (counts : k.Counts aside passed) :
    (k.settle c).Underway c aside (passed ++ later) (k.staged.toList ++ rest) := by
  cases staged : k.staged with
  | none =>
    have here := h.next_eq_read staged
    have few := h.passage.length_le
    rw [here] at few
    exact h.settleWithin sound staged counts (by omega)
  | some m =>
    have blocked : k.Blocked := by
      rw [Blocked, staged]
      exact fun idle => absurd idle.1 Bool.false_ne_true
    rw [settle_eq_self blocked]
    exact ⟨⟨rest, passed, later, by rw [staged], rfl, h, counts⟩, staged, blocked⟩

/-- A frame at the write cursor is one more to read. -/
theorem Passing.write (h : k.Passing c rest later) (admitted : c.Admits m)
    (room : k.log.write.file + 1 < Word.limit) (low : k.log.write.offset < Word.signedLimit)
    (depth : Int) :
    Passing { k with log := { k.log with
      segments := Function.update k.log.segments k.log.write.file (some
        (((k.log.segments k.log.write.file).getD []).overwrite k.log.write.offset (Frame.encode m)))
      write := k.log.write.past c.maxBytesPerFile m.length, depth } } c (rest ++ [m]) later := by
  have ends := h.ends.snoc (v := { record := none, segments := k.log.segments }) (m := m)
    c.maxBytesPerFile
  rw [View.withFrame] at ends
  obtain ⟨old, old_eq⟩ : ∃ old, old = (k.log.segments k.log.write.file).getD [] := ⟨_, rfl⟩
  have full := h.ends.last
  rw [← old_eq] at full ends ⊢
  rw [← full, Bytes.overwrite_length] at ends ⊢
  obtain ⟨segments, segments_eq⟩ : ∃ segments, segments = Function.update k.log.segments
    k.log.write.file (some (old ++ Frame.encode m)) := ⟨_, rfl⟩
  rw [← segments_eq] at ends ⊢
  have last : segments k.log.write.file = some (old ++ Frame.encode m) := by
    rw [segments_eq, Function.update_self]
  have same : ∀ j, j ≠ k.log.write.file → segments j = k.log.segments j := by
    intro j other
    rw [segments_eq, Function.update_of_ne other]
  constructor
  case passage =>
    have before : Passage c segments k.log.next rest later k.log.write := by
      refine h.passage.congr (fun j _ less => same j (Nat.ne_of_lt less)) fun _ bs there => ?_
      refine ⟨_, last, ?_⟩
      rw [old_eq, there, Option.getD_some]
      exact List.prefix_append ..
    have added : (old ++ Frame.encode m).drop k.log.write.offset = Frame.encode m := by
      rw [← full, List.drop_left]
    exact before.snoc ⟨admitted, _, last, added.symm ▸ List.prefix_refl _⟩
  case next_eq => exact h.next_eq
  case opens => exact h.opens.grow h.passage.le low old_eq full last same _ depth
  case ends => exact ends
  case small =>
    rcases Position.past_cases c.maxBytesPerFile k.log.write m.length with ⟨stays, -⟩ | ⟨leaves, -⟩
    · simp only [stays]
      exact h.small
    · simp only [leaves, Position.nextFile]
      exact room

/-- The sketch of a record whose cursors stand on a passage gets under way. -/
theorem underway_start {segments : Nat → Option Bytes} {r : Record} (sound : c.Sound)
    (passage : Passage c segments r.read ms broken r.write) (ends : Ends segments r.write)
    (small : r.write.file < Word.limit)
    (low : r.read < r.write → r.read.offset < Word.signedLimit) :
    (start c (.ofRecord c segments aside r)).Underway c aside broken ms := by
  obtain ⟨depth, taken⟩ := Outline.ofRecord_of_le (c := c) segments aside passage.le
  rw [start, taken]
  obtain ⟨k, k_eq⟩ : ∃ k : Sketch, k = { log :=
      { segments, aside, read := r.read, next := r.read, write := r.write, depth, reader := none } } :=
    ⟨_, rfl⟩
  have passing : k.Passing c ms broken := by
    rw [k_eq]
    exact ⟨passage, rfl, ⟨nofun, fun _ => low⟩, ends, small⟩
  have counts : k.Counts aside [] := by
    rw [k_eq]
    exact ⟨rfl, nofun, fun _ _ => rfl⟩
  have underway := passing.settle sound counts
  rw [k_eq] at underway
  exact underway

namespace Underway

theorem push (h : k.Underway c aside broken ms) (sound : c.Sound) (admitted : c.Admits m)
    (room : k.log.write.file + 1 < Word.limit) (low : k.log.write.offset < Word.signedLimit) :
    (k.step c (.push m)).1 = .pushed (.ok ()) ∧
      (k.step c (.push m)).2.Underway c aside broken (ms ++ [m]) := by
  obtain ⟨⟨rest, passed, later, rfl, rfl, passing, counts⟩, -, -⟩ := h
  have short : c.isLong (.segment k.log.write.file) = false :=
    sound.not_isTooLong (.segment _) passing.small
  have written := passing.write admitted room low (Word.wrap (k.log.depth + 1))
  rw [step, Outline.append_writes admitted short low, List.append_assoc]
  exact ⟨rfl, written.settle sound ⟨counts.corruptions, counts.behind, counts.aside⟩⟩

theorem push_refused (h : k.Underway c aside broken ms) (sound : c.Sound) (refused : ¬c.Admits m) :
    (k.step c (.push m)).1 =
        .pushed (.error (.invalidMessageSize m.length c.minMsgSize c.maxMsgSize)) ∧
      (k.step c (.push m)).2.Underway c aside broken ms := by
  obtain ⟨⟨rest, passed, later, rfl, rfl, passing, counts⟩, -, -⟩ := h
  rw [step, Outline.append_refuses refused]
  exact ⟨rfl, passing.settle sound counts⟩

theorem deliver (h : k.Underway c aside broken ms) (sound : c.Sound) :
    (k.step c .deliver).1 = .delivered ms.head? ∧
      (k.step c .deliver).2.Underway c aside broken ms.tail := by
  rw [← h.offer]
  refine ⟨rfl, ?_⟩
  obtain ⟨⟨rest, passed, later, rfl, rfl, passing, counts⟩, offer, -⟩ := id h
  cases staged : k.staged with
  | none =>
    rw [staged] at offer
    have none : rest = [] := List.head?_eq_none_iff.1 offer.symm
    rw [step, staged, none]
    rw [staged, none] at h
    exact h
  | some m =>
    obtain ⟨segments, depth, moved, same⟩ :=
      Outline.commit_moves (c := c) passing.read_le passing.passage.le
    rw [step, staged, moved]
    refine Passing.settle ?_ sound ⟨counts.corruptions, fun j hj => ?_, counts.aside⟩
    · have onward := Position.file_le passing.passage.le
      constructor
      case passage =>
        refine passing.passage.congr (fun j low _ => same j low) fun _ bs there => ?_
        exact ⟨bs, (same _ onward).trans there, List.prefix_refl bs⟩
      case next_eq => rfl
      case opens =>
        refine ⟨fun l open_ => ?_, passing.opens.closed⟩
        obtain ⟨here, contents, there, offers⟩ := passing.opens.reader l open_
        exact ⟨rfl, contents, (same _ (Nat.le_refl _)).trans there, offers⟩
      case ends => exact passing.ends.congr fun j high => same j (Nat.le_trans onward high)
      case small => exact passing.small
    · exact Nat.lt_of_lt_of_le (counts.behind j hj) (Position.file_le passing.read_le)

/-- What a sketch that is under way has counted are the segments that it has passed over. -/
theorem counted (h : k.Underway c aside broken ms) :
    k.corruptions = (broken.filter (· < k.log.read.file)).length ∧
      ∀ j, j ∉ broken → k.log.aside j = aside j := by
  obtain ⟨⟨rest, passed, later, rfl, rfl, passing, counts⟩, -, -⟩ := h
  refine ⟨?_, fun j hj => counts.aside j fun there => hj (List.mem_append_left _ there)⟩
  have behind : passed.filter (· < k.log.read.file) = passed :=
    List.filter_eq_self.2 fun j hj => decide_eq_true (counts.behind j hj)
  have ahead : later.filter (· < k.log.read.file) = [] := by
    refine List.filter_eq_nil_iff.2 fun j hj => ?_
    have low := (passing.passage.sorted.2 j hj).1
    have := Position.file_le passing.read_le
    simp only [decide_eq_true_iff]
    omega
  rw [counts.corruptions, List.filter_append, behind, ahead, List.append_nil]

end Underway

end Sketch

end DurableQueue
