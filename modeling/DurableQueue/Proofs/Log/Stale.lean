import DurableQueue.Proofs.Log.Feed

/-!
# Bytes past the write cursor

A segment may hold bytes past the write cursor, left there by appends that no record knows of. A
reader that stays open may have fetched them (`Log.stale`), and a frame that is written over them
later does not change what the reader kept. If the two agree, the reader still keeps what the file
holds (`Reads.agrees`); if not, it keeps the frames before the new one and after them something
else (`Reads.kept_of_not_agree`), and whatever it reads there is not the new message
(`Reader.agree_of_read`).
-/

namespace DurableQueue

open FileSystem

namespace Bytes

/-- One of two runs of bytes begins with the other. -/
def Agree (a b : Bytes) : Prop := a <+: b ∨ b <+: a

instance (a b : Bytes) : Decidable (a.Agree b) := inferInstanceAs (Decidable (_ ∨ _))

variable {old new kept : Bytes} {p w : Nat}

/-- Kept bytes that agree with what is written over them are still those of the file. -/
theorem prefix_overwrite_of_agree (held : kept <+: old.drop p) (le : p ≤ w)
    (agree : Agree (kept.drop (w - p)) new) : kept <+: (overwrite old w new).drop p := by
  by_cases low : p + kept.length ≤ w
  · exact prefix_overwrite_of_le held low
  obtain ⟨rest, split⟩ := held
  -- the file before `w`, and what the reader kept of it from there on
  obtain ⟨front, front_eq⟩ : ∃ front, front = kept.take (w - p) := ⟨_, rfl⟩
  obtain ⟨stale, stale_eq⟩ : ∃ stale, stale = kept.drop (w - p) := ⟨_, rfl⟩
  have cut : kept = front ++ stale := by rw [front_eq, stale_eq, List.take_append_drop]
  have size : front.length = w - p := by
    rw [front_eq, List.length_take]
    omega
  have within : w ≤ old.length := by
    have := congrArg List.length split
    simp only [List.length_append, List.length_drop] at this
    omega
  have behind : old.drop w = stale ++ rest := by
    have := congrArg (List.drop front.length) split
    rw [cut, List.append_assoc, List.drop_left, List.drop_drop, size] at this
    rw [this]
    congr 1
    omega
  have before : (old.take w).drop p = front := by
    rw [List.drop_take, ← split, cut, List.append_assoc, ← size, List.take_left]
  have written : (overwrite old w new).drop p = front ++ (new ++ old.drop (w + new.length)) := by
    rw [overwrite_of_le within, List.append_assoc, List.drop_append_of_le_length, before]
    rw [List.length_take]
    omega
  rw [written, cut]
  refine (List.prefix_append_right_inj front).2 ?_
  rw [← stale_eq] at agree
  rcases agree with inside | ⟨more, more_eq⟩
  · exact inside.trans (List.prefix_append ..)
  · have after : old.drop (w + new.length) = more ++ rest := by
      rw [← List.drop_drop, behind, ← more_eq, List.append_assoc, List.drop_left]
    rw [after, ← more_eq, ← List.append_assoc]
    exact List.prefix_append ..

end Bytes

/-- Within one segment a trail is the frames of its messages, one after the other. -/
theorem Trail.flat {c : Config} {segments : Nat → Option Bytes} {p q : Position} {ms : List Bytes}
    {bs : Bytes} (trail : Trail c segments p ms q) (same : p.file = q.file)
    (there : segments p.file = some bs) :
    q.offset = p.offset + (ms.flatMap Frame.encode).length ∧
      bs.drop p.offset = ms.flatMap Frame.encode ++ bs.drop q.offset := by
  induction trail with
  | nil p => exact ⟨rfl, rfl⟩
  | @cons p q m bs' ms fits admitted found frame rest ih =>
    rw [found] at there
    cases there
    rcases Position.past_cases c.maxBytesPerFile p m.length with ⟨e, -⟩ | ⟨e, -⟩
    · rw [e] at ih rest
      obtain ⟨offset, split⟩ := ih same found
      have size := Frame.length_encode m
      refine ⟨?_, ?_⟩
      · rw [offset, List.flatMap_cons, List.length_append, size]
        simp only
        omega
      · obtain ⟨more, more_eq⟩ := frame
        have tail : bs.drop (p.offset + Frame.diskSize m.length) = more := by
          rw [← List.drop_drop, ← more_eq, ← size, List.drop_left]
        rw [List.flatMap_cons, List.append_assoc, ← split, tail, more_eq]
    · have := Position.file_le rest.le
      rw [e] at this
      simp only [Position.nextFile] at this
      omega

namespace Reader

variable {r r' : Reader} {d d' : Disk} {n : Nat} {bs message : Bytes} {least most : Nat}

/-- What is handed out begins with what was kept, or is the front of it. -/
theorem take_ok (h : take n (r, d) = (.ok bs, (r', d'))) :
    bs.length = n ∧
      (bs = r.ahead.take n ∧ r'.ahead = r.ahead.drop n ∧ n ≤ r.ahead.length ∨ r.ahead <+: bs) := by
  rw [take] at h
  split at h
  · next enough =>
    cases h
    exact ⟨List.length_take_of_le enough, Or.inl ⟨rfl, rfl, enough⟩⟩
  · next few =>
    simp only at h
    split at h
    · cases h
    · split at h
      · cases h
      · next plenty =>
        cases h
        refine ⟨?_, Or.inr (List.prefix_append ..)⟩
        simp only [List.length_append, List.length_take]
        omega

/-- A message that is read agrees with what was kept, whatever the file holds. -/
theorem agree_of_read (h : (r.readFrame least most d).1 = .ok message) :
    Bytes.Agree r.ahead (Frame.encode message) := by
  rw [readFrame, Frame.decodeFrom] at h
  revert h
  cases first : take Frame.headerSize (r, d) with
  | mk result source =>
    obtain ⟨r₁, d₁⟩ := source
    cases result with
    | error e => exact fun h => by cases h
    | ok header =>
      simp only
      obtain ⟨four, head⟩ := take_ok first
      split
      · exact fun h => by cases h
      cases second : take (Bytes.toWord header) (r₁, d₁) with
      | mk result source =>
        obtain ⟨r₂, d₂⟩ := source
        cases result with
        | error e => exact fun h => by cases h
        | ok body =>
          intro h
          cases h
          obtain ⟨size, tail⟩ := take_ok second
          have frame : Frame.encode message = header ++ message := by
            rw [Frame.encode, size, Bytes.ofWord_toWord four]
          rw [frame]
          rcases head with ⟨header_eq, rest, enough⟩ | within
          · have whole : r.ahead = header ++ r₁.ahead := by
              rw [header_eq, rest, List.take_append_drop]
            rw [whole]
            rcases tail with ⟨message_eq, -, -⟩ | within
            · refine Or.inr ((List.prefix_append_right_inj header).2 ?_)
              rw [message_eq]
              exact List.take_prefix ..
            · exact Or.inl ((List.prefix_append_right_inj header).2 within)
          · exact Or.inl (within.trans (List.prefix_append ..))

end Reader

namespace Log

/-- What the reader of the write segment kept of the bytes past the write cursor. -/
def stale (log : Log) : Bytes :=
  match log.reader with
  | some r =>
    if log.next.file = log.write.file then r.ahead.drop (log.write.offset - log.next.offset) else []
  | none => []

/-- Writing the frame of `m` changes nothing that the reader kept of its place. -/
def StaleAgrees (log : Log) (m : Bytes) : Prop := Bytes.Agree log.stale (Frame.encode m)

instance (log : Log) (m : Bytes) : Decidable (log.StaleAgrees m) :=
  inferInstanceAs (Decidable (Bytes.Agree _ _))

variable {log : Log} {dir : Location} {s : Shelf} {staged : Option Bytes} {m : Bytes}
  {ms : List Bytes} {r : Reader}

theorem stale_eq (kept : log.reader = some r) (same : log.next.file = log.write.file) :
    log.stale = r.ahead.drop (log.write.offset - log.next.offset) := by
  simp only [stale, kept, if_pos same]

theorem Reads.agrees (h : log.Reads dir s staged ms) (agree : log.StaleAgrees m) :
    log.Agrees (.of s) m := by
  intro r kept same
  obtain ⟨-, number, inode, found, offers⟩ := h.reader r kept
  rw [same] at found
  have le : log.next.offset ≤ log.write.offset := by
    have := h.next_le
    simp only [Position.le_iff] at this
    omega
  rw [View.segments_of_some found, Option.getD_some]
  refine Bytes.prefix_overwrite_of_agree offers.kept le ?_
  rw [StaleAgrees, stale_eq (Option.mem_def.1 kept) same] at agree
  exact agree

/-- Bytes that differ from the frame are kept by a reader of the write segment, after the frames
that come before it. -/
theorem Reads.kept_of_not_agree (h : log.Reads dir s staged ms) (differ : ¬log.StaleAgrees m) :
    log.next.file = log.write.file ∧ ∃ r, log.reader = some r ∧
      r.ahead = (ms.drop staged.toList.length).flatMap Frame.encode ++ log.stale := by
  rcases Option.eq_none_or_eq_some log.reader with closed | ⟨r, kept⟩
  · refine absurd (Or.inl ?_) differ
    simp only [stale, closed]
    exact List.nil_prefix
  by_cases same : log.next.file = log.write.file
  · refine ⟨same, r, kept, ?_⟩
    have past_eq := stale_eq kept same
    obtain ⟨-, number, inode, found, offers⟩ := h.reader r kept
    obtain ⟨offset, split⟩ := h.rest.flat same (View.segments_of_some found)
    have held := offers.kept
    rw [split] at held
    have size : log.write.offset - log.next.offset =
        ((ms.drop staged.toList.length).flatMap Frame.encode).length := by omega
    have past : ((ms.drop staged.toList.length).flatMap Frame.encode).length < r.ahead.length := by
      refine Nat.lt_of_not_le fun short => differ (Or.inl ?_)
      rw [past_eq, size, List.drop_eq_nil_of_le short]
      exact List.nil_prefix
    rw [past_eq, size]
    have front := List.prefix_of_prefix_length_le (List.prefix_append ..) held (Nat.le_of_lt past)
    obtain ⟨more, more_eq⟩ := front
    rw [← more_eq, List.drop_left]
  · refine absurd (Or.inl ?_) differ
    simp only [stale, kept, if_neg same]
    exact List.nil_prefix

end Log

end DurableQueue
