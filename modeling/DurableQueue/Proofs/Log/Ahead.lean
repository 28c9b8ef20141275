import DurableQueue.Proofs.FileSystem.Calls
import DurableQueue.Proofs.Frame.Exact
import DurableQueue.Reader

/-!
# What lies ahead of a reader

A reader hands out the bytes that it has kept and after them those of the file from where its
handle stands. `Reader.Offers` names these bytes, whether or not the kept ones still agree with
the file, and `read_of_offers`, `offers_of_read` tell the next message from them alone. When they
agree, a reader offers what the file holds from its place on, as one just opened there does
(`offers_open`).
-/

namespace DurableQueue

open FileSystem

namespace Reader

/-- The reader stands at `place` of file `number`, which holds `contents`, and `bs` lies ahead. -/
structure Offers (r : Reader) (number : Nat) (contents : Bytes) (place : Nat) (bs : Bytes) :
    Prop where
  node : r.handle.node = .file number
  offset_eq : r.handle.offset = place + r.ahead.length
  ahead_eq : bs = r.ahead ++ contents.drop r.handle.offset

variable {r : Reader} {number place : Nat} {contents contents' bs : Bytes}

/-- What was kept is what the file holds, as long as all that lies ahead is. -/
theorem Offers.kept (h : r.Offers number contents place (contents.drop place)) :
    r.ahead <+: contents.drop place :=
  ⟨contents.drop r.handle.offset, h.ahead_eq.symm⟩

/-- A reader whose kept bytes are those of the file offers what the file holds. -/
theorem offers_of_kept (node : r.handle.node = .file number)
    (offset_eq : r.handle.offset = place + r.ahead.length)
    (kept : r.ahead <+: contents.drop place) :
    r.Offers number contents place (contents.drop place) where
  node := node
  offset_eq := offset_eq
  ahead_eq := by
    obtain ⟨rest, split⟩ := kept
    have tail := congrArg (List.drop r.ahead.length) split
    rw [List.drop_left, List.drop_drop] at tail
    rw [← split, tail, offset_eq]

/-- A reader that has just been opened. -/
theorem offers_open (path : String) :
    ({ handle := ⟨path, .file number, place⟩ } : Reader).Offers number contents place
      (contents.drop place) :=
  offers_of_kept rfl rfl List.nil_prefix

section Disk

variable {c : Config} {dir : Location} {P : View → Prop} {d : Disk} {s : Shelf} {f : QueueFile}
  {inode : Inode} {message : Bytes}

/-- A reader of `f` on a disk that calls from `d` have led to. -/
def Ahead (c : Config) (dir : Location) (P : View → Prop) (d : Disk) (s : Shelf) (number : Nat)
    (contents : Bytes) (source : Reader × Disk) (place : Nat) (bs : Bytes) : Prop :=
  source.1.Offers number contents place bs ∧ Disk.Reaches c dir P d source.2 s

/-- A reader after a fetch that brought `fetched`, of which `skipped` were taken. -/
def fetch (r : Reader) (fetched : Bytes) (skipped : Nat) : Reader where
  handle := { r.handle with offset := r.handle.offset + fetched.length }
  ahead := fetched.drop skipped

/-- With too few bytes kept, a fetch brings what follows them in the file: as many as are missing,
or all that are left. -/
theorem take_fetches (found : s f = some (number, inode)) (shown : P (.of s)) {d₀ : Disk}
    (offers : r.Offers number inode.contents place bs) (reached : Disk.Reaches c dir P d d₀ s)
    {n : Nat} (more : r.ahead.length < n) :
    ∃ d' fetched rest, bs = r.ahead ++ fetched ++ rest ∧
      rest = inode.contents.drop (r.handle.offset + fetched.length) ∧
      (fetched.length < n - r.ahead.length → rest = []) ∧
      Disk.Reaches c dir P d d' s ∧
      take n (r, d₀) =
        if fetched.length < n - r.ahead.length then
          (.error .unexpectedEnd, (r.fetch fetched fetched.length, d'))
        else
          (.ok (r.ahead ++ fetched.take (n - r.ahead.length)),
            (r.fetch fetched (n - r.ahead.length), d')) := by
  obtain ⟨size, size_eq⟩ : ∃ size, size = max (n - r.ahead.length) capacity := ⟨_, rfl⟩
  have wanted : n - r.ahead.length ≤ size := size_eq ▸ Nat.le_max_left ..
  obtain ⟨d', read, more'⟩ := reached.read (P := P) r.handle offers.node found size shown
  refine ⟨d', (inode.contents.drop r.handle.offset).take size,
    (inode.contents.drop r.handle.offset).drop size, ?_, ?_, ?_, reached.trans more', ?_⟩
  · rw [offers.ahead_eq, List.append_assoc, List.take_append_drop]
  · rw [List.drop_drop]
    apply List.drop_eq_drop_iff.2
    simp only [List.length_take, List.length_drop]
    omega
  · intro few
    apply List.drop_eq_nil_of_le
    simp only [List.length_take] at few
    omega
  · simp only [take, if_neg (Nat.not_le.2 more), ← size_eq, read, fetch, List.drop_length]

theorem supplies (found : s f = some (number, inode)) (shown : P (.of s)) :
    Frame.Supplies take (Ahead c dir P d s number inode.contents) := by
  rintro n ⟨r, d₀⟩ place bs ⟨offers, reached⟩ enough
  change r.Offers number inode.contents place bs at offers
  by_cases within : n ≤ r.ahead.length
  · refine ⟨({ r with ahead := r.ahead.drop n }, d₀), ?_, ⟨?_, ?_, ?_⟩, reached⟩
    · rw [take, if_pos within, offers.ahead_eq, List.take_append_of_le_length within]
    · exact offers.node
    · have := offers.offset_eq
      simp only [List.length_drop]
      omega
    · rw [offers.ahead_eq, List.drop_append_of_le_length within]
  · obtain ⟨d', fetched, rest, split, rest_eq, last, reached', outcome⟩ :=
      take_fetches found shown offers reached (Nat.lt_of_not_le within)
    have plenty : ¬fetched.length < n - r.ahead.length := by
      intro few
      have none := last few
      subst none
      rw [split] at enough
      simp only [List.append_nil, List.length_append] at enough
      omega
    rw [if_neg plenty] at outcome
    refine ⟨(r.fetch fetched (n - r.ahead.length), d'), ?_, ⟨offers.node, ?_, ?_⟩, reached'⟩
    · have all : r.ahead.take n = r.ahead := List.take_of_length_le (by omega)
      rw [outcome, split, List.append_assoc, List.take_append, all,
        List.take_append_of_le_length (by omega)]
    · have := offers.offset_eq
      simp only [fetch, List.length_drop]
      omega
    · rw [split, List.append_assoc, List.drop_append, List.drop_of_length_le (by omega),
        List.nil_append, List.drop_append_of_le_length (by omega), rest_eq]
      rfl

/-- A message whose frame lies ahead is read. -/
theorem read_of_offers (h : d.Serves c dir s) (sound : c.Sound) (found : s f = some (number, inode))
    (shown : P (.of s)) (offers : r.Offers number inode.contents place bs)
    (admitted : c.Admits message) (frame : Frame.encode message <+: bs) :
    ∃ r' d', r.readFrame c.minMsgSize c.maxMsgSize d = (.ok message, (r', d')) ∧
      r'.Offers number inode.contents (place + Frame.diskSize message.length)
        (bs.drop (Frame.diskSize message.length)) ∧
      Disk.Reaches c dir P d d' s := by
  have there : Ahead c dir P d s number inode.contents (r, d) place bs := ⟨offers, h.refl⟩
  obtain ⟨⟨r', d'⟩, read, offers', reached⟩ :=
    Frame.decodeFrom_of_ahead (supplies found shown) sound.toValid admitted there frame
  exact ⟨r', d', read, offers', reached⟩

/-- The reader `r`, of whose kept bytes `bs` are left. -/
def Kept (r : Reader) (d : Disk) (source : Reader × Disk) (_place : Nat) (bs : Bytes) : Prop :=
  source = ({ r with ahead := bs }, d)

/-- A message whose whole frame was kept is read from what was kept, whatever the file holds. -/
theorem read_of_kept (sound : c.Sound) (admitted : c.Admits message)
    (frame : Frame.encode message <+: r.ahead) :
    r.readFrame c.minMsgSize c.maxMsgSize d = (.ok message,
      ({ r with ahead := r.ahead.drop (Frame.diskSize message.length) }, d)) := by
  have supplies : Frame.Supplies take (Kept r d) := by
    rintro n _ place bs rfl enough
    exact ⟨_, by rw [take, if_pos enough], rfl⟩
  have there : Kept r d (r, d) 0 r.ahead := rfl
  obtain ⟨_, read, rfl⟩ :=
    Frame.decodeFrom_of_ahead supplies sound.toValid admitted there frame
  exact read

end Disk

end Reader

end DurableQueue
