import DurableQueue.Proofs.Log.Appending
import DurableQueue.Proofs.Log.Failing.Sync

/-!
# Appends that may fail

An append refuses its message, or fails in the middle of the frame, or leaves the frame as a whole
at the write cursor (`place_faulty`); what lies before the cursor it never touches (`Tree.Grows`).
If the frame brought the segment above the limit, the segment is then synced and closed
(`roll_of_full`).
-/

namespace DurableQueue

open FileSystem

namespace FileSystem.Tree

/-- Segment `k` is as it was up to `offset`, if not longer, and the other files are what they
were. -/
structure Grows (c : Config) (dir : Location) (k offset : Nat) (t t' : Tree) : Prop where
  spares : t.Spares c dir (· ≠ .segment k) t'
  grown : ∀ number inode, t.shelf c dir (.segment k) = some (number, inode) →
    ∃ inode', t'.shelf c dir (.segment k) = some (number, inode') ∧
      inode.contents.length ≤ inode'.contents.length ∧ inode'.durable = min inode.durable offset

theorem Grows.of_written {c : Config} {dir : Location} {k offset number : Nat} {inode : Inode}
    {t t' t'' : Tree} {part : Bytes} (first : t.Spares c dir (fun _ => True) t')
    (there : t'.shelf c dir (.segment k) = some (number, inode))
    (spares : t'.Spares c dir (· ≠ .segment k) t'')
    (wrote : t''.shelf c dir (.segment k) = some (number, Disk.written inode offset part)) :
    t.Grows c dir k offset t'' where
  spares := (first.mono fun _ _ => trivial).trans spares
  grown n i found := by
    rw [first.same _ _ trivial found] at there
    cases there
    refine ⟨_, wrote, ?_, rfl⟩
    simp only [Disk.written, Bytes.overwrite]
    split
    · exact Nat.le_refl _
    · simp only [List.length_append, List.length_take, List.length_replicate, List.length_drop]
      omega

end FileSystem.Tree

theorem Bytes.le_length_overwrite {old new : Bytes} {pos : Nat} (some : new ≠ []) :
    pos + new.length ≤ (overwrite old pos new).length := by
  rw [overwrite, if_neg (by simpa using some)]
  simp only [List.length_append, List.length_take, List.length_replicate, List.length_drop]
  omega

namespace Log

variable {dir : Location}

/-- The segment that is open for writing is the one at the write cursor, and it is open there. -/
def Writing (log : Log) (dir : Location) (h : Handle) : Prop :=
  h.offset = log.write.offset ∧ ∃ number inode,
    log.disk.tree.shelf log.config dir (.segment log.write.file) = some (number, inode) ∧
      h.node = .file number

theorem openWriter_faulty (log : Log) (hosts : log.disk.tree.Hosts log.config.dataPath dir)
    (sound : log.config.Sound) (writer : ∀ h ∈ log.writer, log.Writing dir h) :
    ∃ d, log.openWriter.2 = { log with disk := d } ∧
      log.disk.tree.Spares log.config dir (fun _ => True) d.tree ∧
      ∀ h, log.openWriter.1 = .ok h → ({ log with disk := d } : Log).Writing dir h := by
  rcases Option.eq_none_or_eq_some log.writer with closed | ⟨w, writing⟩
  · have path : log.segmentPath log.write.file = log.config.path (.segment log.write.file) := rfl
    obtain ⟨spares, made⟩ := Disk.openWrite_faulty hosts sound (.segment log.write.file)
    simp only [openWriter, closed, path]
    revert spares made
    cases log.disk.openWrite (log.config.path (.segment log.write.file)) with
    | mk result d =>
      intro spares made
      cases result with
      | error e => exact ⟨d, rfl, spares, fun _ ok => by cases ok⟩
      | ok h =>
        obtain ⟨number, inode, there, rfl⟩ := made h rfl
        obtain ⟨d', d'_eq⟩ : ∃ d', d' = (d.seek ⟨log.config.path (.segment log.write.file),
          .file number, 0⟩ log.write.offset).2 := ⟨_, rfl⟩
        have same : d'.tree = d.tree := by
          rw [d'_eq]
          exact Disk.tree_seek ..
        have sought := @Disk.seek_ok d ⟨log.config.path (.segment log.write.file), .file number, 0⟩
        simp only
        revert d'_eq
        cases seeking : d.seek ⟨log.config.path (.segment log.write.file), .file number, 0⟩
            log.write.offset with
        | mk result d'' =>
          rintro rfl
          refine ⟨d', ?_, same ▸ spares, fun h ok => ?_⟩
          · cases result <;> rfl
          · cases result with
            | error e => cases ok
            | ok h' =>
              cases ok
              have moved := sought rfl (congrArg Prod.fst seeking)
              rw [moved]
              exact ⟨rfl, number, inode, by simp only [same]; exact there, rfl⟩
  · have ready : log.openWriter = (.ok w, log) := by simp only [openWriter, writing]
    rw [ready]
    refine ⟨log.disk, rfl, .refl hosts, ?_⟩
    intro h ok
    cases ok
    exact writer w writing

/-- What an append comes to, up to the moment at which the segment may be left. -/
inductive Placing (log : Log) (dir : Location) (m : Bytes) : Except Error Unit × Log → Prop
  /-- Nothing was written. -/
  | refused (e : Error) (d : Disk)
    (spares : log.disk.tree.Spares log.config dir (fun _ => True) d.tree) :
    Placing log dir m (.error e, { log with disk := d })
  /-- A part of the frame may have been written, and the segment was closed. -/
  | failed (path : String) (e : FileError) (d : Disk)
    (grows : log.disk.tree.Grows log.config dir log.write.file log.write.offset d.tree) :
    Placing log dir m (.error (.writeSegment path e), { log with disk := d, writer := none })
  /-- The whole frame was written. -/
  | placed (h : Handle) (d : Disk) (number : Nat) (inode : Inode)
    (grows : log.disk.tree.Grows log.config dir log.write.file log.write.offset d.tree)
    (there : d.tree.shelf log.config dir (.segment log.write.file) = some (number, inode))
    (whole : log.write.offset + Frame.diskSize m.length ≤ inode.contents.length)
    (node : h.node = .file number)
    (offset : h.offset = log.write.offset + Frame.diskSize m.length) :
    Placing log dir m (.ok (), { log with
      disk := d, write := ⟨log.write.file, log.write.offset + Frame.diskSize m.length⟩
      writer := some h, depth := Word.wrap (log.depth + 1) })

theorem place_faulty (log : Log) (m : Bytes) (hosts : log.disk.tree.Hosts log.config.dataPath dir)
    (sound : log.config.Sound) (writer : ∀ h ∈ log.writer, log.Writing dir h) :
    Placing log dir m (log.place m) := by
  unfold place
  simp only
  split
  · exact .refused _ _ (.refl hosts)
  obtain ⟨d, rest, first, writing⟩ := openWriter_faulty log hosts sound writer
  revert rest writing
  cases log.openWriter with
  | mk result log' =>
    rintro rfl writing
    cases result with
    | error e => exact .refused _ _ first
    | ok h =>
      obtain ⟨offset, number, inode, there, node⟩ := writing h rfl
      simp only at offset there
      obtain ⟨second, wrote⟩ := Disk.write_faulty first.hosts h node there (Frame.encode m)
      have nonempty : Frame.encode m ≠ [] := by
        intro none
        have size := congrArg List.length none
        rw [Frame.length_encode, Frame.diskSize] at size
        simp only [Frame.headerSize, List.length_nil] at size
        omega
      simp only
      rw [offset] at wrote
      revert second wrote
      cases d.write h (Frame.encode m) with
      | mk result d' =>
        intro second wrote
        rcases wrote with ⟨rfl, there'⟩ | ⟨⟨e, rfl⟩, part, there'⟩
        · refine .placed _ d' number _ (.of_written first there second there') there' ?_ node ?_
          · rw [← Frame.length_encode]
            exact Bytes.le_length_overwrite nonempty
          · rw [Frame.length_encode]
        · exact .failed _ e d' (.of_written first there second there')

end Log

end DurableQueue
