import Mathlib.Data.List.Basic
import DurableQueue.Proofs.Log.Seated
import DurableQueue.Proofs.Queue.Opening

/-!
# Appends are all or nothing

An append that succeeds has put its whole frame at the write cursor and moved the cursor past it, or to
the next segment, whether or not the sync of the segment that is left succeeds (`Log.Made`). One that
fails has moved nothing and left nothing but a part of the frame at the write cursor, where the next
append begins (`Log.Undone`); that one succeeds if nothing fails any more (`Seated.append_ok`).

`append_all_or_nothing` says so of every log that requests lead to in a directory where the queue's
files are its own. A frame that goes into something else than a file is not there afterwards, and a
count of messages that does not fit its word wraps (`append_not_made`).
-/

namespace DurableQueue

open FileSystem

/-- What lies before the place of writing stays. -/
theorem Bytes.take_prefix_overwrite (old new : Bytes) (pos : Nat) :
    old.take pos <+: overwrite old pos new := by
  rw [overwrite]
  split
  · exact List.take_prefix ..
  · rw [List.append_assoc, List.append_assoc]
    exact List.prefix_append ..

namespace FileSystem

/-- An open path leads to a file if its name is not too long: the one that is there or a new one. -/
theorem Tree.Homes.openWrite_ok {t : Tree} {c : Config} {dir : Location} {f : QueueFile}
    (homes : t.Homes c dir) (named : c.Named) (short : c.isLong f = false) :
    ∃ number, (t.openWrite (Path.parts (c.path f))).1 = .ok (.file number) := by
  rw [Tree.openWrite, homes.locate_eq named, short]
  simp only [Bool.false_eq_true, if_false]
  rcases homes.plain f with none | ⟨number, there, -⟩
  · rw [none]
    exact ⟨_, rfl⟩
  · rw [there]
    exact ⟨number, rfl⟩

namespace Disk

/-- No call that is still to be made is planned to fail. -/
def Mended (d : Disk) : Prop := ∀ n, d.calls ≤ n → ∀ call, d.faults n call = none

variable {d : Disk} {c : Config} {dir : Location} {f : QueueFile} {w : Handle} {number offset : Nat}

theorem Mended.noted (h : d.Mended) (call : Call) (error : Option FileError) (tree : Tree) :
    (d.noted call error tree).Mended := fun n later => h n (Nat.le_of_succ_le later)

theorem Mended.perform {α : Type} (h : d.Mended) (call : Call)
    (act : Tree → Except FileError α × Tree) :
    d.perform call act =
      ((act d.tree).1, d.noted call (errorOf (act d.tree).1) (act d.tree).2) := by
  rw [Disk.perform, h _ (Nat.le_refl _)]

theorem Mended.openWrite (h : d.Mended) (homes : d.tree.Homes c dir) (named : c.Named)
    (short : c.isLong f = false) : ∃ number d',
      d.openWrite (c.path f) = (.ok ⟨c.path f, .file number, 0⟩, d') ∧ d'.Mended := by
  obtain ⟨number, opened⟩ := homes.openWrite_ok named short
  rw [openWrite_eq, h.perform]
  simp only [opened]
  exact ⟨number, _, rfl, h.noted _ _ _⟩

theorem Mended.seek (h : d.Mended) (small : offset < Word.signedLimit) :
    ∃ w' d', d.seek w offset = (.ok w', d') ∧ w'.node = w.node ∧ d'.Mended := by
  unfold Disk.seek
  by_cases start : offset = 0
  · rw [if_pos start]
    exact ⟨w, d, rfl, rfl, h⟩
  · simp only [if_neg start, observe, h.perform, if_pos small]
    exact ⟨_, _, rfl, rfl, h.noted _ _ _⟩

theorem Mended.write (h : d.Mended) (node : w.node = .file number) (new : Bytes) :
    (d.write w new).1 = .ok { w with offset := w.offset + new.length } := by
  simp only [Disk.write, h _ (Nat.le_refl _), node, Tree.write]
  rfl

end Disk

end FileSystem

namespace Log

variable {log log' : Log} {dir : Location} {m : Bytes}

/-- The message was appended: the write cursor stands past its frame, or at the start of the next segment
if the frame ends above the limit, one message more is waiting, and the frame is where the cursor stood.
The other files hold what they held, except that the record may be stored when a segment is left. -/
structure Made (log : Log) (dir : Location) (m : Bytes) (log' : Log) : Prop where
  read_eq : log'.read = log.read
  next_eq : log'.next = log.next
  write_eq : log'.write =
    if log.config.maxBytesPerFile < log.write.offset + Frame.diskSize m.length
    then ⟨log.write.file + 1, 0⟩ else ⟨log.write.file, log.write.offset + Frame.diskSize m.length⟩
  /-- The largest count that its word holds is followed by the least. -/
  depth_eq : log'.depth =
    if log.depth + 1 = Word.signedLimit then -(Word.signedLimit : Int) else log.depth + 1
  takes : ∃ number, Tree.Takes log.config dir (.segment log.write.file) log.write.offset (Frame.encode m)
    number log.disk.tree log'.disk.tree
  retains : log.disk.tree.Retains log.config dir (fun f => f ≠ .segment log.write.file ∧
    (f.IsRecord → log.write.offset + Frame.diskSize m.length ≤ log.config.maxBytesPerFile))
    log'.disk.tree

/-- The message was not appended: nothing moved, the files other than the segment at the write cursor
hold what they held, and that holds no more than a part of the frame at the cursor. -/
structure Undone (log : Log) (dir : Location) (m : Bytes) (log' : Log) : Prop where
  read_eq : log'.read = log.read
  next_eq : log'.next = log.next
  write_eq : log'.write = log.write
  depth_eq : log'.depth = log.depth
  needSync_eq : log'.needSync = log.needSync
  retains : log.disk.tree.Retains log.config dir (· ≠ .segment log.write.file) log'.disk.tree
  below : (log.disk.tree.bytes log.config dir (.segment log.write.file)).take log.write.offset <+:
    log'.disk.tree.bytes log.config dir (.segment log.write.file)
  left : log'.disk.tree = log.disk.tree ∨ ∃ number part, part <+: Frame.encode m ∧
    Tree.Takes log.config dir (.segment log.write.file) log.write.offset part number log.disk.tree
      log'.disk.tree

theorem depth_appended (low : -(Word.signedLimit : Int) ≤ log.depth)
    (high : log.depth < Word.signedLimit) : Word.wrap (log.depth + 1) =
      if log.depth + 1 = Word.signedLimit then -(Word.signedLimit : Int) else log.depth + 1 := by
  by_cases full : log.depth + 1 = Word.signedLimit
  · rw [if_pos full, full]
    decide
  · rw [if_neg full]
    simp only [Word.signedLimit] at low high full
    exact Word.wrap_of_fits (by omega) (by omega)

namespace Seated

/-- **Whatever fails, an append is made as a whole or undone.** -/
theorem append_cases (h : log.Seated dir) (named : log.config.Named) (fits : log.Fits) (m : Bytes) :
    (log.append m).1 = .ok () ∧ log.Made dir m (log.append m).2 ∨
      (∃ e, (log.append m).1 = .error e) ∧ log.Undone dir m (log.append m).2 := by
  have placed := h.place named m
  rw [append_eq]
  revert placed
  generalize log.place m = out
  intro placed
  cases placed with
  | refused e =>
    exact Or.inr ⟨⟨e, rfl⟩, rfl, rfl, rfl, rfl, rfl, .refl h.homes, List.take_prefix .., Or.inl rfl⟩
  | stopped e d retains left =>
    refine Or.inr ⟨⟨e, rfl⟩, rfl, rfl, rfl, rfl, rfl, retains, ?_, left⟩
    rcases left with same | ⟨number, part, -, takes⟩
    · simp only [same]
      exact List.take_prefix ..
    · rw [Tree.bytes_of_held takes.held]
      exact Bytes.take_prefix_overwrite ..
  | placed w d number retains takes node offset =>
    obtain ⟨framed, framed_eq⟩ : ∃ framed : Log, framed = { log with
      disk := d, write := ⟨log.write.file, log.write.offset + Frame.diskSize m.length⟩
      writer := some w, depth := Word.wrap (log.depth + 1) } := ⟨_, rfl⟩
    have seated : framed.Seated dir := by
      rw [framed_eq]
      refine ⟨retains.homes, ?_⟩
      rintro x ⟨⟩
      exact writing_iff.2 ⟨offset, number, _, takes.held, node⟩
    have left := seated.roll_retains (framed_eq ▸ named)
    obtain ⟨d', sync, told, rolled, -⟩ := framed.roll_outcome
    rw [← framed_eq]
    refine Or.inl ⟨rfl, ?_⟩
    show log.Made dir m framed.roll
    rw [rolled] at left ⊢
    rw [framed_eq] at left ⊢
    refine ⟨rfl, rfl, rfl, depth_appended fits.low fits.high, ⟨number, ?_⟩, ?_⟩
    · exact takes.retained left nofun
    · exact (retains.mono fun f among => among.1).trans (left.mono fun f among => among.2)

section Mended

variable (h : log.Seated dir) (named : log.config.Named) (mended : log.disk.Mended)
  (short : log.config.isLong (.segment log.write.file) = false)
  (small : log.write.offset < Word.signedLimit)
include h named mended short small

/-- The segment at the write cursor can be opened if nothing fails. -/
theorem openWriter_ok : ∃ w number d,
    log.openWriter = (.ok w, { log with disk := d }) ∧ w.node = .file number ∧ d.Mended := by
  have path : log.segmentPath log.write.file = log.config.path (.segment log.write.file) := rfl
  rcases Option.eq_none_or_eq_some log.writer with closed | ⟨w, writing⟩
  · obtain ⟨number, d, opened, mended'⟩ := mended.openWrite h.homes named short
    obtain ⟨w, d', sought, node, mended''⟩ := mended'.seek
      (w := ⟨log.config.path (.segment log.write.file), .file number, 0⟩) small
    exact ⟨w, number, d', by simp only [Log.openWriter, closed, path, opened, sought], node, mended''⟩
  · obtain ⟨-, number, inode, -, node⟩ := h.writer w writing
    have kept : log.openWriter = (.ok w, log) := by simp only [Log.openWriter, writing]
    exact ⟨w, number, log.disk, kept, node, mended⟩

/-- An append of a message within the bounds succeeds if nothing fails. -/
theorem append_ok (within : log.config.Admits m) : (log.append m).1 = .ok () := by
  have inside : ¬(m.length < log.config.minMsgSize ∨ log.config.maxMsgSize < m.length) := by
    have bounds := within
    unfold Config.Admits at bounds
    omega
  obtain ⟨w, number, d, opened, node, mended'⟩ := h.openWriter_ok named mended short small
  have wrote := mended'.write node (Frame.encode m)
  unfold Log.append
  simp only [if_neg inside, opened]
  revert wrote
  cases d.write w (Frame.encode m) with
  | mk result d' =>
    rintro rfl
    rfl

end Mended

end Seated

/-- **An append is all or nothing.** Whatever a record says and whatever was asked of the log that took
it up, and whatever fails on the way: an append that succeeds is made, whether or not the sync of a
segment that it leaves succeeds; one that fails is undone, and the next is made where this one was not,
unless it fails as well. It does not if nothing fails any more. -/
theorem append_all_or_nothing {c : Config} {d : Disk} {r : Record} (homes : d.tree.Homes c dir)
    (named : c.Named) (words : r.InWords) (limit : c.maxBytesPerFile < Word.limit)
    (lead : (ofRecord c d r).Leads log) (m : Bytes) :
    ((log.append m).1 = .ok () ∧ log.Made dir m (log.append m).2) ∨
    ((∃ e, (log.append m).1 = .error e) ∧ log.Undone dir m (log.append m).2 ∧
      ∀ m', (((log.append m).2.append m').1 = .ok () →
          (log.append m).2.Made dir m' ((log.append m).2.append m').2) ∧
        (c.Admits m' → (log.append m).2.disk.Mended → c.isLong (.segment log.write.file) = false →
          log.write.offset < Word.signedLimit → ((log.append m).2.append m').1 = .ok ())) := by
  have config : (ofRecord c d r).config = c := by
    obtain ⟨-, told, eq⟩ | ⟨-, depth, sync, told, resets, eq, -⟩ := ofRecord_outcome c d r
    · rw [eq]
      rfl
    · rw [eq]
  have reached : ∀ {later : Log}, (ofRecord c d r).Leads later →
      later.config = c ∧ later.Seated dir ∧ later.Fits := by
    intro later lead
    exact ⟨lead.config_eq.trans config, (seated_ofRecord homes named r).leads (config.symm ▸ named)
        (inOrder_ofRecord c d r) lead,
      (fits_ofRecord c d words).leads lead (config.symm ▸ limit)⟩
  obtain ⟨same, seated, fits⟩ := reached lead
  obtain ⟨same', seated', fits'⟩ := reached (lead.serve (.append m))
  have named' : log.config.Named := same.symm ▸ named
  rcases seated.append_cases named' fits m with made | ⟨failed, undone⟩
  · exact Or.inl made
  refine Or.inr ⟨failed, undone, fun m' => ⟨fun ok => ?_, fun within mended short small => ?_⟩⟩
  · rcases seated'.append_cases (same'.symm ▸ named) fits' m' with ⟨-, made⟩ | ⟨⟨e, failed'⟩, -⟩
    · exact made
    · rw [show ((log.serve (.append m)).append m').1 = .ok () from ok] at failed'
      cases failed'
  · have write : (log.serve (.append m)).write = log.write := undone.write_eq
    refine seated'.append_ok (same'.symm ▸ named) mended ?_ (write ▸ small) (same'.symm ▸ within)
    rw [same', write]
    exact short

/-- A write that stops in the middle of its frame, and an append after it whose segment cannot be synced
when it is left. -/
theorem append_undone_then_made :
    let d : Disk := {
      tree := Disk.blank.tree
      faults := fun n _ =>
        if n = 2 then some ⟨.storageFull, 3⟩ else if n = 6 then some ⟨.other, 0⟩ else none }
    let dir : Location := [.text "data"]
    let log := (ofRecord .narrow d {}).serve (.append [98])
    let log₁ := (log.append [97]).2
    let log₂ := (log₁.append [99]).2
    d.tree.Homes .narrow dir ∧ Config.narrow.Named ∧ Record.InWords {} ∧
      Config.narrow.maxBytesPerFile < Word.limit ∧ (ofRecord .narrow d {}).Leads log ∧
      log.Undone dir [97] log₁ ∧ .rollSyncFailed ∈ log₂.journal ∧ log₁.Made dir [99] log₂ := by
  intro d dir log log₁ log₂
  have homes : d.tree.Homes .narrow dir := Disk.blank_fresh.toVacant.hosts.homes
  have named : Config.narrow.Named := Config.narrow_sound.named
  have words : Record.InWords {} :=
    ⟨by decide, by decide, by constructor <;> decide, by constructor <;> decide⟩
  have limit : Config.narrow.maxBytesPerFile < Word.limit := by decide
  have lead : (ofRecord .narrow d {}).Leads log := leads_serve _ _
  have torn : (log.append [97]).1 ≠ .ok () := by decide +kernel
  have told : .rollSyncFailed ∈ log₂.journal := by decide +kernel
  rcases append_all_or_nothing homes named words limit lead [97] with ⟨ok, -⟩ | ⟨-, undone, next⟩
  · exact absurd ok torn
  · exact ⟨homes, named, words, limit, lead, undone, told, (next [99]).1 (by decide +kernel)⟩

/-- **A frame that is written to what is no file is not found, and a count that does not fit its word
wraps.** The segment at the write cursor is a link to a device that keeps nothing; as many messages wait
as can be counted. -/
theorem append_not_made :
    let linked : Disk := { tree := { entries := [
      ([.text "data"], .directory), ([.text "dev"], .directory),
      ([.text "null", .text "dev"], .device .null),
      ([.text "q.queue.000000.dat", .text "data"], .link "/dev/null")] } }
    let swallowed := (ofRecord .narrow linked {}).append [97]
    let crowded : Record := { length := 9223372036854775807, write := ⟨0, 5⟩ }
    let wrapped := (ofRecord .narrow .blank crowded).append [97]
    (swallowed.1 = .ok () ∧ swallowed.2.write = ⟨0, 5⟩ ∧
      (swallowed.2.disk.readFile (swallowed.2.segmentPath 0)).1 = .ok []) ∧
    crowded.InWords ∧ wrapped.1 = .ok () ∧
      (ofRecord .narrow .blank crowded).depth = 9223372036854775807 ∧
      wrapped.2.depth = -9223372036854775808 := by
  intro linked swallowed crowded wrapped
  refine ⟨⟨by decide +kernel, by decide +kernel, by decide +kernel⟩, ?_, by decide +kernel,
    by decide +kernel, by decide +kernel⟩
  exact ⟨by decide, by decide, by constructor <;> decide, by constructor <;> decide⟩

end Log

end DurableQueue
