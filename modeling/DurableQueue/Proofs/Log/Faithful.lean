import DurableQueue.Proofs.Log.Stale
import DurableQueue.Proofs.Queue.Opening

/-!
# When kept bytes are noticed

A log is taken up from a record whose frames are intact, with any bytes whatever past its write
cursor. `faithful_iff` says exactly when its users notice those bytes: it answers as the list of
its unread messages, however long it is drained, if and only if no frame was ever written over kept
bytes that differ from it (`Log.StaleAgrees`).

As long as no such append happens the reader's bytes are those of the file (`Feed.Keeps`). After
one of them the reader is doomed: it hands out the messages before that frame, and then anything
but the message in it (`Feed.Doomed`).
-/

namespace DurableQueue

open FileSystem

namespace Feed

/-- A frame that is appended does not differ from what the reader kept of its place. -/
def AgreesFor (f : Feed) : Action → Prop
  | .append m => f.log.config.Admits m → f.log.StaleAgrees m
  | .read | .commit => True

instance (f : Feed) : ∀ a, Decidable (f.AgreesFor a)
  | .append m => inferInstanceAs (Decidable (f.log.config.Admits m → f.log.StaleAgrees m))
  | .read => inferInstanceAs (Decidable True)
  | .commit => inferInstanceAs (Decidable True)

variable {f : Feed} {c : Config} {dir : Location} {s : Shelf} {p : Plain} {a : Action}
  {actions : List Action} {m : Bytes} {n : Nat}

/-- What holds of every reading and committing holds throughout a drain. -/
theorem throughout_drains {P : Feed → Action → Prop} (reads : ∀ f, P f .read)
    (commits : ∀ f, P f .commit) : Throughout P f (actions ++ drains n) ↔ Throughout P f actions := by
  induction actions generalizing f with
  | nil =>
    refine iff_of_true ?_ trivial
    induction n generalizing f with
    | zero => trivial
    | succ n ih => exact ⟨reads f, commits _, ih⟩
  | cons a actions ih => exact and_congr_right fun _ => ih

/-! ### As long as the kept bytes agree -/

/-- A feed whose reader, if it is open, keeps what the file holds. -/
structure Keeps (f : Feed) (c : Config) (dir : Location) (s : Shelf) (p : Plain) : Prop where
  config : f.log.config = c
  reads : f.log.Reads dir s f.staged p.waiting
  staged_eq : p.staged = f.staged
  depth_eq : f.log.depth = p.waiting.length
  few : (p.waiting.length : Int) < Word.signedLimit

/-- An action that the list answers alike, and that keeps what the reader has kept. -/
structure Goes (f : Feed) (a : Action) (c : Config) (dir : Location) (p : Plain) : Prop where
  answer : (f.act a).1 = (p.act c a).1
  resets : (f.act a).2.log.tailResets = f.log.tailResets
  keeps : ∃ s', (f.act a).2.Keeps c dir s' (p.act c a).2

theorem Keeps.append (h : f.Keeps c dir s p) (sound : c.Sound) (room : f.log.HasRoom)
    (agrees : f.AgreesFor (.append m)) : f.Goes (.append m) c dir p := by
  obtain ⟨rfl, reads, staged_eq, depth_eq, few⟩ := h
  by_cases admitted : f.log.config.Admits m
  · obtain ⟨s', log', ok, done, reads', -⟩ := Log.append_spec (P := fun _ => True) reads sound
      room.fits admitted (reads.agrees (agrees admitted)) ⟨trivial, trivial, trivial, fun _ => trivial⟩
    obtain ⟨d, sync, told, w, rfl⟩ := done.rest
    have act : f.act (.append m) = (.appended (.ok ()), { f with log := { f.log.appended m with
        disk := d, needSync := sync, journal := told, writer := w } }) := by
      simp only [act, ok]
    have list : p.act f.log.config (.append m) =
        (.appended (.ok ()), { p with waiting := p.waiting ++ [m] }) := by
      simp only [Plain.act, if_pos admitted]
    have counted := room.depth
    refine ⟨by rw [act, list], by rw [act]; rfl, s', ?_⟩
    rw [act, list]
    refine ⟨rfl, reads', staged_eq, ?_, ?_⟩
    · simp only [Log.appended, Word.signedLimit, List.length_append, List.length_singleton] at counted ⊢
      rw [Word.wrap_of_fits (by omega) (by omega), depth_eq]
      omega
    · simp only [List.length_append, List.length_singleton]
      omega
  · have act : f.act (.append m) = (.appended (.error (.invalidMessageSize m.length
        f.log.config.minMsgSize f.log.config.maxMsgSize)), f) := by
      simp only [act, Log.append_refused admitted]
    have list : p.act f.log.config (.append m) = (.appended (.error (.invalidMessageSize m.length
        f.log.config.minMsgSize f.log.config.maxMsgSize)), p) := by
      simp only [Plain.act, if_neg admitted]
    exact ⟨by rw [act, list], by rw [act], s, by rw [act, list]; exact ⟨rfl, reads, staged_eq, depth_eq, few⟩⟩

theorem Keeps.read (h : f.Keeps c dir s p) (sound : c.Sound) : f.Goes .read c dir p := by
  obtain ⟨rfl, reads, staged_eq, depth_eq, few⟩ := h
  obtain ⟨log, staged⟩ := f
  obtain ⟨waiting, staged'⟩ := p
  simp only at staged_eq reads depth_eq few sound ⊢
  subst staged_eq
  have idle : ∀ act : Feed.act ⟨log, staged'⟩ .read = (.idle, ⟨log, staged'⟩),
      ∀ list : Plain.act log.config ⟨waiting, staged'⟩ .read = (.idle, ⟨waiting, staged'⟩),
      Goes ⟨log, staged'⟩ .read log.config dir ⟨waiting, staged'⟩ := by
    intro act list
    exact ⟨by rw [act, list], by rw [act], s, by rw [act, list]; exact ⟨rfl, reads, rfl, depth_eq, few⟩⟩
  cases staged' with
  | some m => exact idle rfl rfl
  | none =>
    cases waiting with
    | nil =>
      have nothing : ¬(Option.isNone (none : Option Bytes) = true ∧ log.hasUnread = true) :=
        fun unread => reads.hasUnread_iff.1 unread.2 rfl
      exact idle (if_neg nothing) rfl
    | cons m ms =>
      have unread : log.hasUnread = true := reads.hasUnread_iff.2 (List.cons_ne_nil m ms)
      obtain ⟨log', read, ⟨r, d, rfl⟩, reads', -⟩ :=
        Log.readFrame_spec (P := fun _ => True) reads sound trivial
      have act : Feed.act ⟨log, none⟩ .read = (.read (.ok m), ⟨{ log with
          disk := d, reader := r, next := log.read.past log.config.maxBytesPerFile m.length },
          some m⟩) := by
        simp only [act, Option.isNone_none, unread, and_self, if_true, read]
      have list : Plain.act log.config ⟨m :: ms, none⟩ .read = (.read (.ok m), ⟨m :: ms, some m⟩) := rfl
      exact ⟨by rw [act, list], by rw [act], s, by rw [act, list]; exact ⟨rfl, reads', rfl, depth_eq, few⟩⟩

theorem Keeps.commit (h : f.Keeps c dir s p) (sound : c.Sound) : f.Goes .commit c dir p := by
  obtain ⟨rfl, reads, staged_eq, depth_eq, few⟩ := h
  obtain ⟨log, staged⟩ := f
  obtain ⟨waiting, staged'⟩ := p
  simp only at staged_eq reads depth_eq few sound ⊢
  subst staged_eq
  cases staged' with
  | none => exact ⟨rfl, rfl, s, rfl, reads, rfl, depth_eq, few⟩
  | some m =>
    obtain ⟨ms, split⟩ := reads.staged_first
    have split : m :: ms = waiting := split
    subst split
    obtain ⟨d, sync, told, depth, resets, eq, reads', -, counts⟩ :=
      Log.commit_reads (P := fun _ => True) reads sound trivial
    simp only [List.length_cons] at depth_eq few
    obtain ⟨depth_eq', resets_eq, calm⟩ := counts (by omega) (by omega)
    have act : Feed.act ⟨log, some m⟩ .commit = (.committed m false, ⟨log.commit.2, none⟩) := by
      simp only [act, calm]
    have list : Plain.act log.config ⟨m :: ms, some m⟩ .commit = (.committed m false, ⟨ms, none⟩) := rfl
    refine ⟨by rw [act, list], ?_, log.leaving s, ?_⟩
    · rw [act, eq]
      exact resets_eq
    · rw [act, list]
      refine ⟨by rw [eq], reads', rfl, ?_, by simp only; omega⟩
      rw [eq]
      exact depth_eq'

theorem Keeps.act (h : f.Keeps c dir s p) (sound : c.Sound) (room : f.RoomFor a)
    (agrees : f.AgreesFor a) : f.Goes a c dir p := by
  cases a with
  | append m => exact h.append sound room agrees
  | read => exact h.read sound
  | commit => exact h.commit sound

/-- What a reader keeps is what one that is opened now would fetch. -/
theorem Keeps.reader (h : f.Keeps c dir s p) (sound : c.Sound) (vacant : f.staged = none)
    (unread : f.log.hasUnread = true) :
    f.log.readFrame.1 = { f.log with reader := none }.readFrame.1 := by
  obtain ⟨rfl, reads, staged_eq, depth_eq, few⟩ := h
  rw [vacant] at reads
  cases some : p.waiting with
  | nil =>
    rw [some] at reads
    exact absurd rfl (reads.hasUnread_iff.1 unread)
  | cons m ms =>
    rw [some] at reads
    have closed : { f.log with reader := none }.Reads dir s none (m :: ms) :=
      ⟨reads.serves, reads.trail, reads.staged_first, reads.next_eq, nofun, reads.writer⟩
    obtain ⟨log₁, first, -⟩ := Log.readFrame_spec (P := fun _ => True) reads sound trivial
    obtain ⟨log₂, second, -⟩ := Log.readFrame_spec (P := fun _ => True) closed sound trivial
    rw [first, second]

/-- A feed whose kept bytes agree throughout is faithful. -/
theorem Keeps.faithful (h : f.Keeps c dir s p) (sound : c.Sound)
    (room : Throughout RoomFor f actions) (agrees : Throughout AgreesFor f actions) :
    (f.run actions).1 = (p.run c actions).1 ∧
      (f.run actions).2.log.tailResets = f.log.tailResets ∧
      ∃ s', (f.run actions).2.Keeps c dir s' (p.run c actions).2 := by
  induction actions generalizing f s p with
  | nil => exact ⟨rfl, rfl, s, h⟩
  | cons a actions ih =>
    obtain ⟨answer, resets, s', keeps⟩ := h.act sound room.1 agrees.1
    obtain ⟨answers, resets', keeps'⟩ := ih keeps room.2 agrees.2
    simp only [Feed.run, Plain.run]
    exact ⟨by rw [answer, answers], resets'.trans resets, keeps'⟩

/-! ### Once they differ -/

/-- A reader that hands out the messages `front` and then not `m`, although that comes next. -/
structure Doomed (f : Feed) (c : Config) (p : Plain) (front : List Bytes) (m : Bytes) : Prop where
  config : f.log.config = c
  staged_eq : p.staged = f.staged
  waiting : ∃ back, p.waiting = f.staged.toList ++ (front ++ m :: back)
  kept : ∃ r stale, f.log.reader = some r ∧ r.ahead = front.flatMap Frame.encode ++ stale ∧
    ¬Bytes.Agree stale (Frame.encode m)
  near : f.log.next.file = f.log.read.file
  next_eq : f.staged = none → f.log.next = f.log.read
  inside : (f.log.next.ends c.maxBytesPerFile front).file = f.log.next.file
  admitted : ∀ x ∈ front, c.Admits x

variable {front : List Bytes}

/-- An append over kept bytes that differ from its frame dooms the reader. -/
theorem Keeps.doomed (h : f.Keeps c dir s p) (admitted : c.Admits m) (differ : ¬f.log.StaleAgrees m)
    (answer : (f.act (.append m)).1 = (p.act c (.append m)).1) :
    (f.act (.append m)).2.Doomed c (p.act c (.append m)).2
      (p.waiting.drop f.staged.toList.length) m := by
  obtain ⟨rfl, reads, staged_eq, depth_eq, few⟩ := h
  obtain ⟨same, r, kept, ahead⟩ := reads.kept_of_not_agree differ
  obtain ⟨d, write, depth, sync, told, w, eq⟩ := f.log.append_rest m
  have list : p.act f.log.config (.append m) =
      (.appended (.ok ()), { p with waiting := p.waiting ++ [m] }) := by
    simp only [Plain.act, if_pos admitted]
  have after : (f.act (.append m)).2 = { f with log := { f.log with
      disk := d, write, depth, needSync := sync, journal := told, writer := w } } := by
    rw [← eq]
    rfl
  rw [after, list]
  obtain ⟨rest, split⟩ := reads.staged_first
  have rest_eq : p.waiting.drop f.staged.toList.length = rest := by rw [← split, List.drop_left]
  refine ⟨rfl, staged_eq, ⟨[], ?_⟩, ⟨r, f.log.stale, kept, ahead, differ⟩, (reads.reader r kept).1,
    fun vacant => ?_, ?_, ?_⟩
  · simp only [rest_eq]
    rw [← List.append_assoc, split]
  · have next := reads.next_eq
    rw [vacant] at next
    exact next
  · have trail := reads.rest.ends_eq
    rw [trail]
    exact same.symm
  · have trail := reads.rest
    exact fun x hx => trail.admits x hx

theorem Doomed.append (h : f.Doomed c p front m) (x : Bytes) :
    (f.act (.append x)).2.Doomed c (p.act c (.append x)).2 front m := by
  obtain ⟨rfl, staged_eq, ⟨back, waiting⟩, kept, near, next_eq, inside, admitted⟩ := h
  obtain ⟨d, write, depth, sync, told, w, eq⟩ := f.log.append_rest x
  have after : (f.act (.append x)).2 = { f with log := { f.log with
      disk := d, write, depth, needSync := sync, journal := told, writer := w } } := by
    rw [← eq]
    rfl
  rw [after]
  obtain ⟨more, list⟩ : ∃ more, (p.act f.log.config (.append x)).2 =
      { p with waiting := p.waiting ++ more } := by
    by_cases fits : f.log.config.Admits x
    · exact ⟨[x], by simp only [Plain.act, if_pos fits]⟩
    · exact ⟨[], by simp only [Plain.act, if_neg fits, List.append_nil]⟩
  rw [list]
  refine ⟨rfl, staged_eq, ⟨back ++ more, ?_⟩, kept, near, next_eq, inside, admitted⟩
  simp only [waiting, List.append_assoc, List.cons_append]

/-- A message that is answered is the one that the kept reader hands out. -/
theorem read_of_answer {r : Reader} (kept : f.log.reader = some r)
    (answer : (f.act .read).1 = .read (.ok m)) :
    (r.readFrame f.log.config.minMsgSize f.log.config.maxMsgSize f.log.disk).1 = .ok m := by
  have opened : f.log.openReader = (.ok r, f.log) := by simp only [Log.openReader, kept]
  revert answer
  simp only [Feed.act, Log.readFrame, opened]
  split
  · cases r.readFrame f.log.config.minMsgSize f.log.config.maxMsgSize f.log.disk with
    | mk result source =>
      cases result with
      | error e => exact fun answer => by cases answer
      | ok x =>
        intro answer
        cases answer
        rfl
  · exact fun answer => by cases answer

/-- A message that was kept as a whole is read from what was kept. -/
theorem act_read_kept {log : Log} {r : Reader} {x : Bytes} (sound : log.config.Sound)
    (unread : log.hasUnread = true) (kept : log.reader = some r) (fits : log.config.Admits x)
    (first : Frame.encode x <+: r.ahead)
    (within : (log.read.past log.config.maxBytesPerFile x.length).file = log.read.file) :
    Feed.act ⟨log, none⟩ .read = (.read (.ok x), ⟨{ log with
      disk := log.disk, next := log.read.past log.config.maxBytesPerFile x.length,
      reader := some { r with ahead := r.ahead.drop (Frame.diskSize x.length) } }, some x⟩) := by
  have opened : log.openReader = (.ok r, log) := by simp only [Log.openReader, kept]
  have read := Reader.read_of_kept (d := log.disk) sound fits first
  simp only [Feed.act, Option.isNone_none, unread, and_self, if_true, Log.readFrame, opened, read,
    Log.after_eq, within]

/-- A doomed reader that answers as the list has a message left before the one it will miss. -/
theorem Doomed.read (h : f.Doomed c p front m) (sound : c.Sound)
    (answer : (f.act .read).1 = (p.act c .read).1) :
    ∃ front', (f.act .read).2.Doomed c (p.act c .read).2 front' m ∧
      front'.length + 1 = front.length + f.staged.toList.length ∧
      (f.act .read).2.staged ≠ none := by
  have doomed := h
  obtain ⟨rfl, staged_eq, ⟨back, waiting⟩, ⟨r, stale, kept, ahead, differ⟩, near, next_eq, inside,
    admitted⟩ := h
  obtain ⟨log, staged⟩ := f
  obtain ⟨waiting', staged'⟩ := p
  simp only at staged_eq waiting
  subst staged_eq waiting
  cases staged' with
  | some x =>
    have act : Feed.act ⟨log, some x⟩ .read = (.idle, ⟨log, some x⟩) := rfl
    rw [act]
    exact ⟨front, doomed, rfl, nofun⟩
  | none =>
    have next : log.next = log.read := next_eq rfl
    simp only at kept near inside admitted sound
    by_cases unread : log.hasUnread = true
    · cases front with
      | nil =>
        -- the next message is `m`, and what was kept is not its frame
        have wrong : ¬Bytes.Agree r.ahead (Frame.encode m) := by
          rw [ahead]
          exact differ
        exact absurd (Reader.agree_of_read (read_of_answer kept answer)) wrong
      | cons x front =>
        have first : Frame.encode x <+: r.ahead := by
          rw [ahead, List.flatMap_cons, List.append_assoc]
          exact List.prefix_append ..
        rw [next, Position.ends_cons] at inside
        have within := Position.file_past_of_ends inside
        rw [act_read_kept sound unread kept (admitted x List.mem_cons_self) first within]
        refine ⟨front, ⟨rfl, rfl, ⟨back, rfl⟩, ⟨_, stale, rfl, ?_, differ⟩, within, nofun,
          inside.trans within.symm, fun y hy => admitted y (List.mem_cons_of_mem x hy)⟩, rfl, nofun⟩
        simp only [ahead, List.flatMap_cons, List.append_assoc]
        rw [← Frame.length_encode, List.drop_left]
    · have act : Feed.act ⟨log, none⟩ .read = (.idle, ⟨log, none⟩) :=
        if_neg fun both => unread both.2
      rw [act] at answer
      cases front with
      | nil => cases answer
      | cons x front => cases answer

/-- Committing takes the staged message off. -/
theorem Doomed.commit (h : f.Doomed c p front m)
    (answer : (f.act .commit).1 = (p.act c .commit).1) :
    (f.act .commit).2.Doomed c (p.act c .commit).2 front m ∧ (f.act .commit).2.staged = none := by
  have doomed := h
  obtain ⟨rfl, staged_eq, ⟨back, waiting⟩, kept, near, next_eq, inside, admitted⟩ := h
  obtain ⟨log, staged⟩ := f
  obtain ⟨waiting', staged'⟩ := p
  simp only at staged_eq waiting
  subst staged_eq waiting
  cases staged' with
  | none => exact ⟨doomed, rfl⟩
  | some x =>
    have calm : log.commit.1 = false := by
      have same : Answer.committed x log.commit.1 = Answer.committed x false := answer
      cases same_eq : log.commit.1 with
      | false => rfl
      | true =>
        rw [same_eq] at same
        cases same
    have still : log.commit = ({ log with
        read := log.next, depth := Word.wrap (log.depth - 1) } : Log).checkTail
          (Word.wrap (log.depth - 1)) := by
      simp only [Log.commit, if_pos near.symm]
    have after : log.commit.2 = { log with
        read := log.next, depth := Word.wrap (log.depth - 1) } := by
      rw [still] at calm ⊢
      exact Log.checkTail_of_false _ calm
    have act : (Feed.act ⟨log, some x⟩ .commit).2 = ⟨log.commit.2, none⟩ := rfl
    rw [act, after]
    exact ⟨⟨rfl, rfl, ⟨back, rfl⟩, kept, rfl, fun _ => rfl, inside, admitted⟩, rfl⟩

/-- Drained far enough, a doomed reader does not answer as the list. -/
theorem Doomed.drained (h : f.Doomed c p front m) (sound : c.Sound)
    (enough : front.length + f.staged.toList.length < n) :
    (f.run (drains n)).1 ≠ (p.run c (drains n)).1 := by
  induction n generalizing f p front with
  | zero => omega
  | succ n ih =>
    intro same
    simp only [drains, Feed.run, Plain.run] at same
    obtain ⟨answer, rest⟩ := List.cons.inj same
    obtain ⟨answer', rest'⟩ := List.cons.inj rest
    obtain ⟨front', read, shorter, some⟩ := h.read sound answer
    obtain ⟨committed, vacant⟩ := read.commit answer'
    refine ih committed ?_ rest'
    rw [vacant]
    simp only [Option.toList_none, List.length_nil]
    omega

theorem Doomed.act (h : f.Doomed c p front m) (sound : c.Sound)
    (answer : (f.act a).1 = (p.act c a).1) :
    ∃ front', (f.act a).2.Doomed c (p.act c a).2 front' m := by
  cases a with
  | append x => exact ⟨front, h.append x⟩
  | read =>
    obtain ⟨front', read, -⟩ := h.read sound answer
    exact ⟨front', read⟩
  | commit => exact ⟨front, (h.commit answer).1⟩

/-- Whatever else is done meanwhile, the reader will not answer as the list. -/
theorem Doomed.run (h : f.Doomed c p front m) (sound : c.Sound) (actions : List Action) :
    ∃ n, (f.run (actions ++ drains n)).1 ≠ (p.run c (actions ++ drains n)).1 := by
  induction actions generalizing f p front with
  | nil => exact ⟨_, h.drained sound (Nat.lt_succ_self _)⟩
  | cons a actions ih =>
    by_cases answer : (f.act a).1 = (p.act c a).1
    · obtain ⟨front', doomed⟩ := h.act sound answer
      obtain ⟨n, differ⟩ := ih doomed
      refine ⟨n, fun same => differ ?_⟩
      simp only [List.cons_append, Feed.run, Plain.run] at same
      exact (List.cons.inj same).2
    · refine ⟨0, fun same => answer ?_⟩
      simp only [List.cons_append, Feed.run, Plain.run] at same
      exact (List.cons.inj same).1

/-- A feed that answers as the list, however long it is drained, never wrote over kept bytes that
differ. -/
theorem Keeps.agrees (h : f.Keeps c dir s p) (sound : c.Sound) (room : Throughout RoomFor f actions)
    (same : ∀ n, (f.run (actions ++ drains n)).1 = (p.run c (actions ++ drains n)).1) :
    Throughout AgreesFor f actions := by
  induction actions generalizing f s p with
  | nil => trivial
  | cons a actions ih =>
    have answer : (f.act a).1 = (p.act c a).1 := by
      have first := same 0
      simp only [List.cons_append, Feed.run, Plain.run] at first
      exact (List.cons.inj first).1
    have rest : ∀ n, ((f.act a).2.run (actions ++ drains n)).1 =
        ((p.act c a).2.run c (actions ++ drains n)).1 := by
      intro n
      have all := same n
      simp only [List.cons_append, Feed.run, Plain.run] at all
      exact (List.cons.inj all).2
    have agrees : f.AgreesFor a := by
      cases a with
      | append m =>
        intro admitted
        apply Decidable.byContradiction
        intro differ
        rw [h.config] at admitted
        obtain ⟨n, wrong⟩ := (h.doomed admitted differ answer).run sound actions
        exact wrong (rest n)
      | read => trivial
      | commit => trivial
    obtain ⟨-, -, s', keeps⟩ := h.act sound room.1 agrees
    exact ⟨agrees, ih keeps room.2 rest⟩

/-! ### A log that has just been taken up -/

section Opened

variable {d : Disk} {r : Record} {ms : List Bytes}

/-- What a record leads to is kept when the log is taken up. -/
theorem keeps_resumed (serves : d.Serves c dir s) (words : r.InWords)
    (trail : Trail c (View.of s).segments r.read ms r.write) (counted : r.length = ms.length) :
    Keeps { log := Log.ofRecord c d r } c dir s { waiting := ms } := by
  have eq : Log.ofRecord c d r = Log.resumed c d r := by
    apply Log.ofRecord_eq trail.le (by omega)
    intro meet
    have none : ms = [] := by
      apply Decidable.byContradiction
      intro some
      have less := trail.lt_iff.2 some
      rw [meet] at less
      exact Position.lt_irrefl less
    rw [counted, none]
    rfl
  rw [eq]
  exact ⟨rfl, ⟨serves, trail, List.nil_prefix, rfl, nofun, nofun⟩, rfl, counted, counted ▸ words.high⟩

/-- **Bytes past the write cursor are noticed exactly when a frame is written over kept bytes that
differ from it.** -/
theorem faithful_iff (sound : c.Sound) (serves : d.Serves c dir s) (words : r.InWords)
    (trail : Trail c (View.of s).segments r.read ms r.write) (counted : r.length = ms.length)
    (room : Throughout RoomFor { log := Log.ofRecord c d r } actions) :
    (∀ n, Faithful { log := Log.ofRecord c d r } ms (actions ++ drains n)) ↔
      Throughout AgreesFor { log := Log.ofRecord c d r } actions := by
  have keeps := keeps_resumed serves words trail counted
  obtain ⟨f, f_eq⟩ : ∃ f : Feed, f = { log := Log.ofRecord c d r } := ⟨_, rfl⟩
  rw [← f_eq] at keeps room ⊢
  have config := keeps.config
  constructor
  · intro faithful
    apply keeps.agrees sound room
    intro n
    have answers := (faithful n).answers
    rw [config] at answers
    exact answers
  · intro agrees n
    obtain ⟨answers, resets, s', after⟩ := keeps.faithful sound
      ((throughout_drains (n := n) (fun _ => trivial) fun _ => trivial).2 room)
      ((throughout_drains (n := n) (fun _ => trivial) fun _ => trivial).2 agrees)
    have list := Plain.delivered_append_waiting (c := c) (p := { waiting := ms }) List.nil_prefix
      (actions ++ drains n)
    refine ⟨by rw [config]; exact answers, ?_, resets, after.reader sound⟩
    rw [config, answers, ← list]
    exact List.prefix_append ..

end Opened

/-- A disk with a segment that holds one message and after it the frame of another, which no record
knows of. -/
def leftover : Disk where
  tree := (Disk.blank.tree.putFile (Tree.place .narrow [.text "data"] (.segment 0))
    { contents := Frame.encode [97] ++ Frame.encode [90] }).2

/-- The log that a record with the first message only leads to. -/
def afterLeftover : Feed where
  log := Log.ofRecord .narrow leftover { length := 1, write := ⟨0, 5⟩ }

theorem leftover_serves : ∃ s, leftover.Serves .narrow [.text "data"] s ∧
    Trail .narrow (View.of s).segments {} [[97]] ⟨0, 5⟩ := by
  have fresh := Disk.blank_fresh.serves
  obtain ⟨hosts, shelf⟩ := fresh.hosts.putFile (f := .segment 0)
    { contents := Frame.encode [97] ++ Frame.encode [90] }
  refine ⟨_, ⟨fun _ _ => rfl, hosts, shelf⟩, ?_⟩
  refine .cons (by decide) (by decide) ?_ (List.prefix_append (Frame.encode [97]) (Frame.encode [90]))
    (.nil _)
  rw [View.of_update_segment]
  simp only [Function.update_self, Option.map_some]

/-- A reader that has fetched what lies past the write cursor delivers it in place of the message
that is written there. -/
theorem unfaithful_after_leftover :
    ¬(afterLeftover.run [.read, .commit, .append [98], .read, .commit]).1.filterMap Answer.delivered <+:
      [[97]] ++ accepted .narrow [.read, .commit, .append [98], .read, .commit] := by
  decide +kernel

/-- A message that is appended before anything is fetched is read as it is. -/
theorem faithful_after_leftover :
    Throughout AgreesFor afterLeftover [.append [98], .read, .commit] ∧
      ∀ n, afterLeftover.Faithful [[97]] ([.append [98], .read, .commit] ++ drains n) := by
  obtain ⟨s, serves, trail⟩ := leftover_serves
  have words : Record.InWords { length := 1, write := ⟨0, 5⟩ } :=
    ⟨by decide, by decide, ⟨by decide, by decide⟩, ⟨by decide, by decide⟩⟩
  have agrees : Throughout AgreesFor afterLeftover [.append [98], .read, .commit] := by
    decide +kernel
  exact ⟨agrees,
    (faithful_iff Config.narrow_sound serves words trail rfl (by decide +kernel)).2 agrees⟩

end Feed

end DurableQueue
