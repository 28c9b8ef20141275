import Mathlib.Algebra.GroupWithZero.Nat
import Mathlib.Data.List.Forall2
import Mathlib.Data.List.ReduceOption
import DurableQueue.CommandLine.Run
import DurableQueue.Proofs.Queue.Resting
import DurableQueue.Proofs.Text.Lined

/-!
# Commands on a list

What a command shows, and what it leaves, if all that a queue is were the list of its waiting
messages (`Answers`). A push appends its messages up to the first that cannot be appended, and says
how many there are or which one that was; a message is a word of the command line or, if there is
none, a line of the input (`Given`). Every command on a queue that waits answers as the list does
and can be followed by a close, after which the files are at rest with what the list keeps
(`carries_act`).
-/

namespace DurableQueue.CommandLine

open FileSystem (Disk Location)
open Text

/-! ### What is seen of a run -/

/-- What somebody who starts a run sees of it. -/
structure Seen where
  exitCode : Nat := 0
  /-- What was printed. -/
  output : Bytes := []
  /-- What the run failed with. -/
  complaint : Option String := none
  deriving DecidableEq, Repr

/-- What is seen of a run that printed `output` and failed, or did not. -/
def Seen.of (output : Bytes) : Except Failure Unit → Seen
  | .ok () => { output }
  | .error f => { exitCode := 1, output, complaint := some f.message }

def Report.seen (r : Report) : Seen where
  exitCode := r.ending.exitCode
  output := r.output
  complaint := match r.ending with
    | .failed f => some f.message
    | .done | .refused _ | .unlogged => none

/-! ### What is given to a push -/

/-- A line as a message, if it is a text. -/
inductive IsMessage : Bytes → Option Bytes → Prop
  | text (s : String) : IsMessage (encode s) (some (encode s))
  | other {line : Bytes} (no : ∀ s, line ≠ encode s) : IsMessage line none

/-- The messages given to a push with some words and some input; the lines that are not text are
none. -/
inductive Given (input : Bytes) : List String → List (Option Bytes) → Prop
  | words {words : List String} (some : words ≠ []) :
      Given input words (words.map fun word => .some (encode word))
  | lines {rows : List Bytes} {given : List (Option Bytes)} (lined : Lined 0x0A 0x0D input rows)
      (read : List.Forall₂ IsMessage rows given) : Given input [] given

/-- A command on the list of waiting messages: what is seen of it, and the list after it. -/
inductive Answers (c : Config) (input : Bytes) (waiting : List Bytes) :
    Command → Seen → List Bytes → Prop
  | pushed {words : List String} {ms : List Bytes} (given : Given input words (ms.map some))
      (admitted : ∀ m ∈ ms, c.Admits m) :
      Answers c input waiting (.push words) { output := encode s!"pushed {ms.length}\n" }
        (waiting ++ ms)
  /-- A message is too short or too long. -/
  | outside {words : List String} {ms : List Bytes} {m : Bytes} {more : List (Option Bytes)}
      (given : Given input words (ms.map some ++ some m :: more))
      (admitted : ∀ m ∈ ms, c.Admits m) (refused : ¬c.Admits m) :
      Answers c input waiting (.push words)
        { exitCode := 1, complaint := some s!"failed to push message #{ms.length}" } (waiting ++ ms)
  /-- A line is not text. -/
  | unreadable {words : List String} {ms : List Bytes} {more : List (Option Bytes)}
      (given : Given input words (ms.map some ++ none :: more)) (admitted : ∀ m ∈ ms, c.Admits m) :
      Answers c input waiting (.push words)
        { exitCode := 1, complaint := some "failed to read stdin" } (waiting ++ ms)
  | popped {n timeout : Nat} :
      Answers c input waiting (.pop (some n) timeout)
        { output := (waiting.take n).flatMap (· ++ [0x0A]) } (waiting.drop n)
  | counted :
      Answers c input waiting .len { output := encode s!"{waiting.length}\n" } waiting
  | cleared : Answers c input waiting .clear { output := encode s!"cleared {c.name}\n" } []
  | purged : Answers c input waiting .purge { output := encode s!"deleted {c.name}\n" } []

/-- The commands that a list can answer. -/
def Command.Listed : Command → Prop
  | push _ | pop (some _) _ | len | clear | purge => True
  | pop none _ | stat => False

/-! ### What is read -/

variable {c : Config} {dir : Location} {input : Bytes} {words : List String}
  {given : List (Option Bytes)} {q : Queue} {k : Queue.Course} {n : Nat} {ms : List Bytes}

theorem isMessage_decode (line : Bytes) : IsMessage line ((decode line).map fun _ => line) := by
  cases read : decode line with
  | none =>
    refine .other fun s same => ?_
    rw [same, decode_encode] at read
    cases read
  | some s =>
    obtain rfl := decode_eq_some_iff.1 read
    exact .text s

/-- The messages that a command line gives to a push. -/
def messagesOf (input : Bytes) (words : List String) : List (Option Bytes) :=
  if words = [] then inputMessages input else words.map fun word => some (encode word)

theorem given_messagesOf (input : Bytes) (words : List String) :
    Given input words (messagesOf input words) := by
  rw [messagesOf]
  split
  · next none =>
    rw [none]
    refine .lines (lined_lines input) ?_
    rw [inputMessages, List.forall₂_map_right_iff]
    exact List.forall₂_same.2 fun line _ => isMessage_decode line
  · next some => exact .words some

/-- What is given up to the first message that cannot be appended. -/
theorem given_cases (c : Config) (given : List (Option Bytes)) :
    ∃ ms : List Bytes, (∀ m ∈ ms, c.Admits m) ∧ (given = ms.map some ∨
      (∃ m more, ¬c.Admits m ∧ given = ms.map some ++ some m :: more) ∨
      ∃ more, given = ms.map some ++ none :: more) := by
  induction given with
  | nil => exact ⟨[], by simp, Or.inl rfl⟩
  | cons first given ih =>
    cases first with
    | none => exact ⟨[], by simp, Or.inr (Or.inr ⟨given, rfl⟩)⟩
    | some m =>
      by_cases admitted : c.Admits m
      · obtain ⟨ms, all, stop⟩ := ih
        refine ⟨m :: ms, List.forall_mem_cons.2 ⟨admitted, all⟩, ?_⟩
        rcases stop with rfl | ⟨m', more, refused, rfl⟩ | ⟨more, rfl⟩
        · exact Or.inl rfl
        · exact Or.inr (Or.inl ⟨m', more, refused, rfl⟩)
        · exact Or.inr (Or.inr ⟨more, rfl⟩)
      · exact ⟨[], by simp, Or.inr (Or.inl ⟨m, given, admitted, rfl⟩)⟩

/-! ### How much is appended -/

/-- How many bytes messages take on disk. -/
def sizes (ms : List Bytes) : Nat := (ms.map fun m => Frame.diskSize m.length).sum

@[simp] theorem sizes_nil : sizes [] = 0 := rfl

@[simp] theorem sizes_cons (m : Bytes) (ms : List Bytes) :
    sizes (m :: ms) = Frame.diskSize m.length + sizes ms := by
  rw [sizes, List.map_cons, List.sum_cons, sizes]

/-- How many bytes a command appends at most; a clear counts as one. A line has at least one byte,
and its frame four more. -/
def Command.weight (input : Bytes) : Command → Nat
  | push [] => 5 * input.length
  | push words => sizes (words.map encode)
  | clear => 1
  | pop _ _ | len | stat | purge => 0

theorem sizes_le_of_lined {rows : List Bytes} (lined : Lined 0x0A 0x0D input rows) :
    sizes rows ≤ 5 * input.length := by
  induction lined with
  | nothing => exact Nat.zero_le _
  | last more whole =>
    have := List.length_pos_iff.2 more
    simp only [sizes_cons, sizes_nil, Frame.diskSize, Frame.headerSize]
    omega
  | closed whole bare others ih =>
    simp only [sizes_cons, Frame.diskSize, Frame.headerSize, List.length_append, List.length_cons]
    omega
  | returned whole others ih =>
    simp only [sizes_cons, Frame.diskSize, Frame.headerSize, List.length_append, List.length_cons]
    omega

theorem sizes_le_of_read {rows : List Bytes} (read : List.Forall₂ IsMessage rows given) :
    sizes given.reduceOption ≤ sizes rows := by
  induction read with
  | nil => exact Nat.le_refl _
  | cons first rest ih =>
    cases first with
    | text s =>
      rw [List.reduceOption_cons_of_some, sizes_cons, sizes_cons]
      exact Nat.add_le_add_left ih _
    | other no =>
      rw [List.reduceOption_cons_of_none, sizes_cons]
      exact Nat.le_add_left_of_le ih

theorem Given.sizes_le (h : Given input words given) :
    sizes given.reduceOption ≤ (Command.push words).weight input := by
  cases h with
  | words there =>
    obtain ⟨word, more, rfl⟩ := List.exists_cons_of_ne_nil there
    apply Nat.le_of_eq
    show sizes _ = sizes _
    congr 1
    simp [List.reduceOption]
  | lines lined read => exact Nat.le_trans (sizes_le_of_read read) (sizes_le_of_lined lined)

/-- The messages before the first that is not appended take no more room than all. -/
theorem Given.sizes_front {more : List (Option Bytes)} (h : Given input words (ms.map some ++ more)) :
    sizes ms ≤ (Command.push words).weight input := by
  have all := h.sizes_le
  have front : (ms.map some ++ more).reduceOption = ms ++ more.reduceOption := by
    simp [List.reduceOption]
  rw [front, sizes, List.map_append, List.sum_append] at all
  exact Nat.le_trans (Nat.le_add_right _ _) all

/-! ### What a command does -/

/-- Messages within the bounds are appended one after the other. -/
theorem pushAll_admitted (waits : q.Waits c dir k) (sound : c.Sound) (admitted : ∀ m ∈ ms, c.Admits m)
    (within : k.Within c n) (few : n + sizes ms < Word.signedLimit) :
    ∃ q' : Queue, q'.Waits c dir { k with accepted := k.accepted ++ ms } ∧
      Queue.Course.Within { k with accepted := k.accepted ++ ms } c (n + sizes ms) ∧
      ∀ index more, pushAll q index (ms.map some ++ more) = pushAll q' (index + ms.length) more := by
  induction ms generalizing q k n with
  | nil =>
    rw [List.append_nil]
    exact ⟨q, waits, within, fun _ _ => rfl⟩
  | cons m ms ih =>
    obtain ⟨first, others⟩ := List.forall_mem_cons.1 admitted
    rw [sizes_cons] at few ⊢
    have room := waits.roomFor (e := .push m) within (by simp only [Queue.Event.weight]; omega)
    have steps := waits.push sound first room
    have next := within.step (e := .push m) waits.within
    rw [Queue.Course.step, if_pos first, Queue.Event.weight] at next
    obtain ⟨q', waits', within', rest⟩ := ih steps.waits others next (by omega)
    rw [List.append_assoc, List.singleton_append] at waits' within'
    rw [Nat.add_assoc] at within'
    refine ⟨q', waits', within', fun index more => ?_⟩
    have count : index + (m :: ms).length = index + 1 + ms.length := by
      rw [List.length_cons]
      omega
    rw [List.map_cons, List.cons_append, pushAll, Queue.push_of_step steps.answer_eq, count]
    exact rest (index + 1) more

/-- A command has been carried out as on the list, and what it leaves will be at rest. -/
structure Carried (c : Config) (dir : Location) (input : Bytes) (k k' : Queue.Course)
    (command : Command) (acted : Acted) : Prop where
  answers : Answers c input k.waiting command (.of acted.output acted.result) k'.waiting
  rests : ∃ left shelf, acted.close = (.ok (), left) ∧ left.disk.Serves c dir shelf ∧
    Queue.Rests c dir k' shelf

theorem rests_of_waits {acted : Acted} (waits : acted.queue.Waits c dir k) (sound : c.Sound) :
    ∃ left shelf, acted.close = (.ok (), left) ∧ left.disk.Serves c dir shelf ∧
      Queue.Rests c dir k shelf := by
  obtain ⟨left, shelf, closed, serves, rests⟩ := waits.rests sound
  refine ⟨left, shelf, ?_, serves, rests⟩
  rw [Acted.close, if_pos waits.running, closed]

/-- A push that appends all its messages says how many there are. -/
theorem act_push_ok {count : Nat} {q' : Queue}
    (done : pushAll q 0 (messagesOf input words) = (.ok count, q')) :
    (Command.push words).act q input =
      { result := .ok (), output := encode s!"pushed {count}\n", queue := told q' .pushed } := by
  rw [messagesOf] at done
  simp only [Command.act, done]

theorem act_push_error {f : Failure} {q' : Queue}
    (done : pushAll q 0 (messagesOf input words) = (.error f, q')) :
    (Command.push words).act q input = { result := .error f, queue := q' } := by
  rw [messagesOf] at done
  simp only [Command.act, done]

section Act

variable (waits : q.Waits c dir k) (sound : c.Sound) (within : k.Within c n)
include waits sound within

theorem carried_push (few : n + (Command.push words).weight input < Word.signedLimit) :
    ∃ k', Carried c dir input k k' (.push words) ((Command.push words).act q input) ∧
      k'.Within c (n + (Command.push words).weight input) := by
  have given := given_messagesOf input words
  obtain ⟨ms, admitted, stop⟩ := given_cases c (messagesOf input words)
  obtain ⟨more, split⟩ : ∃ more, messagesOf input words = ms.map some ++ more := by
    rcases stop with all | ⟨m, more, -, stop⟩ | ⟨more, stop⟩
    · exact ⟨[], by rw [all, List.append_nil]⟩
    · exact ⟨_, stop⟩
    · exact ⟨_, stop⟩
  have room : sizes ms ≤ (Command.push words).weight input := (split ▸ given).sizes_front
  obtain ⟨q', waits', within', rest⟩ := pushAll_admitted waits sound admitted within (by omega)
  have list : Queue.Course.waiting { k with accepted := k.accepted ++ ms } = k.waiting ++ ms :=
    List.drop_append_of_le_length waits.within
  refine ⟨_, ?_, within'.mono (by omega)⟩
  rcases stop with all | ⟨m, more, refused, stop⟩ | ⟨more, stop⟩
  · have done : pushAll q 0 (messagesOf input words) = (.ok ms.length, q') := by
      rw [all, ← List.append_nil (ms.map some), rest, pushAll, Nat.zero_add]
    rw [act_push_ok done]
    refine ⟨?_, rests_of_waits (waits'.tell .pushed) sound⟩
    rw [list]
    exact .pushed (all ▸ given) admitted
  · have steps := waits'.push_refused sound refused
    have done : pushAll q 0 (messagesOf input words) =
        (.error (.pushing ms.length (.invalidMessageSize m.length c.minMsgSize c.maxMsgSize)),
          (q'.step (.push m)).2) := by
      rw [stop, rest, pushAll, Queue.push_of_step steps.answer_eq, Nat.zero_add]
    rw [act_push_error done]
    refine ⟨?_, rests_of_waits steps.waits sound⟩
    rw [list]
    exact .outside (stop ▸ given) admitted refused
  · have done : pushAll q 0 (messagesOf input words) = (.error .input, q') := by
      rw [stop, rest, pushAll]
    rw [act_push_error done]
    refine ⟨?_, rests_of_waits waits' sound⟩
    rw [list]
    exact .unreadable (stop ▸ given) admitted

theorem carried_pop (count timeout : Nat) :
    ∃ k', Carried c dir input k k' (.pop (some count) timeout)
        ((Command.pop (some count) timeout).act q input) ∧ k'.Within c n := by
  obtain ⟨taken, u, waits', left⟩ := waits.popMany sound count
  have fewer : (k.waiting.drop count).length ≤ k.waiting.length := by
    rw [List.length_drop]
    exact Nat.sub_le _ _
  refine ⟨_, ⟨?_, rests_of_waits (waits'.tell .popped) sound⟩, within.file, within.offset, ?_⟩
  · have act : (Command.pop (some count) timeout).act q input =
        { result := .ok (), output := (q.popMany count).1.flatMap (· ++ encode "\n"),
          queue := told (q.popMany count).2 .popped } := rfl
    rw [act, taken, left]
    exact .popped
  · rw [left]
    exact Nat.le_trans fewer within.waiting

theorem carried_len :
    ∃ k', Carried c dir input k k' .len (Command.len.act q input) ∧ k'.Within c n := by
  refine ⟨k, ⟨?_, rests_of_waits waits sound⟩, within⟩
  have act : Command.len.act q input =
      { result := .ok (), output := encode s!"{q.length}\n", queue := q } := rfl
  rw [act, waits.length_eq]
  exact .counted

theorem carried_clear (few : n + 1 < Word.signedLimit) :
    ∃ k', Carried c dir input k k' .clear (Command.clear.act q input) ∧ k'.Within c (n + 1) := by
  have steps := waits.clear sound (waits.roomFor (e := .clear) within few)
  have config : q.config = c := waits.config
  have act : Command.clear.act q input =
      { result := .ok (), output := encode s!"cleared {c.name}\n", queue := (q.step .clear).2 } := by
    simp only [Command.act, Queue.clear_of_step steps.answer_eq, config]
  refine ⟨_, ⟨?_, act ▸ rests_of_waits steps.waits sound⟩, within.step (e := .clear) waits.within⟩
  rw [act]
  exact .cleared

omit within in
theorem carried_purge :
    ∃ k', Carried c dir input k k' .purge (Command.purge.act q input) ∧ k'.Within c n := by
  obtain ⟨left, shelf, deleted, ended, serves, rests⟩ := waits.deleted sound
  have config : q.config = c := waits.config
  have act : Command.purge.act q input =
      { result := .ok (), output := encode s!"deleted {c.name}\n", queue := left } := by
    simp only [Command.act, deleted, config]
  refine ⟨{}, ⟨?_, left, shelf, ?_, serves, rests⟩, Nat.zero_le _, Nat.zero_le _, Nat.zero_le _⟩
  · rw [act]
    exact .purged
  · rw [act, Acted.close, ended]
    rfl

/-- **On a queue that waits every command does what it does on the list.** -/
theorem carries_act {command : Command} (listed : command.Listed)
    (few : n + command.weight input < Word.signedLimit) :
    ∃ k', Carried c dir input k k' command (command.act q input) ∧
      k'.Within c (n + command.weight input) := by
  cases command with
  | push words => exact carried_push waits sound within few
  | pop count timeout =>
    cases count with
    | none => exact listed.elim
    | some count => exact carried_pop waits sound within count timeout
  | len => exact carried_len waits sound within
  | stat => exact listed.elim
  | clear => exact carried_clear waits sound within few
  | purge => exact carried_purge waits sound

end Act

end DurableQueue.CommandLine
