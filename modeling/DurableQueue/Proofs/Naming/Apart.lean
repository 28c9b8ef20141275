import DurableQueue.Proofs.FileSystem.Shelf

/-!
# Files of different queues

Two queues of different names share no path of a directory, whatever their names are: a name may
itself hold what sets the parts of a file's name off, or be a whole name of another queue's file.
A file's name is told apart from its end, where the last letter `q` stands in the fixed middle
(`QueueFile.name_eq_iff`), and what stands in a directory under a name is a part of its own
(`Config.path_eq_iff`). The same holds of every name that a listing takes for a segment
(`queue_eq_of_segmentNumber?`).
-/

namespace DurableQueue

open FileSystem Text

namespace QueueFile

/-- What follows the last `q` of a text does not depend on what the text begins with. -/
theorem append_last_inj {front front' back back' : List Char} (last : 'q' ∉ back)
    (last' : 'q' ∉ back') (same : front ++ 'q' :: back = front' ++ 'q' :: back') :
    front = front' ∧ back = back' := by
  rcases List.append_eq_append_iff.1 same with ⟨more, rfl, eq⟩ | ⟨more, rfl, eq⟩
  · cases more with
    | nil => simpa using eq
    | cons c more =>
      rw [List.cons_append, List.cons.injEq] at eq
      exact absurd (eq.2 ▸ by simp) last
  · cases more with
    | nil => simpa [eq_comm] using eq
    | cons c more =>
      rw [List.cons_append, List.cons.injEq] at eq
      exact absurd (eq.2 ▸ by simp) last'

/-- A queue's name, the fixed middle and an ending without a `q` are told apart. -/
theorem append_middle_inj {queue queue' ending ending' : List Char} (last : 'q' ∉ ending)
    (last' : 'q' ∉ ending')
    (same : queue ++ ".queue.".toList ++ ending = queue' ++ ".queue.".toList ++ ending') :
    queue = queue' ∧ ending = ending' := by
  have middle : ".queue.".toList = ['.'] ++ 'q' :: "ueue.".toList := by decide
  have cut : ∀ queue ending : List Char, queue ++ ".queue.".toList ++ ending =
      (queue ++ ['.']) ++ 'q' :: ("ueue.".toList ++ ending) := by
    intro queue ending
    rw [middle]
    simp
  have tail : ∀ {ending : List Char}, 'q' ∉ ending → 'q' ∉ "ueue.".toList ++ ending := by
    intro ending last there
    rcases List.mem_append.1 there with fixed | there
    · exact absurd fixed (by decide)
    · exact last there
  rw [cut, cut] at same
  obtain ⟨front, back⟩ := append_last_inj (tail last) (tail last') same
  exact ⟨List.append_cancel_right front, List.append_cancel_left back⟩

theorem q_not_digit {cs : List Char} (digits : ∀ c ∈ cs, c.isDigit = true) : 'q' ∉ cs := by
  intro there
  exact absurd (digits 'q' there) (by decide)

theorem isDigit_of_mem_writePadded {width n : Nat} : ∀ c ∈ Decimal.writePadded width n,
    c.isDigit = true := by
  intro c hc
  rcases List.mem_append.1 hc with zero | digit
  · obtain ⟨-, rfl⟩ := List.mem_replicate.1 zero
    decide
  · exact Decimal.isDigit_of_mem_write digit

theorem q_not_mem_tag (tag : Tag) : 'q' ∉ tag.text.toList := by
  intro there
  rw [Tag.text, String.toList_ofList, List.leftpad] at there
  rcases List.mem_append.1 there with zero | digit
  · exact absurd (List.mem_replicate.1 zero).2 (by decide)
  · obtain ⟨d, small, eq⟩ := mem_toDigits_hex digit
    have digits : ∀ d < 16, 'q' ≠ d.digitChar := by decide
    exact digits d small eq

theorem q_not_mem_ending (f : QueueFile) : 'q' ∉ f.ending := by
  have number : ∀ n, 'q' ∉ Decimal.writePadded 6 n := fun _ =>
    q_not_digit isDigit_of_mem_writePadded
  cases f with
  | segment n | quarantined n => simp [ending, number]
  | record => decide
  | temporary tag => simp [ending, q_not_mem_tag]

/-- **A name belongs to one file of one queue.** -/
theorem name_eq_iff {queue queue' : String} {f f' : QueueFile} :
    f.name queue = f'.name queue' ↔ queue = queue' ∧ f = f' := by
  constructor
  · intro same
    have same := congrArg String.toList same
    rw [toList_name, toList_name] at same
    obtain ⟨queues, endings⟩ := append_middle_inj f.q_not_mem_ending f'.q_not_mem_ending same
    exact ⟨String.toList_injective queues, ending_inj endings⟩
  · rintro ⟨rfl, rfl⟩
    rfl

/-- A name that is taken for a segment of a queue is no file's of another queue. -/
theorem queue_eq_of_segmentNumber? {queue queue' : String} {f : QueueFile} {number : Nat}
    (taken : Naming.segmentNumber? queue (f.name queue') = some number) : queue = queue' := by
  obtain ⟨digits, same, read, -⟩ := Naming.segmentNumber?_eq_some_iff.1 taken
  simp only [Decimal.readNat, Option.ite_none_right_eq_some, List.all_eq_true] at read
  have last : 'q' ∉ digits ++ ".dat".toList := by
    rw [List.mem_append, not_or]
    exact ⟨q_not_digit read.1.2, by decide⟩
  rw [toList_name, List.append_assoc _ digits] at same
  exact String.toList_injective (append_middle_inj f.q_not_mem_ending last same).1.symm

/-- A name that is taken for a segment of a queue is one part of a path. -/
theorem noSlash_of_segmentNumber? {queue name : String} {number : Nat}
    (noSlash : '/' ∉ queue.toList) (taken : Naming.segmentNumber? queue name = some number) :
    name.toList ≠ [] ∧ '/' ∉ name.toList := by
  obtain ⟨digits, cut, read, -⟩ := Naming.segmentNumber?_eq_some_iff.1 taken
  simp only [Decimal.readNat, Option.ite_none_right_eq_some, List.all_eq_true] at read
  have digit : '/' ∉ digits := fun there => absurd (read.1.2 '/' there) (by decide)
  rw [cut]
  refine ⟨by simp, ?_⟩
  simp only [List.mem_append, not_or]
  exact ⟨⟨⟨noSlash, by decide⟩, digit⟩, by decide⟩

end QueueFile

namespace Config

variable {c c' : Config} {f f' : QueueFile} {path : String}

/-- Each file of a queue is a child of the data directory. -/
theorem parts_path (noSlash : '/' ∉ c.name.toList) (f : QueueFile) :
    Path.parts (c.path f) = Path.names c.dataPath ++ [.text (f.name c.name)] :=
  Path.parts_join_of_noSlash (by simp [QueueFile.toList_name]) (f.noSlash_name noSlash)

theorem name_ne_dots (c : Config) (f : QueueFile) : f.name c.name ≠ "." ∧ f.name c.name ≠ ".." := by
  constructor
  all_goals
    intro same
    have := congrArg (fun s : String => s.toList.length) same
    simp [QueueFile.toList_name] at this
    omega

/-- **A path belongs to one file of one queue in a directory.** -/
theorem path_eq_iff (noSlash : '/' ∉ c.name.toList) (noSlash' : '/' ∉ c'.name.toList)
    (same : c.dataPath = c'.dataPath) : c.path f = c'.path f' ↔ c.name = c'.name ∧ f = f' := by
  rw [← QueueFile.name_eq_iff]
  constructor
  · intro eq
    have parts := congrArg Path.parts eq
    rw [parts_path noSlash, parts_path noSlash', same] at parts
    simpa using parts
  · intro eq
    rw [path, path, same, eq]

/-- A directory on the way to the data directory is no file of the queue. -/
theorem path_ne_of_prefix (noSlash : '/' ∉ c.name.toList) (f : QueueFile)
    (above : Path.names path <+: Path.names c.dataPath) : path ≠ c.path f := by
  rintro rfl
  have parts := parts_path noSlash f
  have short := above.length_le
  rw [Path.parts] at parts
  split at parts
  · -- the path would end in a slash, and the name be a dot
    have last := congrArg List.getLast? parts
    simp only [List.getLast?_append, List.getLast?_singleton, Option.some_or, Option.some.injEq,
      Name.text.injEq] at last
    exact (c.name_ne_dots f).1 last.symm
  · have length := congrArg List.length parts
    simp only [List.append_nil, List.length_append, List.length_singleton] at length
    omega

end Config

end DurableQueue
