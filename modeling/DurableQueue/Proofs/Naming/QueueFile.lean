import DurableQueue.Config
import DurableQueue.FileSystem.Disk
import DurableQueue.Naming
import DurableQueue.Proofs.FileSystem.Entry

/-!
# The files of a queue

What a queue keeps in its directory, by what each file is for. `name_inj` says that no two of
them share a name, so that a change of one leaves the others; `Config.Sound.isEntry` and
`Config.Sound.short` that every such name can be given to a file, for a queue whose own name
leaves room for the longest of them.
-/

namespace DurableQueue

open FileSystem Text

/-- What tells temporary records apart. -/
structure Tag where
  number : Nat
  small : number < Disk.tagCount
  deriving DecidableEq

/-- The text of a tag. -/
def Tag.text (tag : Tag) : String := String.ofList ((Nat.toDigits 16 tag.number).leftpad 32 '0')

/-- A file of a queue. -/
inductive QueueFile where
  | segment (number : Nat)
  | quarantined (number : Nat)
  | record
  | temporary (tag : Tag)
  deriving DecidableEq

namespace QueueFile

/-- The name of a file of a queue. -/
def name (queue : String) : QueueFile → String
  | segment number => Naming.segmentName queue number
  | quarantined number => Naming.quarantinePath (Naming.segmentName queue number)
  | record => Naming.recordName queue
  | temporary tag => Naming.temporaryPath (Naming.recordName queue) tag.text

/-- What a file's name has after the queue's name. -/
def ending : QueueFile → List Char
  | segment number => Decimal.writePadded 6 number ++ ['.', 'd', 'a', 't']
  | quarantined number => Decimal.writePadded 6 number ++ ['.', 'd', 'a', 't', '.', 'b', 'a', 'd']
  | record => ['m', 'e', 't', 'a', '.', 'd', 'a', 't']
  | temporary tag =>
    ['m', 'e', 't', 'a', '.', 'd', 'a', 't', '.'] ++ tag.text.toList ++ ['.', 't', 'm', 'p']

theorem toList_name (queue : String) (f : QueueFile) :
    (f.name queue).toList = queue.toList ++ ".queue.".toList ++ f.ending := by
  cases f <;>
    simp [name, ending, Naming.segmentName, Naming.quarantinePath, Naming.recordName,
      Naming.temporaryPath]

/-! ### Hexadecimal tags -/

/-- The number that a hexadecimal digit stands for. -/
def hexValue (c : Char) : Nat := if c.isDigit then c.toNat - 48 else c.toNat - 87

theorem hexValue_digitChar : ∀ d < 16, hexValue d.digitChar = d := by decide

/-- The number that a run of hexadecimal digits spells. -/
def hexNumber (cs : List Char) : Nat := cs.foldl (fun n c => 16 * n + hexValue c) 0

theorem hexNumber_toDigits (n : Nat) : hexNumber (Nat.toDigits 16 n) = n := by
  induction n using Nat.strongRecOn with
  | ind n ih =>
    by_cases small : n < 16
    · rw [Nat.toDigits_of_lt_base small]
      simp [hexNumber, hexValue_digitChar n small]
    · rw [Nat.toDigits_of_base_le (by decide) (by omega), hexNumber, List.foldl_append]
      have front := ih (n / 16) (by omega)
      rw [hexNumber] at front
      rw [front]
      simp only [List.foldl_cons, List.foldl_nil, hexValue_digitChar (n % 16) (by omega)]
      omega

theorem hexNumber_leftpad (width n : Nat) :
    hexNumber ((Nat.toDigits 16 n).leftpad width '0') = n := by
  have zeros : ∀ k, (List.replicate k '0').foldl (fun n c => 16 * n + hexValue c) 0 = 0 := by
    intro k
    induction k with
    | zero => rfl
    | succ k ih => rw [List.replicate_succ, List.foldl_cons]; exact ih
  rw [List.leftpad, hexNumber, List.foldl_append, zeros]
  exact hexNumber_toDigits n

theorem tagText_inj {a b : Tag} (h : a.text = b.text) : a = b := by
  have value := congrArg hexNumber (String.ofList_injective h)
  rw [hexNumber_leftpad, hexNumber_leftpad] at value
  cases a; cases b
  simpa using value

theorem mem_toDigits_hex {n : Nat} {c : Char} (h : c ∈ Nat.toDigits 16 n) :
    ∃ d < 16, c = d.digitChar := by
  induction n using Nat.strongRecOn with
  | ind n ih =>
    by_cases small : n < 16
    · rw [Nat.toDigits_of_lt_base small] at h
      exact ⟨n, small, by simpa using h⟩
    · rw [Nat.toDigits_of_base_le (by decide) (by omega), List.mem_append] at h
      rcases h with front | back
      · exact ih (n / 16) (by omega) front
      · exact ⟨n % 16, by omega, by simpa using back⟩

/-! ### No two files share a name -/

theorem ending_inj {a b : QueueFile} (h : a.ending = b.ending) : a = b := by
  have last := congrArg List.getLast? h
  have first : ∀ {number : Nat}, Decimal.writePadded 6 number ≠ ['m', 'e', 't', 'a'] := by
    intro number e
    have digits := Decimal.readNat_writePadded 6 number
    rw [e] at digits
    cases digits
  cases a <;> cases b <;> simp only [ending, List.getLast?_append] at h last
  case segment.segment => simpa [Decimal.writePadded_inj] using h
  case quarantined.quarantined => simpa [Decimal.writePadded_inj] using h
  case temporary.temporary a b =>
    exact congrArg temporary (tagText_inj (String.toList_injective (by simpa using h)))
  case segment.record => exact absurd (List.append_cancel_right h) first
  case record.segment => exact absurd (List.append_cancel_right h.symm) first
  case record.record => rfl
  all_goals simp at last

theorem name_inj {queue : String} {a b : QueueFile} : a.name queue = b.name queue ↔ a = b := by
  refine ⟨fun h => ending_inj ?_, fun h => h ▸ rfl⟩
  have := congrArg String.toList h
  rw [toList_name, toList_name] at this
  exact List.append_cancel_left this

/-! ### Every name can be given to a file -/

/-- A character that is one byte, and neither a slash nor a NUL. -/
def Ordinary (c : Char) : Prop := c ≠ '/' ∧ 0 < c.toNat ∧ c.toNat < 128

instance (c : Char) : Decidable (Ordinary c) :=
  inferInstanceAs (Decidable (c ≠ '/' ∧ 0 < c.toNat ∧ c.toNat < 128))

theorem ordinary_of_isDigit {c : Char} (h : c.isDigit = true) : Ordinary c := by
  simp only [Char.isDigit, Bool.and_eq_true, decide_eq_true_eq, ge_iff_le,
    UInt32.le_iff_toNat_le] at h
  change 48 ≤ c.toNat ∧ c.toNat ≤ 57 at h
  refine ⟨fun e => ?_, by omega, by omega⟩
  subst e
  exact absurd h (by decide)

theorem ordinary_of_mem_number {number : Nat} {c : Char}
    (h : c ∈ Decimal.writePadded 6 number) : Ordinary c := by
  rcases List.mem_append.1 h with zero | digit
  · obtain ⟨-, rfl⟩ := List.mem_replicate.1 zero
    decide
  · exact ordinary_of_isDigit (Decimal.isDigit_of_mem_write digit)

theorem ordinary_of_mem_tag {tag : Tag} {c : Char} (h : c ∈ tag.text.toList) : Ordinary c := by
  have digits : ∀ d < 16, Ordinary d.digitChar := by decide
  rw [Tag.text, String.toList_ofList, List.leftpad] at h
  rcases List.mem_append.1 h with zero | digit
  · obtain ⟨-, rfl⟩ := List.mem_replicate.1 zero
    decide
  · obtain ⟨d, small, rfl⟩ := mem_toDigits_hex digit
    exact digits d small

theorem ordinary_of_mem_ending {f : QueueFile} {c : Char} (h : c ∈ f.ending) : Ordinary c := by
  have fixed : ∀ c ∈ ['m', 'e', 't', 'a', '.', 'd', 'b', 'p'], Ordinary c := by simp [Ordinary]
  cases f <;> simp only [ending, List.mem_append] at h
  case segment | quarantined =>
    rcases h with number | rest
    · exact ordinary_of_mem_number number
    · exact fixed c (by simp at rest ⊢; grind)
  case record => exact fixed c (by simp at h ⊢; grind)
  case temporary =>
    rcases h with (front | tag) | back
    · exact fixed c (by simp at front ⊢; grind)
    · exact ordinary_of_mem_tag tag
    · exact fixed c (by simp at back ⊢; grind)

theorem noSlash_name {queue : String} (noSlash : '/' ∉ queue.toList) (f : QueueFile) :
    '/' ∉ (f.name queue).toList := by
  rw [toList_name, List.mem_append, List.mem_append, not_or, not_or]
  exact ⟨⟨noSlash, by decide +kernel⟩, fun h => (ordinary_of_mem_ending h).1 rfl⟩

theorem encode_of_ordinary {cs : List Char} (h : ∀ c ∈ cs, Ordinary c) :
    (cs.flatMap String.utf8EncodeChar).length = cs.length ∧
      0 ∉ cs.flatMap String.utf8EncodeChar := by
  induction cs with
  | nil => simp
  | cons c cs ih =>
    obtain ⟨-, pos, small⟩ := h c List.mem_cons_self
    have one : String.utf8EncodeChar c = [UInt8.ofNat c.toNat] := by
      rw [String.utf8EncodeChar]
      simp only [Char.toNat] at small ⊢
      rw [if_pos (by omega)]
    have nonzero : (0 : UInt8) ≠ UInt8.ofNat c.toNat := by
      intro e
      have := congrArg UInt8.toNat e
      rw [UInt8.toNat_ofNat'] at this
      simp at this
      omega
    obtain ⟨length, zero⟩ := ih fun c hc => h c (List.mem_cons_of_mem _ hc)
    refine ⟨?_, ?_⟩
    · rw [List.flatMap_cons, one, List.length_append, length]
      simp [Nat.add_comm]
    · rw [List.flatMap_cons, one, List.mem_append, not_or]
      exact ⟨by simpa using nonzero, zero⟩

/-- Whether a file's number can be one: it fits a word. -/
def Numbered : QueueFile → Prop
  | segment number | quarantined number => number < Word.limit
  | record | temporary _ => True

theorem numbered_record : Numbered record := trivial

theorem numbered_temporary (tag : Tag) : Numbered (temporary tag) := trivial

theorem length_ending {f : QueueFile} (h : f.Numbered) : f.ending.length ≤ 45 := by
  have number : ∀ {n : Nat}, n < Word.limit → (Decimal.writePadded 6 n).length ≤ 20 := by
    intro n small
    have := (Nat.length_toDigits_le_iff (b := 10) (n := n) (k := 20) (by decide) (by decide)).2
      (Nat.lt_of_lt_of_le small (by decide))
    simp only [Decimal.writePadded, Decimal.write, List.leftpad, List.length_append,
      List.length_replicate]
    omega
  cases f with
  | segment n =>
    have := number h
    simp only [ending, List.length_append, List.length_cons, List.length_nil]
    omega
  | quarantined n =>
    have := number h
    simp only [ending, List.length_append, List.length_cons, List.length_nil]
    omega
  | record => decide
  | temporary tag =>
    have := (Nat.length_toDigits_le_iff (b := 16) (n := tag.number) (k := 32) (by decide)
      (by decide)).2 (Nat.lt_of_lt_of_le tag.small (by decide))
    simp only [ending, Tag.text, String.toList_ofList, List.leftpad, List.length_append,
      List.length_replicate, List.length_cons, List.length_nil]
    omega

end QueueFile

/-- The queue's name can be part of the name of a file. -/
structure Config.Named (c : Config) : Prop where
  noSlash : '/' ∉ c.name.toList
  noNul : 0 ∉ Text.encode c.name

theorem Config.Named.isEntry {c : Config} (named : c.Named) (f : QueueFile) :
    Path.IsEntry (f.name c.name) where
  nonempty := by simp [QueueFile.toList_name]
  noSlash := f.noSlash_name named.noSlash
  noNul := by
    rw [Text.encode, QueueFile.toList_name, List.flatMap_append, List.flatMap_append,
      List.mem_append, List.mem_append, not_or, not_or]
    exact ⟨⟨named.noNul, by decide +kernel⟩,
      (QueueFile.encode_of_ordinary fun c h => QueueFile.ordinary_of_mem_ending h).2⟩
  notHere := fun e => by
    have := congrArg (fun s : String => s.toList.length) e
    simp [QueueFile.toList_name] at this
    omega
  notAbove := fun e => by
    have := congrArg (fun s : String => s.toList.length) e
    simp [QueueFile.toList_name] at this
    omega

/-- Settings that a queue can be kept with: they are valid, and the queue's name leaves room
for the names of its files, of which a temporary record has the longest. -/
structure Config.Sound (c : Config) : Prop extends c.Valid where
  short : (Text.encode c.name).length ≤ 203
  noNul : 0 ∉ Text.encode c.name

namespace Config.Sound

variable {c : Config} (sound : c.Sound) (f : QueueFile)
include sound

theorem named : c.Named := ⟨sound.no_separator, sound.noNul⟩

theorem isEntry : Path.IsEntry (f.name c.name) := sound.named.isEntry f

theorem not_isTooLong (h : f.Numbered) : (Name.text (f.name c.name)).isTooLong = false := by
  have tail : (f.ending.flatMap String.utf8EncodeChar).length = f.ending.length :=
    (QueueFile.encode_of_ordinary fun c h => QueueFile.ordinary_of_mem_ending h).1
  have middle : (".queue.".toList.flatMap String.utf8EncodeChar).length = 7 := by decide +kernel
  have bound := QueueFile.length_ending h
  have room := sound.short
  simp only [Name.isTooLong, Name.bytes, Name.maxSize, Text.encode, QueueFile.toList_name,
    List.flatMap_append, List.length_append, tail, middle, decide_eq_false_iff_not] at *
  omega

end Config.Sound

end DurableQueue
