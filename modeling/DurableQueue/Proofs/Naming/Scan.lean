import Mathlib.Data.List.Nodup
import DurableQueue.Proofs.FileSystem.Listing
import DurableQueue.Proofs.Naming.Apart
import DurableQueue.Proofs.Text.Filled
import DurableQueue.Segments

/-!
# What is found of a queue's segments

A name is taken for a segment's by its form alone: any run of digits may stand for the number. So the
segment's own name, with the number filled with zeros to six digits, is one of many that are taken for
it, and the others are `Misspelt` (`segmentNumber?_iff`). Whatever the directory holds, and in whatever
order it lists its names, what is found are the regular files under names that are taken, each once and
by number (`Segments.Shows`). These are the queue's segments and nothing else (`Segments.Exact`) exactly
if no misspelt name leads to a regular file: `scan_exact_iff`.
-/

namespace DurableQueue

open FileSystem Text

namespace Naming

variable {queue name : String} {digits : List Char} {number : Nat}

/-- A name of the form of a segment's: the digits that it has, and the number that they spell. -/
structure Spelt (queue name : String) (digits : List Char) (number : Nat) : Prop where
  name_eq : name.toList = queue.toList ++ ".queue.".toList ++ digits ++ ".dat".toList
  numeral : Decimal.Numeral digits number
  fits : number < Word.limit

/-- A name of the form of a segment's that is no segment's name: the digits are fewer than six, or they
are more and begin with a zero. -/
def Misspelt (queue name : String) (number : Nat) : Prop :=
  ∃ digits, Spelt queue name digits number ∧ ¬Decimal.Filled 6 digits

theorem segmentNumber?_iff_spelt :
    segmentNumber? queue name = some number ↔ ∃ digits, Spelt queue name digits number := by
  simp only [segmentNumber?_eq_some_iff, Decimal.readNat_eq_some_iff]
  constructor
  · rintro ⟨digits, cut, numeral, fits⟩
    exact ⟨digits, cut, numeral, fits⟩
  · rintro ⟨digits, cut, numeral, fits⟩
    exact ⟨digits, cut, numeral, fits⟩

theorem Spelt.eq_segmentName_iff (spelt : Spelt queue name digits number) (number' : Nat) :
    name = segmentName queue number' ↔ Decimal.writePadded 6 number' = digits := by
  rw [← String.toList_inj, spelt.name_eq, segmentName]
  simp [List.append_assoc, eq_comm]

theorem spelt_segmentName (queue : String) (fits : number < Word.limit) :
    Spelt queue (segmentName queue number) (Decimal.writePadded 6 number) number where
  name_eq := by simp [segmentName]
  numeral := Decimal.numeral_of_readNat (Decimal.readNat_writePadded 6 number)
  fits := fits

/-- A name of the form of a segment's is the segment's if its digits are filled to six. -/
theorem Spelt.eq_segmentName (spelt : Spelt queue name digits number)
    (filled : Decimal.Filled 6 digits) : name = segmentName queue number :=
  (spelt.eq_segmentName_iff number).2
    ((Decimal.writePadded_eq_iff (by decide)).2 ⟨spelt.numeral, filled⟩)

theorem Misspelt.spelt (misspelt : Misspelt queue name number) :
    ∃ digits, Spelt queue name digits number := misspelt.imp fun _ => And.left

theorem Misspelt.ne_segmentName (misspelt : Misspelt queue name number) (number' : Nat) :
    name ≠ segmentName queue number' := by
  obtain ⟨digits, spelt, loose⟩ := misspelt
  intro same
  have written := (spelt.eq_segmentName_iff number').1 same
  exact loose (written ▸ Decimal.filled_writePadded (by decide) number')

/-- **A name is taken for a segment's if it is the segment's own or misspelt.** -/
theorem segmentNumber?_iff : segmentNumber? queue name = some number ↔
    number < Word.limit ∧ name = segmentName queue number ∨ Misspelt queue name number := by
  rw [segmentNumber?_iff_spelt]
  constructor
  · rintro ⟨digits, spelt⟩
    by_cases filled : Decimal.Filled 6 digits
    · exact Or.inl ⟨spelt.fits, spelt.eq_segmentName filled⟩
    · exact Or.inr ⟨digits, spelt, filled⟩
  · rintro (⟨fits, rfl⟩ | ⟨digits, spelt, -⟩)
    · exact ⟨_, spelt_segmentName queue fits⟩
    · exact ⟨digits, spelt⟩

/-- Reading a name and writing it agree exactly if the name is not misspelt. -/
theorem reads_as_written_iff : (∀ number < Word.limit,
      segmentNumber? queue name = some number ↔ name = segmentName queue number) ↔
    ∀ number, ¬Misspelt queue name number := by
  simp only [segmentNumber?_iff]
  constructor
  · intro agree number misspelt
    obtain ⟨digits, spelt⟩ := misspelt.spelt
    exact misspelt.ne_segmentName number ((agree number spelt.fits).1 (Or.inr misspelt))
  · intro own number fits
    simp [fits, own number]

end Naming

namespace Segments

variable {d d' : Disk} {dir queue path : String} {names : List Name} {number : Nat}
  {found : List (Nat × String)}

/-- What is found in a directory, whatever stands in it: each regular file under a name that is taken
for a segment's, once, and by number. Symbolic links are followed. -/
structure Shows (d : Disk) (dir queue : String) (found : List (Nat × String)) : Prop where
  files : ∀ number path, (number, path) ∈ found ↔ ∃ name digits,
    Naming.Spelt queue name digits number ∧ path = Path.join dir name ∧ d.isFile path = true
  once : (found.map Prod.snd).Nodup
  ordered : found.Pairwise fun a b => a.1 ≤ b.1

/-- The segments of a queue that are regular files, and nothing else, each number once and in order. -/
structure Exact (d : Disk) (dir queue : String) (found : List (Nat × String)) : Prop where
  segments : ∀ number path, (number, path) ∈ found ↔ number < Word.limit ∧
    path = Naming.segmentPath dir queue number ∧ d.isFile path = true
  ascending : found.Pairwise fun a b => a.1 < b.1

/-! ### What is found -/

/-- What is kept of a listed name: nothing, or the number and the path of a file. -/
def keep (d : Disk) (dir queue : String) (entry : Name) : Option (Nat × String) := do
  let name ← entry.toText?
  if d.isFile (Path.join dir name) then
    let number ← Naming.segmentNumber? queue name
    some (number, Path.join dir name)
  else none

theorem among_eq (d : Disk) (dir queue : String) (names : List Name) :
    among d dir queue names = names.filterMap (keep d dir queue) := rfl

theorem keep_eq_some_iff {entry : Name} : keep d dir queue entry = some (number, path) ↔
    ∃ name, entry = .text name ∧ Naming.segmentNumber? queue name = some number ∧
      path = Path.join dir name ∧ d.isFile path = true := by
  cases entry with
  | raw bs => simp [keep, Name.toText?]
  | text name =>
    simp only [keep, Name.toText?, bind, Option.bind_some, Option.ite_none_right_eq_some,
      Option.bind_eq_some_iff, Option.some.injEq, Prod.mk.injEq, Name.text.injEq]
    constructor
    · rintro ⟨file, k, taken, rfl, rfl⟩
      exact ⟨name, rfl, taken, rfl, file⟩
    · rintro ⟨_, rfl, taken, rfl, file⟩
      exact ⟨file, number, taken, rfl, rfl⟩

theorem mem_among : (number, path) ∈ among d dir queue names ↔ ∃ name, .text name ∈ names ∧
    Naming.segmentNumber? queue name = some number ∧ path = Path.join dir name ∧
      d.isFile path = true := by
  simp only [among_eq, List.mem_filterMap, keep_eq_some_iff]
  constructor
  · rintro ⟨_, listed, name, rfl, kept⟩
    exact ⟨name, listed, kept⟩
  · rintro ⟨name, listed, kept⟩
    exact ⟨_, listed, name, rfl, kept⟩

theorem among_congr (same : d'.tree = d.tree) : among d' dir queue names = among d dir queue names := by
  simp only [among, Disk.isFile_congr same]

theorem scan_listed (there : d.isThere dir = true) (listed : (d.list dir).1 = .ok names) :
    (scan d dir queue).1 = .ok ((among d dir queue names).mergeSort fun a b => a.1 ≤ b.1) := by
  have same := d.list_tree dir
  rw [scan, if_pos there]
  revert listed same
  cases d.list dir with
  | mk result d' =>
    rintro rfl same
    simp only [among_congr same]

theorem scan_missing (missing : d.isThere dir = false) : (scan d dir queue).1 = .ok [] := by
  simp [scan, missing]

section Whole

variable (noSlash : '/' ∉ queue.toList)
include noSlash

/-- A name that is taken for a segment's is one that a directory can have. -/
theorem entry_of_spelt {name : String} {digits : List Char}
    (spelt : Naming.Spelt queue name digits number) :
    (name.toList ≠ [] ∧ '/' ∉ name.toList) ∧ name ≠ "." ∧ name ≠ ".." := by
  refine ⟨QueueFile.noSlash_of_segmentNumber? noSlash
    (Naming.segmentNumber?_iff_spelt.2 ⟨digits, spelt⟩), ?_, ?_⟩
  all_goals
    intro same
    have length := congrArg List.length (same ▸ spelt.name_eq)
    simp at length
    omega

theorem path_inj {name name' : String} {digits digits' : List Char} {number' : Nat}
    (spelt : Naming.Spelt queue name digits number) (spelt' : Naming.Spelt queue name' digits' number')
    (same : Path.join dir name = Path.join dir name') : name = name' := by
  obtain ⟨⟨nonempty, whole⟩, -⟩ := entry_of_spelt noSlash spelt
  obtain ⟨⟨nonempty', whole'⟩, -⟩ := entry_of_spelt noSlash spelt'
  exact Path.eq_of_join_eq nonempty whole nonempty' whole' same

theorem path_ne_of_misspelt {name : String} {number' : Nat}
    (misspelt : Naming.Misspelt queue name number) (fits : number' < Word.limit) :
    Path.join dir name ≠ Naming.segmentPath dir queue number' := by
  obtain ⟨digits, spelt⟩ := misspelt.spelt
  intro same
  exact misspelt.ne_segmentName number'
    (path_inj noSlash spelt (Naming.spelt_segmentName queue fits) same)

/-- A directory that lists each of its names once gives each path once. -/
theorem nodup_among (once : names.Nodup) : ((among d dir queue names).map Prod.snd).Nodup := by
  rw [among_eq, List.map_filterMap]
  refine once.filterMap fun entry entry' path there there' => ?_
  obtain ⟨⟨number, _⟩, kept, rfl⟩ := Option.map_eq_some_iff.1 there
  obtain ⟨⟨number', _⟩, kept', same⟩ := Option.map_eq_some_iff.1 there'
  obtain ⟨name, rfl, taken, eq, -⟩ := keep_eq_some_iff.1 kept
  obtain ⟨name', rfl, taken', eq', -⟩ := keep_eq_some_iff.1 kept'
  obtain ⟨digits, spelt⟩ := Naming.segmentNumber?_iff_spelt.1 taken
  obtain ⟨digits', spelt'⟩ := Naming.segmentNumber?_iff_spelt.1 taken'
  rw [path_inj noSlash spelt spelt' (eq.symm.trans (same.symm.trans eq'))]

theorem shows_among (once : names.Nodup) (all : ∀ name digits number,
      Naming.Spelt queue name digits number → d.isFile (Path.join dir name) = true →
        .text name ∈ names) :
    Shows d dir queue ((among d dir queue names).mergeSort fun a b => a.1 ≤ b.1) where
  files number path := by
    rw [List.mem_mergeSort, mem_among]
    simp only [Naming.segmentNumber?_iff_spelt]
    constructor
    · rintro ⟨name, -, ⟨digits, spelt⟩, eq, file⟩
      exact ⟨name, digits, spelt, eq, file⟩
    · rintro ⟨name, digits, spelt, rfl, file⟩
      exact ⟨name, all name digits number spelt file, ⟨digits, spelt⟩, rfl, file⟩
  once := ((List.mergeSort_perm _ _).map Prod.snd).nodup_iff.2 (nodup_among noSlash once)
  ordered := by
    have sorted : ((among d dir queue names).mergeSort fun a b => a.1 ≤ b.1).Pairwise
        fun a b => decide (a.1 ≤ b.1) = true :=
      List.pairwise_mergeSort (fun a b c => by simpa using Nat.le_trans)
        (fun a b => by simpa using Nat.le_total a.1 b.1) _
    exact sorted.imp of_decide_eq_true

/-- What is found are the segments and nothing else if no other file stands under a name of their form. -/
theorem Shows.exact_iff (shows : Shows d dir queue found) : Exact d dir queue found ↔
    ∀ name number, Naming.Misspelt queue name number → d.isFile (Path.join dir name) = false := by
  constructor
  · intro exact_ name number misspelt
    obtain ⟨digits, spelt⟩ := misspelt.spelt
    by_contra file
    have there := (shows.files number _).2 ⟨name, digits, spelt, rfl, by simpa using file⟩
    obtain ⟨fits, own, -⟩ := (exact_.segments _ _).1 there
    exact path_ne_of_misspelt noSlash misspelt fits own
  · intro none
    have segments : ∀ number path, (number, path) ∈ found ↔ number < Word.limit ∧
        path = Naming.segmentPath dir queue number ∧ d.isFile path = true := by
      intro number path
      rw [shows.files]
      constructor
      · rintro ⟨name, digits, spelt, rfl, file⟩
        have filled : Decimal.Filled 6 digits := by
          by_contra loose
          rw [none name number ⟨digits, spelt, loose⟩] at file
          cases file
        rw [spelt.eq_segmentName filled] at file ⊢
        exact ⟨spelt.fits, rfl, file⟩
      · rintro ⟨fits, rfl, file⟩
        exact ⟨_, _, Naming.spelt_segmentName queue fits, rfl, file⟩
    refine ⟨segments, ?_⟩
    -- two files of one number would be one path found twice
    refine (shows.ordered.and (List.pairwise_map.1 shows.once)).imp_of_mem ?_
    rintro ⟨n, p⟩ ⟨m, q⟩ there there' ⟨le, apart⟩
    refine Nat.lt_of_le_of_ne le fun same => apart ?_
    change n = m at same
    rw [((segments n p).1 there).2.1, ((segments m q).1 there').2.1, same]

section Listed

variable (some_ : dir ≠ "")
include some_

/-- A file of the queue is in the listing of its directory. -/
theorem listed_of_spelt {name : String} {digits : List Char}
    (spelt : Naming.Spelt queue name digits number) (file : d.isFile (Path.join dir name) = true) :
    d.isThere dir = true ∧ ∀ names, (d.list dir).1 = .ok names → .text name ∈ names := by
  obtain ⟨⟨nonempty, whole⟩, dot, dots⟩ := entry_of_spelt noSlash spelt
  exact Disk.mem_list_of_isFile some_ nonempty whole dot dots file

theorem scan_shows
    (lists : d.isThere dir = true → ∃ names, (d.list dir).1 = .ok names ∧ names.Nodup) :
    ∃ found, (scan d dir queue).1 = .ok found ∧ Shows d dir queue found := by
  cases there : d.isThere dir with
  | true =>
    obtain ⟨names, ok, once⟩ := lists there
    exact ⟨_, scan_listed there ok, shows_among noSlash once fun name digits number spelt file =>
      (listed_of_spelt noSlash some_ spelt file).2 names ok⟩
  | false =>
    refine ⟨[], scan_missing there, fun number path => ?_, List.nodup_nil, List.Pairwise.nil⟩
    simp only [List.not_mem_nil, false_iff]
    rintro ⟨name, digits, spelt, rfl, file⟩
    rw [(listed_of_spelt noSlash some_ spelt file).1] at there
    cases there

end Listed

end Whole

/-- **What is found are the live segments exactly if no file stands under a misspelt name.** Reading a
name is the inverse of writing it on every name that is not misspelt, and on no other. The directory may
be missing (the empty path is no directory's); if it is there, it can be listed and lists each of its
names once, in the order that the tree has them, which may be any. -/
theorem scan_exact_iff (noSlash : '/' ∉ queue.toList) (some_ : dir ≠ "")
    (lists : d.isThere dir = true → ∃ names, (d.list dir).1 = .ok names ∧ names.Nodup) :
    (∀ name, (∀ number < Word.limit,
        Naming.segmentNumber? queue name = some number ↔ name = Naming.segmentName queue number) ↔
      ∀ number, ¬Naming.Misspelt queue name number) ∧
    ∃ found, (scan d dir queue).1 = .ok found ∧ Shows d dir queue found ∧
      (Exact d dir queue found ↔ ∀ name number, Naming.Misspelt queue name number →
        d.isFile (Path.join dir name) = false) := by
  obtain ⟨found, scanned, shows⟩ := scan_shows noSlash some_ lists
  exact ⟨fun name => Naming.reads_as_written_iff, found, scanned, shows, shows.exact_iff noSlash⟩

/-- Two segments, one of them a link and one with a number of seven digits, among a directory with a
misspelt name, a segment set aside and a file of another queue. -/
theorem scan_exact_among_others :
    let d : Disk := { tree := {
      entries := [([.text "data"], .directory), ([.text "far"], .file 1),
        ([.text "q.queue.1000000.dat", .text "data"], .file 0),
        ([.text "q.queue.7.dat", .text "data"], .directory),
        ([.text "q.queue.000002.dat.bad", .text "data"], .file 0),
        ([.text "q.queue.000003.dat.queue.000004.dat", .text "data"], .file 0),
        ([.text "q.queue.000002.dat", .text "data"], .link "/far")]
      inodes := #[{}, {}] } }
    let found := [(2, "data/q.queue.000002.dat"), (1000000, "data/q.queue.1000000.dat")]
    '/' ∉ "q".toList ∧ "data" ≠ "" ∧ d.isThere "data" = true ∧
      (∃ names, (d.list "data").1 = .ok names ∧ names.Nodup) ∧
      (scan d "data" "q").1 = .ok found ∧ Exact d "data" "q" found := by
  intro d found
  have noSlash : '/' ∉ "q".toList := by decide
  have some_ : "data" ≠ "" := by decide
  have there : d.isThere "data" = true := by decide +kernel
  obtain ⟨names, names_eq⟩ : ∃ names : List Name, names = [.text "q.queue.1000000.dat",
    .text "q.queue.7.dat", .text "q.queue.000002.dat.bad",
    .text "q.queue.000003.dat.queue.000004.dat", .text "q.queue.000002.dat"] := ⟨_, rfl⟩
  have listed : (d.list "data").1 = .ok names := by
    rw [names_eq]
    decide +kernel
  have lists : ∃ names, (d.list "data").1 = .ok names ∧ names.Nodup :=
    ⟨names, listed, by rw [names_eq]; decide +kernel⟩
  have scanned : (scan d "data" "q").1 = .ok found := by
    have kept : among d "data" "q" names =
        [(1000000, "data/q.queue.1000000.dat"), (2, "data/q.queue.000002.dat")] := by
      rw [names_eq]
      decide +kernel
    rw [scan_listed there listed, kept]
    simp [List.mergeSort, found]
  obtain ⟨-, found', scanned', shows, exact_iff⟩ := scan_exact_iff noSlash some_ fun _ => lists
  obtain rfl : found' = found := Except.ok.inj (scanned'.symm.trans scanned)
  refine ⟨noSlash, some_, there, lists, scanned, exact_iff.2 fun name number misspelt => ?_⟩
  by_contra file
  obtain ⟨digits, spelt⟩ := misspelt.spelt
  have shown := (shows.files number _).2 ⟨name, digits, spelt, rfl, by simpa using file⟩
  -- what is found are the segments' own names
  have own : ∀ f ∈ found, f.1 < Word.limit ∧ f.2 = Naming.segmentPath "data" "q" f.1 := by
    decide +kernel
  obtain ⟨fits, same⟩ := own _ shown
  exact path_ne_of_misspelt noSlash misspelt fits same

/-- Beside a segment stands a file under a misspelt name of its number: it is found as well, and the
number twice. -/
theorem scan_shows_misspelt :
    let d : Disk := { tree := {
      entries := [([.text "data"], .directory),
        ([.text "q.queue.1.dat", .text "data"], .file 0),
        ([.text "q.queue.000001.dat", .text "data"], .file 1)]
      inodes := #[{}, {}] } }
    let found := [(1, "data/q.queue.1.dat"), (1, "data/q.queue.000001.dat")]
    '/' ∉ "q".toList ∧
      (d.list "data").1 = .ok [.text "q.queue.1.dat", .text "q.queue.000001.dat"] ∧
      (scan d "data" "q").1 = .ok found ∧ ¬Exact d "data" "q" found ∧
      Naming.segmentNumber? "q" "q.queue.1.dat" = some 1 ∧
      "q.queue.1.dat" ≠ Naming.segmentName "q" 1 := by
  intro d found
  have there : d.isThere "data" = true := by decide +kernel
  have listed : (d.list "data").1 = .ok [.text "q.queue.1.dat", .text "q.queue.000001.dat"] := by
    decide +kernel
  have scanned : (scan d "data" "q").1 = .ok found := by
    have kept : among d "data" "q" [.text "q.queue.1.dat", .text "q.queue.000001.dat"] = found := by
      decide +kernel
    rw [scan_listed there listed, kept, List.mergeSort_of_pairwise (by decide)]
  have inexact : ¬Exact d "data" "q" found := by
    intro exact_
    exact absurd exact_.ascending (by decide)
  exact ⟨by decide, listed, scanned, inexact, by decide +kernel, by decide +kernel⟩

end Segments

end DurableQueue
