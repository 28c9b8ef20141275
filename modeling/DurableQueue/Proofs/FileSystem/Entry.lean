import DurableQueue.FileSystem.Operations

/-!
# Entries of a directory

A queue names each of its files by a path of its data directory followed by a name. `Hosts`
says that a path leads to a directory that holds nothing but regular files, each under one
name. As long as that is so, whatever is done to the files in it, the path goes on leading
there (`walk_agree`), and followed by a name it leads to the place of that name
(`Files.locate_join`, `Hosts.locate_join`); what stands under other names does not matter.
-/

namespace DurableQueue.FileSystem

/-- A name that can be put after a directory path: it is one part, and not a dot or two. -/
structure Path.IsEntry (name : String) : Prop where
  nonempty : name.toList ≠ []
  noSlash : '/' ∉ name.toList
  noNul : 0 ∉ Text.encode name
  notHere : name ≠ "."
  notAbove : name ≠ ".."

namespace Path

theorem names_of_noSlash {name : String} (nonempty : name.toList ≠ [])
    (noSlash : '/' ∉ name.toList) : names name = [.text name] := by
  rw [names, List.splitOn_eq_singleton noSlash]
  simp [nonempty]

/-- The names before a slash and the names after it. -/
theorem names_append_slash (front back : String) :
    names (front ++ "/" ++ back) = names front ++ names back := by
  have cut : (front ++ "/" ++ back).toList = front.toList ++ '/' :: back.toList := by simp
  rw [names, cut, List.splitOn_append_cons_self, List.filter_append, List.map_append]
  rfl

theorem names_append_of_endsOpen {dir name : String} (open_ : endsOpen dir = true) :
    names (dir ++ name) = names dir ++ names name := by
  obtain ⟨front, split⟩ := List.getLast?_eq_some_iff.1 (by simpa [endsOpen] using open_)
  have hdir : dir = String.ofList front ++ "/" := by
    apply String.toList_injective
    simpa using split
  have hempty : names "" = [] := by simp [names]
  have closed := names_append_slash (String.ofList front) ""
  rw [String.append_empty] at closed
  rw [hdir, names_append_slash, closed, hempty, List.append_nil]

theorem not_endsOpen_append (front : String) {name : String} (nonempty : name.toList ≠ [])
    (noSlash : '/' ∉ name.toList) : endsOpen (front ++ name) = false := by
  have last := List.getLast?_eq_some_getLast nonempty
  have notSlash : name.toList.getLast nonempty ≠ '/' := fun e =>
    noSlash (e ▸ List.getLast_mem nonempty)
  simp [endsOpen, List.getLast?_append, last, notSlash]

theorem not_isAbsolute_of_noSlash {name : String} (noSlash : '/' ∉ name.toList) :
    isAbsolute name = false := by
  cases hn : name.toList with
  | nil => simp [isAbsolute, hn]
  | cons c cs =>
    have : c ≠ '/' := fun e => noSlash (by simp [hn, e])
    simp [isAbsolute, hn, this]

/-- What comes before the last slash, and what is after it. -/
theorem names_append_noSlash (front : String) : ∃ above piece, ∀ more : String, more.toList ≠ [] →
    '/' ∉ more.toList → parts (front ++ more) = above ++ [.text (String.ofList piece ++ more)] := by
  obtain ⟨before, piece, front_eq, clean, named⟩ : ∃ before piece : String,
      front = before ++ piece ∧ '/' ∉ piece.toList ∧
        ∀ more, names (before ++ more) = names before ++ names more := by
    by_cases slash : '/' ∈ front.toList
    · obtain ⟨back, rest, split, clean⟩ :=
        List.eq_append_cons_of_mem (List.mem_reverse.2 slash)
      have cut := congrArg List.reverse split
      simp only [List.reverse_reverse, List.reverse_append, List.reverse_cons] at cut
      refine ⟨String.ofList rest.reverse ++ "/", String.ofList back.reverse,
        String.toList_injective (by simpa using cut), by simpa using clean, fun more => ?_⟩
      have closed := names_append_slash (String.ofList rest.reverse) ""
      have none : names "" = [] := by simp [names]
      rw [String.append_empty, none, List.append_nil] at closed
      rw [names_append_slash, closed]
    · exact ⟨"", front, String.empty_append.symm, slash, fun more => by simp [names]⟩
  refine ⟨names before, piece.toList, fun more some noSlash => ?_⟩
  have shut : endsOpen (front ++ more) = false := not_endsOpen_append front some noSlash
  have one : names (piece ++ more) = [.text (piece ++ more)] :=
    names_of_noSlash (by simpa using fun _ => some) (by simp [clean, noSlash])
  rw [parts, shut, if_neg Bool.false_ne_true, List.append_nil, front_eq, String.append_assoc, named,
    one, String.ofList_toList]

/-- Every path but the empty one has a part. -/
theorem parts_ne_nil {path : String} (some : path ≠ "") : parts path ≠ [] := by
  obtain ⟨front, last, cut⟩ : ∃ front last, path.toList = front ++ [last] :=
    ⟨_, _, (List.dropLast_concat_getLast (by simpa using some)).symm⟩
  by_cases slash : last = '/'
  · have open_ : endsOpen path = true := by simp [endsOpen, cut, slash]
    simp [parts, open_]
  · obtain ⟨above, piece, eq⟩ := names_append_noSlash (String.ofList front)
    have path_eq : path = String.ofList front ++ String.ofList [last] :=
      String.toList_injective (by simpa using cut)
    rw [path_eq, eq _ (by simp) (by simpa using Ne.symm slash)]
    simp

/-- A name joined to a directory path is one more part. -/
theorem parts_join_of_noSlash {dir name : String} (nonempty : name.toList ≠ [])
    (noSlash : '/' ∉ name.toList) : parts (join dir name) = names dir ++ [.text name] := by
  have one := names_of_noSlash nonempty noSlash
  have shut (front : String) : endsOpen (front ++ name) = false :=
    not_endsOpen_append front nonempty noSlash
  rw [join, not_isAbsolute_of_noSlash noSlash, if_neg Bool.false_ne_true]
  by_cases empty : dir = ""
  · subst empty
    have closed : endsOpen name = false := by simpa using shut ""
    have none : names "" = [] := by simp [names]
    simp [parts, closed, one, none]
  · by_cases open_ : endsOpen dir = true
    · rw [if_pos (by simp [open_]), parts, shut,
        names_append_of_endsOpen open_, one]
      simp
    · rw [if_neg (by simpa [open_] using empty), parts, shut,
        names_append_slash, one]
      simp

/-- Two names are joined to one path only if they are the same. -/
theorem eq_of_join_eq {dir name name' : String} (nonempty : name.toList ≠ [])
    (noSlash : '/' ∉ name.toList) (nonempty' : name'.toList ≠ []) (noSlash' : '/' ∉ name'.toList)
    (same : join dir name = join dir name') : name = name' := by
  have eq := congrArg parts same
  rw [parts_join_of_noSlash nonempty noSlash, parts_join_of_noSlash nonempty' noSlash'] at eq
  simpa using eq

theorem parts_join {dir name : String} (h : IsEntry name) :
    parts (join dir name) = names dir ++ [.text name] :=
  parts_join_of_noSlash h.nonempty h.noSlash

/-- What follows a joined name follows the name. -/
theorem join_append_of_noSlash {dir name more : String} (noSlash : '/' ∉ name.toList)
    (noSlash' : '/' ∉ (name ++ more).toList) : join dir name ++ more = join dir (name ++ more) := by
  simp only [join, not_isAbsolute_of_noSlash noSlash, not_isAbsolute_of_noSlash noSlash',
    Bool.false_eq_true, if_false]
  split <;> simp [String.append_assoc]

end Path

namespace Tree

variable {t t' : Tree} {dir here : Location} {ns : List Name}

/-- A directory that holds nothing but regular files, each under one name. -/
structure Holds (t : Tree) (dir : Location) : Prop where
  directory : t.lookup dir = some .directory
  plain : ∀ name, t.lookup (name :: dir) = none ∨
    ∃ number, t.lookup (name :: dir) = some (.file number) ∧ number < t.inodes.size
  alone : ∀ {a b : Name} {number : Nat}, t.lookup (a :: dir) = some (.file number) →
    t.lookup (b :: dir) = some (.file number) → a = b

/-- What is at a place that is not an entry of `dir` is the same in both trees. -/
def AgreeOutside (t t' : Tree) (dir : Location) : Prop :=
  ∀ place, (∀ name, place ≠ name :: dir) → t'.lookup place = t.lookup place

/-- A directory that holds nothing but files under some names. -/
structure Files (t : Tree) (dir : Location) (names : Name → Prop) : Prop where
  directory : t.lookup dir = some .directory
  plain : ∀ name, names name → t.lookup (name :: dir) = none ∨
    ∃ number, t.lookup (name :: dir) = some (.file number)

/-- What is at a place that does not have one of the names in `dir` is the same in both trees. -/
def AgreeBeside (t t' : Tree) (dir : Location) (names : Name → Prop) : Prop :=
  ∀ place, (∀ name, names name → place ≠ name :: dir) → t'.lookup place = t.lookup place

theorem Holds.files (h : Holds t dir) : Files t dir fun _ => True where
  directory := h.directory
  plain name _ := (h.plain name).imp_right fun ⟨number, found, _⟩ => ⟨number, found⟩

theorem AgreeOutside.beside (same : AgreeOutside t t' dir) : AgreeBeside t t' dir fun _ => True :=
  fun place apart => same place fun name => apart name trivial

section Named

variable {names : Name → Prop}

/-- From a file of the directory no path leads back to the directory. -/
theorem Files.walkWith_entry (h : Files t dir names) (last : Bool)
    (follow : Location → List Name → Except FileError Location) {name : Name} (named : names name) :
    t.walkWith last follow (name :: dir) ns ≠ .ok dir := by
  cases ns with
  | nil => simp [walkWith]
  | cons n rest =>
    rcases h.plain name named with none | ⟨number, found⟩
    · simp [walkWith, none]
    · simp [walkWith, found]

/-- A way to the directory meets none of its files, so it stays when they change; and it goes on
wherever the way from the directory goes. -/
theorem walkWith_append (h : Files t dir names) (same : AgreeBeside t t' dir names) {last : Bool}
    {follow follow' : Location → List Name → Except FileError Location} {more : List Name}
    {place : Except FileError Location} (goes : more ≠ [] ∨ last = true)
    (done : t'.walkWith last follow' dir more = place)
    (ih : ∀ here ns, follow here ns = .ok dir → follow' here (ns ++ more) = place) :
    ∀ ns here, t.walkWith true follow here ns = .ok dir →
      t'.walkWith last follow' here (ns ++ more) = place := by
  intro ns
  induction ns with
  | nil =>
    intro here way
    obtain rfl : here = dir := by simpa [walkWith] using way
    exact done
  | cons name rest ihn =>
    intro here way
    have hereSame : t'.lookup here = t.lookup here := by
      apply same here
      intro n named e
      subst e
      exact h.walkWith_entry true follow named way
    rw [walkWith] at way
    rw [List.cons_append, walkWith, hereSame]
    cases hl : t.lookup here with
    | none => simp [hl] at way
    | some node =>
      cases node with
      | file _ | link _ | device _ => simp [hl] at way
      | directory =>
        simp only [hl] at way ⊢
        by_cases dot : name = .text "."
        · simp only [dot, if_true] at way ⊢
          exact ihn _ way
        by_cases dots : name = .text ".."
        · simp only [dots, if_true] at way ⊢
          exact ihn _ way
        cases long : name.isTooLong with
        | true => simp [dot, dots, long] at way
        | false =>
          simp only [dot, dots, long, Bool.false_eq_true, if_false] at way ⊢
          by_cases inside : here = dir ∧ names name
          · obtain ⟨rfl, named⟩ := inside
            rcases h.plain name named with none | ⟨number, found⟩
            · simp only [none] at way
              exact absurd way (h.walkWith_entry true follow named)
            · simp only [found] at way
              exact absurd way (h.walkWith_entry true follow named)
          · have childSame : t'.lookup (name :: here) = t.lookup (name :: here) := by
              refine same _ fun n named e => inside ?_
              obtain ⟨rfl, rfl⟩ := List.cons.inj e
              exact ⟨rfl, named⟩
            rw [childSame]
            cases hc : t.lookup (name :: here) with
            | none =>
              simp only [hc] at way ⊢
              exact ihn _ way
            | some node =>
              cases node with
              | directory | file _ | device _ =>
                simp only [hc] at way ⊢
                exact ihn _ way
              | link target =>
                simp only [hc, or_true, if_true] at way ⊢
                rw [if_pos (goes.imp_left fun ne => by simp [ne]), ← List.append_assoc]
                exact ih _ _ way

theorem walk_append (h : Files t dir names) (same : AgreeBeside t t' dir names) {last : Bool}
    {more : List Name} {place : Except FileError Location} (goes : more ≠ [] ∨ last = true)
    (done : ∀ follow, t'.walkWith last follow dir more = place) :
    ∀ links here ns, t.walk true links here ns = .ok dir →
      t'.walk last links here (ns ++ more) = place := by
  intro links
  induction links with
  | zero => exact fun here ns => walkWith_append h same goes (done _) (by simp) ns here
  | succ links ih => exact fun here ns => walkWith_append h same goes (done _) ih ns here

theorem walk_agree (h : Files t dir names) (same : AgreeBeside t t' dir names) {links : Nat}
    {here : Location} (leads : t.walk true links here ns = .ok dir) :
    t'.walk true links here ns = .ok dir := by
  have way : t'.walk true links here (ns ++ []) = .ok dir :=
    walk_append h same (Or.inr rfl) (fun _ => by simp [walkWith]) links here ns leads
  rwa [List.append_nil] at way

end Named

/-- Where a name in the directory leads: to its place, unless it is too long for any. -/
def entry (dir : Location) (name : String) : Except FileError Location :=
  if (Name.text name).isTooLong then .error .invalidName else .ok (.text name :: dir)

theorem Files.walkWith_entryName {names : Name → Prop} (h : Files t dir names) {name : String}
    (named : names (.text name)) (isEntry : Path.IsEntry name) (last : Bool)
    (follow : Location → List Name → Except FileError Location) :
    t.walkWith last follow dir [.text name] = entry dir name := by
  have dot : Name.text name ≠ .text "." := fun e => isEntry.notHere (by simpa using e)
  have dots : Name.text name ≠ .text ".." := fun e => isEntry.notAbove (by simpa using e)
  simp only [walkWith, h.directory, dot, dots, if_false, entry]
  split
  · rfl
  · rcases h.plain (.text name) named with none | ⟨number, found⟩
    · simp only [none]
    · simp only [found]

/-- A path of the directory followed by one of the names leads to the place of the name. -/
theorem Files.locate_join {names : Name → Prop} {path name : String} (h : Files t dir names)
    (leads : t.walk true maxLinks [] (Path.names path) = .ok dir)
    (noNul : ∀ name ∈ Path.names path, 0 ∉ name.bytes) (named : names (.text name))
    (isEntry : Path.IsEntry name) (last : Bool) :
    t.locate last (Path.parts (Path.join path name)) = entry dir name := by
  have clean : ((Path.names path ++ [Name.text name]).any fun n => n.bytes.contains 0) = false := by
    rw [List.any_eq_false]
    intro n hn
    rcases List.mem_append.1 hn with hn | hn
    · simpa using noNul n hn
    · obtain rfl : n = .text name := by simpa using hn
      simpa [Name.bytes] using isEntry.noNul
  rw [locate, Path.parts_join isEntry, if_neg (by simp), clean, if_neg Bool.false_ne_true]
  exact walk_append h (fun _ _ => rfl) (Or.inl (by simp))
    (h.walkWith_entryName named isEntry last) maxLinks [] _ leads

/-- A path leads to a directory that holds nothing but regular files, each under one name. -/
structure Hosts (t : Tree) (path : String) (dir : Location) : Prop extends Holds t dir where
  leads : t.walk true maxLinks [] (Path.names path) = .ok dir
  noNul : ∀ name ∈ Path.names path, 0 ∉ name.bytes

/-- A path of the directory followed by a name leads to the place of the name. -/
theorem Hosts.locate_join {path name : String} (h : Hosts t path dir)
    (isEntry : Path.IsEntry name) (last : Bool) :
    t.locate last (Path.parts (Path.join path name)) = entry dir name :=
  h.files.locate_join h.leads h.noNul trivial isEntry last

/-- The path goes on leading to the directory while only its entries change. -/
theorem Hosts.agree {path : String} (h : Hosts t path dir) (same : AgreeOutside t t' dir)
    (holds : Holds t' dir) : Hosts t' path dir :=
  { holds with leads := walk_agree h.files same.beside h.leads, noNul := h.noNul }

end Tree

end DurableQueue.FileSystem
