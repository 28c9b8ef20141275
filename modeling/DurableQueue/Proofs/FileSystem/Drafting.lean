import DurableQueue.Proofs.FileSystem.Stock
import DurableQueue.Proofs.FileSystem.Ways

/-!
# Writing a draft

A file that is to be replaced is first drafted under a name that nothing else has. As long as only the
draft comes, goes and changes (`Tree.Drafts`), every other place and every file is what it was, and
so is what anybody reads under another path (`Drafts.reading_eq`). Moving the draft to the place of the
file is the one step that shows (`Tree.Replaced`); after it the path leads to what was drafted
(`Replaced.reading_eq`), unless it led through a link that stood in the file's place.
-/

namespace DurableQueue.FileSystem

/-! ### What is read under a path -/

/-- What whoever reads the file under a path finds, as long as nothing fails. -/
def Tree.reading (t : Tree) (path : String) : Except FileError Bytes :=
  (({ tree := t } : Disk).readFile path).1

/-- What is read of something that a path leads to. -/
def Tree.readWhole (t : Tree) (node : Node) : Except FileError Bytes :=
  t.read node 0 (match node with
    | .file number => (t.inode number).contents.length
    | _ => 1)

/-- Without faults a file is read as the tree has it. -/
theorem Disk.Faultless.readFile {d : Disk} (faultless : d.Faultless) (path : String) :
    (d.readFile path).1 =
      (d.tree.find? (Path.parts path)).bind fun node => d.tree.readWhole node := by
  rw [Disk.readFile, openRead, faultless.observe, Tree.openRead]
  cases d.tree.find? (Path.parts path) with
  | error e => rfl
  | ok node =>
    obtain ⟨d₁, d₁_eq⟩ : ∃ d₁, d₁ = d.noted (.openRead path) (none : Option FileError) d.tree :=
      ⟨_, rfl⟩
    have faultless₁ : d₁.Faultless := by
      rw [d₁_eq]
      exact faultless
    have same : d₁.tree = d.tree := by
      rw [d₁_eq]
      rfl
    simp only [Except.map, Except.bind, errorOf, ← d₁_eq, Disk.read, faultless₁.observe, same,
      Tree.readWhole]
    cases d.tree.read node 0 (match node with
      | .file number => (d.tree.inode number).contents.length
      | _ => 1) with
    | error e => rfl
    | ok bs => rfl

theorem Tree.reading_eq (t : Tree) (path : String) : t.reading path =
    (t.find? (Path.parts path)).bind fun node => t.readWhole node :=
  Disk.Faultless.readFile (d := { tree := t }) (fun _ _ => rfl) path

namespace Tree

variable {t t' : Tree} {spot : Except FileError Location} {p place : Location} {number : Nat}
  {path draft : String} {above : List Name} {name mark : Name} {bs : Bytes}

/-! ### Numbers of files -/

/-- Every file has a number that was given out. -/
def Numbered (t : Tree) : Prop := ∀ e ∈ t.entries, ∀ number, e.2 = .file number → number < t.inodes.size

namespace Numbered

variable (h : t.Numbered)
include h

theorem small (there : t.lookup p = some (.file number)) : number < t.inodes.size := by
  rw [lookup_of_ne_nil (ne_nil_of_lookup there (by simp)), Option.map_eq_some_iff] at there
  obtain ⟨e, found, node⟩ := there
  exact h e (List.mem_of_find?_eq_some found) number node

theorem erase (p : Location) : (t.erase p).Numbered :=
  fun e listed => h e (List.mem_filter.1 listed).1

theorem put (p : Location) {node : Node}
    (given : ∀ number, node = .file number → number < t.inodes.size) : (t.put p node).Numbered := by
  intro e listed
  rcases List.mem_cons.1 listed with rfl | old
  · exact given
  · exact h.erase p e old

theorem modify (number : Nat) (change : Inode → Inode) : (t.modify number change).Numbered := by
  intro e listed n file
  rw [Tree.modify, Array.size_modify]
  exact h e listed n file

theorem putFile (p : Location) (file : Inode) : (t.putFile p file).2.Numbered := by
  intro e listed n node
  rw [Tree.putFile, Array.size_push]
  rcases List.mem_cons.1 listed with rfl | old
  · cases node
    exact Nat.lt_succ_self _
  · exact Nat.lt_succ_of_lt (h.erase p e old n node)

theorem move (source target : Location) : (t.move source target).Numbered := by
  intro e listed n node
  obtain ⟨e', old, rfl⟩ := List.mem_map.1 listed
  have same : e'.2 = .file n := by
    rw [← node]
    split <;> rfl
  exact h.erase target e' old n same

/-- **Whatever call is made, the files have numbers that were given out.** -/
theorem calls (parts target : List Name) (node : Node) (offset : Nat) (new : Bytes) :
    (t.openWrite parts).2.Numbered ∧ (t.createNew parts).2.Numbered ∧
      (t.write node offset new).2.Numbered ∧ (t.sync node).2.Numbered ∧
      (t.remove parts).2.Numbered ∧ (t.rename parts target).2.Numbered ∧
      (t.makeDirectory parts).2.Numbered := by
  refine ⟨?_, ?_, ?_, ?_, ?_, ?_, ?_⟩
  · rw [Tree.openWrite]
    split
    · exact h
    · split
      · exact h.putFile _ {}
      · exact h
      · exact h
  · rw [Tree.createNew]
    split
    · exact h
    · split
      · exact h.putFile _ {}
      · exact h
  · cases node with
    | file number => exact h.modify number _
    | device kind => cases kind <;> exact h
    | directory | link _ => exact h
  · cases node with
    | file number => exact h.modify number _
    | directory | link _ | device _ => exact h
  · rw [Tree.remove]
    split
    · exact h
    · split
      · exact h
      · exact h
      · exact h.erase _
  · unfold Tree.rename
    repeat' split
    -- what is moved is a directory with all below it, or a file that is there
    all_goals first | exact h | exact h.move _ _ | skip
    next found _ _ _ _ => exact (h.erase _).put _ fun number file => h.small (file ▸ found)
  · rw [Tree.makeDirectory]
    split
    · exact h
    · split
      · exact h.put _ fun _ file => by cases file
      · exact h

end Numbered

/-! ### Drafts -/

/-- Nothing but a draft at `spot` has come, gone or changed: the draft is a file that `t` does not
know, or there is none. -/
structure Drafts (spot : Except FileError Location) (t t' : Tree) : Prop where
  others : ∀ p, spot ≠ .ok p → t'.lookup p = t.lookup p
  files : ∀ number < t.inodes.size, t'.inode number = t.inode number
  grown : t.inodes.size ≤ t'.inodes.size
  draft : ∀ p, spot = .ok p → t'.lookup p = none ∨
    ∃ number, t'.lookup p = some (.file number) ∧ t.inodes.size ≤ number ∧ number < t'.inodes.size

namespace Drafts

theorem refl (vacant : ∀ p, spot = .ok p → t.lookup p = none) : Drafts spot t t where
  others _ _ := rfl
  files _ _ := rfl
  grown := Nat.le_refl _
  draft p at_ := Or.inl (vacant p at_)

section Changes

variable (h : Drafts spot t t')
include h

/-- A file that `t` does not know changes. -/
theorem modify (new : t.inodes.size ≤ number) (small : number < t'.inodes.size)
    (change : Inode → Inode) : Drafts spot t (t'.modify number change) := by
  have size : (t'.modify number change).inodes.size = t'.inodes.size := by simp [Tree.modify]
  constructor
  case others => exact h.others
  case files =>
    intro n old
    rw [inode_modify small, if_neg (by omega)]
    exact h.files n old
  case grown =>
    rw [size]
    exact h.grown
  case draft =>
    rw [size]
    exact h.draft

variable (at_ : spot = .ok place)
include at_

/-- The draft is begun. -/
theorem putFile (root : place ≠ []) (file : Inode) :
    Drafts spot t (t'.putFile place file).2 := by
  have size : (t'.putFile place file).2.inodes.size = t'.inodes.size + 1 := by simp [Tree.putFile]
  have grown := h.grown
  constructor
  case others =>
    intro p apart
    have ne : p ≠ place := fun e => apart (e ▸ at_)
    by_cases nil : p = []
    · rw [nil, lookup_nil, lookup_nil]
    · rw [lookup_putFile nil, if_neg ne]
      exact h.others p apart
  case files =>
    intro n old
    rw [inode_putFile, if_neg (by omega)]
    exact h.files n old
  case grown => omega
  case draft =>
    intro p there
    obtain rfl : place = p := by
      rw [at_] at there
      cases there
      rfl
    refine Or.inr ⟨t'.inodes.size, ?_, grown, by omega⟩
    rw [lookup_putFile root, if_pos rfl]

/-- The draft is given up. -/
theorem erase (root : place ≠ []) :
    Drafts spot t (t'.erase place) ∧ (t'.erase place).lookup place = none := by
  have gone : (t'.erase place).lookup place = none := by
    rw [lookup_erase root, if_pos rfl]
  refine ⟨⟨fun p apart => ?_, h.files, h.grown, fun p there => Or.inl ?_⟩, gone⟩
  · have ne : p ≠ place := fun e => apart (e ▸ at_)
    by_cases nil : p = []
    · rw [nil, lookup_nil, lookup_nil]
    · rw [lookup_erase nil, if_neg ne]
      exact h.others p apart
  · rw [at_] at there
    cases there
    exact gone

end Changes

end Drafts

/-- The draft is the file `number`, and holds what `file` says. -/
structure Drafted (spot : Except FileError Location) (number : Nat) (file : Inode) (t t' : Tree) :
    Prop extends Drafts spot t t' where
  there : ∃ p, spot = .ok p ∧ t'.lookup p = some (.file number)
  new : t.inodes.size ≤ number
  small : number < t'.inodes.size
  inode_eq : t'.inode number = file

/-- What is drafted may change. -/
theorem Drafted.change {file : Inode} (h : Drafted spot number file t t') (change : Inode → Inode) :
    Drafted spot number (change file) t (t'.modify number change) where
  toDrafts := h.toDrafts.modify h.new h.small change
  there := h.there
  new := h.new
  small := by
    rw [Tree.modify, Array.size_modify]
    exact h.small
  inode_eq := by rw [inode_modify h.small, if_pos rfl, h.inode_eq]

/-! ### Two names in one directory -/

/-- The paths name two entries of one directory. -/
structure Siblings (path draft : String) (above : List Name) (name mark : Name) : Prop where
  parts_eq : Path.parts path = above ++ [name]
  draft_eq : Path.parts draft = above ++ [mark]
  dot : name ≠ .text "."
  dots : name ≠ .text ".."
  draft_dot : mark ≠ .text "."
  draft_dots : mark ≠ .text ".."
  ne : name ≠ mark

/-- The last name of `draft` is new: neither the tree nor `path` has it. -/
structure Fresh (t : Tree) (path draft : String) : Prop where
  unknown : ∀ mark ∈ (Path.parts draft).getLast?, t.Unknown mark
  apart : ∀ mark ∈ (Path.parts draft).getLast?, mark ∉ Path.parts path

theorem Fresh.of_last (last : (Path.parts draft).getLast? = some mark) (unknown : t.Unknown mark)
    (apart : mark ∉ Path.parts path) : t.Fresh path draft := by
  constructor
  case unknown =>
    intro other there
    rw [last] at there
    cases there
    exact unknown
  case apart =>
    intro other there
    rw [last] at there
    cases there
    exact apart

/-- A path leads to its place even when a link that stands there is gone. -/
def LeadsBeyond (t : Tree) (path : String) : Prop :=
  ∀ p target, t.locate false (Path.parts path) = .ok p → t.lookup p = some (.link target) →
    (t.erase p).locate false (Path.parts path) = .ok p

/-- Where a path of an entry leads, its directory does. -/
theorem locate_snoc (dot : name ≠ .text ".") (dots : name ≠ .text "..") :
    t.locate false (above ++ [name]) = .ok p ↔
      ((above ++ [name]).any fun n => n.bytes.contains 0) = false ∧
        ∃ dir, t.walk true maxLinks [] above = .ok dir ∧ t.lookup dir = some .directory ∧
          name.isTooLong = false ∧ p = name :: dir := by
  rw [locate, if_neg (by simp), walk_snoc dot dots]
  cases (above ++ [name]).any fun n => n.bytes.contains 0 with
  | true => simp
  | false =>
    simp only [Bool.false_eq_true, if_false, true_and]
    cases t.walk true maxLinks [] above with
    | error e => simp [Except.bind]
    | ok dir =>
      simp only [Except.bind, enter]
      constructor
      · intro leads
        split at leads
        · cases leads
        · next there =>
          split at leads
          · cases leads
          · next short =>
            cases leads
            exact ⟨dir, rfl, there, by simpa using short, rfl⟩
        · cases leads
      · rintro ⟨dir', same, there, short, rfl⟩
        cases same
        simp [there, short]

/-- The two entries are in two places. -/
theorem Siblings.apart (siblings : Siblings path draft above name mark)
    (leads : t.locate false (Path.parts path) = .ok p) :
    t.locate false (Path.parts draft) ≠ .ok p := by
  intro leads'
  rw [siblings.parts_eq, locate_snoc siblings.dot siblings.dots] at leads
  rw [siblings.draft_eq, locate_snoc siblings.draft_dot siblings.draft_dots] at leads'
  obtain ⟨-, _, -, -, -, rfl⟩ := leads
  obtain ⟨-, _, -, -, -, same⟩ := leads'
  exact siblings.ne (List.cons.inj same).1

section Drafted

variable (siblings : Siblings path draft above name mark) (fresh : t.Fresh path draft)
include siblings fresh

/-- The name of the draft is new to the tree, and the other path does not have it. -/
theorem Fresh.unheard : t.Unknown mark ∧ mark ∉ above ++ [name] := by
  have last : mark ∈ (Path.parts draft).getLast? := by
    rw [siblings.draft_eq, List.getLast?_concat]
    rfl
  exact ⟨fresh.unknown mark last, siblings.parts_eq ▸ fresh.apart mark last⟩

/-- Nothing stands in the place of the draft. -/
theorem Fresh.vacant (at_ : t.locate false (Path.parts draft) = .ok p) : t.lookup p = none := by
  rw [siblings.draft_eq, locate_snoc siblings.draft_dot siblings.draft_dots] at at_
  obtain ⟨-, dir, -, -, -, rfl⟩ := at_
  by_contra there
  exact (fresh.unheard siblings).1.places _ there List.mem_cons_self

variable (drafts : Drafts (t.locate false (Path.parts draft)) t t')
include drafts

omit fresh in
/-- What does not have the name of the draft is as it was. -/
theorem Drafts.agree (p : Location) (apart : mark ∉ p) : t'.lookup p = t.lookup p := by
  refine drafts.others p fun at_ => apart ?_
  rw [siblings.draft_eq, locate_snoc siblings.draft_dot siblings.draft_dots] at at_
  obtain ⟨-, dir, -, -, -, rfl⟩ := at_
  exact List.mem_cons_self

/-- A way that does not have the name of the draft leads where it led. -/
theorem Drafts.alike (last : Bool) {ns : List Name} (apart : mark ∉ ns) :
    Alike mark (t.walk last maxLinks [] ns) (t'.walk last maxLinks [] ns) :=
  walk_unknown (drafts.agree siblings) (fresh.unheard siblings).1 maxLinks [] ns
    List.not_mem_nil apart

theorem Drafts.locate_eq (last : Bool) :
    t'.locate last (Path.parts path) = t.locate last (Path.parts path) := by
  obtain ⟨same, -⟩ := drafts.alike siblings fresh last (fresh.unheard siblings).2
  rw [siblings.parts_eq, locate, locate, same]

theorem Drafts.draft_eq :
    t'.locate false (Path.parts draft) = t.locate false (Path.parts draft) := by
  have apart : mark ∉ above := fun part => (fresh.unheard siblings).2 (List.mem_append_left _ part)
  obtain ⟨same, leads⟩ := drafts.alike siblings fresh true apart
  rw [siblings.draft_eq, locate, locate, walk_snoc siblings.draft_dot siblings.draft_dots,
    walk_snoc siblings.draft_dot siblings.draft_dots, same]
  cases ends : t.walk true maxLinks [] above with
  | error e => rfl
  | ok dir =>
    have there := drafts.agree siblings dir (leads dir ends)
    simp only [Except.bind, enter, there]

/-- A draft is begun as an empty file, or not at all. -/
theorem Drafts.createNew : (∃ e, t'.createNew (Path.parts draft) = (.error e, t')) ∨
    ∃ number t'', t'.createNew (Path.parts draft) = (.ok (.file number), t'') ∧
      Drafted (t.locate false (Path.parts draft)) number {} t t'' := by
  rw [Tree.createNew, drafts.draft_eq siblings fresh]
  cases leads : t.locate false (Path.parts draft) with
  | error e => exact Or.inl ⟨e, rfl⟩
  | ok p =>
    simp only
    cases found : t'.lookup p with
    | some node => exact Or.inl ⟨.alreadyExists, rfl⟩
    | none =>
      have root : p ≠ [] := ne_nil_of_lookup found (by simp)
      rw [leads] at drafts
      refine Or.inr ⟨t'.inodes.size, (t'.putFile p {}).2, rfl, drafts.putFile rfl root {}, ?_,
        drafts.grown, ?_, ?_⟩
      · exact ⟨p, rfl, by rw [lookup_putFile root, if_pos rfl]⟩
      · rw [Tree.putFile, Array.size_push]
        exact Nat.lt_succ_self _
      · rw [inode_putFile, if_pos rfl]

/-- Removing the draft leaves none; it fails only if there is none, or the path leads nowhere. -/
theorem Drafts.remove : (∃ e, t'.remove (Path.parts draft) = (.error e, t') ∧
      ∀ p, t.locate false (Path.parts draft) = .ok p → t'.lookup p = none) ∨
    ∃ t'', t'.remove (Path.parts draft) = (.ok (), t'') ∧
      Drafts (t.locate false (Path.parts draft)) t t'' ∧
      ∀ p, t.locate false (Path.parts draft) = .ok p → t''.lookup p = none := by
  rw [Tree.remove, drafts.draft_eq siblings fresh]
  cases leads : t.locate false (Path.parts draft) with
  | error e => exact Or.inl ⟨e, rfl, fun _ leads => by cases leads⟩
  | ok p =>
    rw [leads] at drafts
    simp only [Except.ok.injEq, forall_eq']
    rcases drafts.draft p rfl with none | ⟨number, there, -, -⟩
    · rw [none]
      exact Or.inl ⟨.notFound, rfl, rfl⟩
    · have root : p ≠ [] := ne_nil_of_lookup there (by simp)
      obtain ⟨erased, gone⟩ := drafts.erase rfl root
      rw [there]
      exact Or.inr ⟨_, rfl, erased, gone⟩

/-- **While a file is drafted, another path reads as it did.** -/
theorem Drafts.reading_eq (numbered : t.Numbered) : t'.reading path = t.reading path := by
  obtain ⟨-, ends⟩ := drafts.alike siblings fresh true (fresh.unheard siblings).2
  have same : t'.find? (Path.parts path) = t.find? (Path.parts path) := by
    rw [find?, find?, drafts.locate_eq siblings fresh]
    cases leads : t.locate true (Path.parts path) with
    | error e => rfl
    | ok place =>
      have apart : mark ∉ place := by
        rw [siblings.parts_eq, locate, if_neg (by simp)] at leads
        split at leads
        · cases leads
        · exact ends place leads
      simp only [bind, Except.bind, drafts.agree siblings place apart]
  rw [Tree.reading_eq, Tree.reading_eq, same]
  cases found : t.find? (Path.parts path) with
  | error e => rfl
  | ok node =>
    cases node with
    | directory | link _ => rfl
    | device kind => cases kind <;> rfl
    | file number =>
      have small : number < t.inodes.size := by
        rw [find?] at found
        cases leads : t.locate true (Path.parts path) with
        | error e => simp [leads, bind, Except.bind] at found
        | ok place =>
          simp only [leads, bind, Except.bind] at found
          split at found
          · next there =>
            cases found
            exact numbered.small there
          · cases found
      simp only [Except.bind, readWhole, Tree.read, drafts.files number small]

end Drafted

/-! ### The draft takes the place of the file -/

/-- A file that holds `bs`, all of them on the medium, has come to `place`, and all else is as it
was. -/
structure Replaced (place : Location) (bs : Bytes) (t t' : Tree) : Prop where
  others : ∀ p, p ≠ place → t'.lookup p = t.lookup p
  files : ∀ number < t.inodes.size, t'.inode number = t.inode number
  file : ∃ number, t'.lookup place = some (.file number) ∧ t'.inode number = ⟨bs, bs.length⟩
  plain : t.lookup place ≠ some .directory

/-- Renaming the draft replaces the file, or fails. -/
theorem Drafted.rename (siblings : Siblings path draft above name mark) (fresh : t.Fresh path draft)
    (drafted : Drafted (t.locate false (Path.parts draft)) number ⟨bs, bs.length⟩ t t') :
    (∃ e, t'.rename (Path.parts draft) (Path.parts path) = (.error e, t')) ∨
      ∃ place t'', t'.rename (Path.parts draft) (Path.parts path) = (.ok (), t'') ∧
        t.locate false (Path.parts path) = .ok place ∧ Replaced place bs t t'' := by
  have drafts := drafted.toDrafts
  obtain ⟨p, at_, there⟩ := drafted.there
  rw [Tree.rename, drafts.draft_eq siblings fresh, at_, drafts.locate_eq siblings fresh]
  simp only
  cases leads : t.locate false (Path.parts path) with
  | error e => exact Or.inl ⟨e, rfl⟩
  | ok place =>
    have vacant := fresh.vacant siblings at_
    have spot := at_
    rw [siblings.draft_eq, locate_snoc siblings.draft_dot siblings.draft_dots] at spot
    obtain ⟨-, dir, -, -, -, rfl⟩ := spot
    have end_ := leads
    rw [siblings.parts_eq, locate_snoc siblings.dot siblings.dots] at end_
    obtain ⟨-, dir', -, -, -, rfl⟩ := end_
    have apart : mark :: dir ≠ name :: dir' := fun e => siblings.ne (List.cons.inj e).1.symm
    have same : t'.lookup (name :: dir') = t.lookup (name :: dir') := by
      refine drafts.others _ fun e => apart ?_
      rw [at_] at e
      exact Except.ok.inj e
    simp only [there, if_neg apart]
    by_cases directory : t'.lookup (name :: dir') = some .directory
    · exact Or.inl ⟨.isDirectory, by rw [directory]⟩
    refine Or.inr ⟨name :: dir', (t'.erase (mark :: dir)).put (name :: dir') (.file number), ?_, rfl, ?_⟩
    · cases found : t'.lookup (name :: dir') with
      | none => rfl
      | some node =>
        cases node with
        | directory => exact absurd found directory
        | file _ | link _ | device _ => rfl
    · constructor
      case others =>
        intro q ne
        by_cases root : q = []
        · rw [root, lookup_nil, lookup_nil]
        rw [lookup_put root, if_neg ne, lookup_erase root]
        by_cases gone : q = mark :: dir
        · rw [if_pos gone, gone, vacant]
        · rw [if_neg gone]
          refine drafts.others q fun e => gone ?_
          rw [at_] at e
          exact (Except.ok.inj e).symm
      case files => exact drafts.files
      case file =>
        refine ⟨number, ?_, drafted.inode_eq⟩
        rw [lookup_put (by simp), if_pos rfl]
      case plain => rwa [← same]

section Reading

variable {dir : Location} (replaced : Replaced (name :: dir) bs t t')
  (parts : Path.parts path = above ++ [name]) (dot : name ≠ .text ".") (dots : name ≠ .text "..")
  (leads : t.locate false (Path.parts path) = .ok (name :: dir)) (beyond : t.LeadsBeyond path)
include replaced parts dot dots leads beyond

/-- The way to the directory is free of what was replaced. -/
theorem Replaced.walk_eq : t'.walk true maxLinks [] above = .ok dir := by
  have link := beyond (name :: dir)
  have at_ := leads
  rw [parts, locate_snoc dot dots] at at_
  obtain ⟨-, dir', way, directory, -, same⟩ := at_
  obtain rfl := (List.cons.inj same).2
  by_cases linked : ∃ target, t.lookup (name :: dir) = some (.link target)
  · -- the path leads there even when the link is gone, so it never led through it
    obtain ⟨target, there⟩ := linked
    have still := link target leads there
    rw [parts, locate_snoc dot dots] at still
    obtain ⟨-, dir', way', directory', -, same⟩ := still
    obtain rfl := (List.cons.inj same).2
    refine walk_along (fun q node found _ _ => ?_) directory' _ _ _ way'
    by_cases root : q = []
    · rw [root, lookup_nil] at found ⊢
      exact found
    rw [lookup_erase root] at found
    split at found
    · cases found
    · next away => rw [replaced.others q away, found]
  · refine walk_along (fun q node found noFile noDevice => ?_) directory _ _ _ way
    by_cases here : q = name :: dir
    · subst here
      cases node with
      | directory => exact absurd found replaced.plain
      | file n => exact absurd rfl (noFile n)
      | link target => exact absurd ⟨target, found⟩ linked
      | device kind => exact absurd rfl (noDevice kind)
    · rw [replaced.others q here, found]

/-- **A file that was replaced is what its path leads to.** -/
theorem Replaced.reading_eq : t'.reading path = .ok bs := by
  have way := replaced.walk_eq parts dot dots leads beyond
  rw [parts, locate_snoc dot dots] at leads
  obtain ⟨clean, dir', -, directory, short, same⟩ := leads
  obtain rfl := (List.cons.inj same).2
  have ne : dir ≠ name :: dir := fun e => by simpa using congrArg List.length e
  obtain ⟨number, there, file⟩ := replaced.file
  have directory' : t'.lookup dir = some .directory := by rw [replaced.others dir ne, directory]
  have files : Files t' dir (· = name) :=
    ⟨directory', fun other same => Or.inr ⟨number, by rw [same]; exact there⟩⟩
  have ends : t'.walk true maxLinks [] (above ++ [name]) = .ok (name :: dir) := by
    refine walk_append files (fun _ _ => rfl) (Or.inr rfl) (fun follow => ?_) maxLinks [] above way
    simp only [walkWith, directory', if_neg dot, if_neg dots, short, Bool.false_eq_true, if_false,
      there]
  have found : t'.find? (Path.parts path) = .ok (.file number) := by
    rw [parts, find?, locate, if_neg (by simp), clean, if_neg Bool.false_ne_true, ends]
    simp only [bind, Except.bind, there]
  rw [Tree.reading_eq, found]
  simp only [Except.bind, readWhole, Tree.read, file, List.drop_zero, List.take_length]

end Reading

end Tree

end DurableQueue.FileSystem
