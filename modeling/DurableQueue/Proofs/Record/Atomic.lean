import Mathlib.Data.List.Basic
import DurableQueue.Proofs.FileSystem.Drafting
import DurableQueue.Proofs.FileSystem.Touching
import DurableQueue.Proofs.Log.Outcomes
import DurableQueue.Proofs.Record.Replacing

/-!
# The record is replaced as a whole

Whatever the tree holds and whatever fails, storing a record is drafting a file and at most one step
that puts it in the place of the last one (`store_replaces`). `Record.Replaces` says what that comes to
for whoever looks: at every moment the record reads as it did or as the new one, the answer tells which
of the two it is in the end, and nothing else has changed. The step that shows (`rename_renews`) is the
only one between two kinds of trees, `Tree.Drafts` and `Tree.Replaced`, so each call has one lemma and
the run is put together from them.

A link that stands in the record's place is replaced as well. Where the path itself leads through that
link, the record cannot be found again (`store_through_own_link`).
-/

namespace DurableQueue

open FileSystem

/-! ### Runs of calls -/

namespace FileSystem.Disk

/-- Calls lead from `d` to `d'`, and after each of them `R` holds of the tree. -/
structure Passes (R : Tree → Prop) (d d' : Disk) : Prop where
  makes : d.Makes (fun a => R a.after) d'
  now : R d'.tree

variable {R R' : Tree → Prop} {d d' d'' : Disk}

namespace Passes

theorem trans (first : Passes R d d') (second : Passes R d' d'') : Passes R d d'' :=
  ⟨first.makes.trans second.makes, second.now⟩

theorem mono (h : Passes R d d') (weaker : ∀ t, R t → R' t) : Passes R' d d' :=
  ⟨h.makes.mono fun a => weaker a.after, weaker _ h.now⟩

/-- At every moment of such calls `R` holds. -/
theorem since (h : Passes R d d') (before : R d.tree) : ∀ t ∈ d'.since d, R t := by
  intro t moment
  rcases h.makes.mem_since moment with rfl | ⟨a, holds, rfl⟩
  · exact before
  · exact holds

end Passes

section Single

variable {α : Type} (call : Call) (act : Tree → Except FileError α × Tree)

/-- One call leads to what it leaves. -/
theorem passes_call (now : R (d.perform call act).2.tree) : Passes R d (d.perform call act).2 := by
  refine ⟨?_, now⟩
  rw [d.perform_noted call act]
  exact makes_noted now

/-- A call fails and does nothing, or does what it is for. -/
theorem passes_perform (before : R d.tree) (after : R (act d.tree).2) :
    Passes R d (d.perform call act).2 := by
  apply passes_call
  rcases d.perform_cases call act with ⟨-, tree⟩ | ⟨-, tree⟩
  · rw [tree]
    exact before
  · rw [tree]
    exact after

end Single

end FileSystem.Disk

/-! ### The two paths -/

namespace Record

/-- The name that every record ends in. -/
theorem recordPath_eq (dir queue : String) :
    ∃ front, Naming.recordPath dir queue = front ++ ".queue.meta.dat" := by
  rw [Naming.recordPath, Naming.recordName, Path.join]
  split
  · exact ⟨queue, rfl⟩
  · split
    · exact ⟨dir ++ queue, String.append_assoc.symm⟩
    · exact ⟨dir ++ "/" ++ queue, String.append_assoc.symm⟩

/-- A record and its draft stand side by side. -/
theorem siblings (dir queue : String) (tag : Tag) : ∃ above name mark,
    Tree.Siblings (Naming.recordPath dir queue)
      (Naming.temporaryPath (Naming.recordPath dir queue) tag.text) above name mark := by
  obtain ⟨front, eq⟩ := recordPath_eq dir queue
  obtain ⟨above, piece, parts⟩ := Path.names_append_noSlash front
  obtain ⟨ending, ending_eq⟩ : ∃ ending,
    ending = ".queue.meta.dat" ++ "." ++ tag.text ++ ".tmp" := ⟨_, rfl⟩
  have length : ending.toList.length = 20 + tag.text.toList.length := by
    rw [ending_eq]
    simp
    omega
  have some : ending.toList ≠ [] := by
    intro none
    rw [none] at length
    simp at length
    omega
  have noSlash : '/' ∉ ending.toList := by
    rw [ending_eq]
    simp only [String.toList_append, List.mem_append, not_or]
    exact ⟨⟨⟨by decide, by decide⟩, fun there => (QueueFile.ordinary_of_mem_tag there).1 rfl⟩, by decide⟩
  have draft : Naming.temporaryPath (Naming.recordPath dir queue) tag.text = front ++ ending := by
    rw [eq, Naming.temporaryPath, ending_eq]
    simp [String.append_assoc]
  -- names that long are no dots, and of two lengths
  have tell : ∀ {s s' : String}, s.toList.length ≠ s'.toList.length → Name.text s ≠ .text s' := by
    rintro s s' ne same
    cases same
    exact ne rfl
  refine ⟨above, .text (String.ofList piece ++ ".queue.meta.dat"), .text (String.ofList piece ++ ending),
    ⟨?_, ?_, ?_, ?_, ?_, ?_, ?_⟩⟩
  · rw [eq]
    exact parts _ (by decide) (by decide)
  · rw [draft]
    exact parts _ some noSlash
  all_goals
    refine tell ?_
    simp [length]
    try omega

end Record

/-! ### Drafting -/

namespace Record

/-- A record of these bytes has come to the place that its path leads to. -/
def Renewed (path : String) (bs : Bytes) (t t' : Tree) : Prop :=
  ∃ place, t.locate false (Path.parts path) = .ok place ∧ Tree.Replaced place bs t t'

section Drafting

variable {t : Tree} {d : Disk} {path draft : String} {above : List Name} {name mark : Name}
  (siblings : Tree.Siblings path draft above name mark) (fresh : t.Fresh path draft)
include siblings fresh

theorem createNew_drafts (drafts : Tree.Drafts (t.locate false (Path.parts draft)) t d.tree) :
    Disk.Passes (Tree.Drafts (t.locate false (Path.parts draft)) t) d (d.createNew draft).2 ∧
      ∀ h, (d.createNew draft).1 = .ok h → ∃ number, h = ⟨draft, .file number, 0⟩ ∧
        Tree.Drafted (t.locate false (Path.parts draft)) number {} t (d.createNew draft).2.tree := by
  have creates := drafts.createNew siblings fresh
  rw [Disk.createNew_eq]
  obtain ⟨act, act_eq⟩ : ∃ act : Tree → Except FileError Handle × Tree, act = fun t =>
      ((t.createNew (Path.parts draft)).1.map fun node => (⟨draft, node, 0⟩ : Handle),
        (t.createNew (Path.parts draft)).2) := ⟨_, rfl⟩
  rw [← act_eq]
  have acts : act d.tree = ((d.tree.createNew (Path.parts draft)).1.map fun node =>
      (⟨draft, node, 0⟩ : Handle), (d.tree.createNew (Path.parts draft)).2) := by rw [act_eq]
  constructor
  · refine Disk.passes_perform _ act drafts ?_
    rw [acts]
    rcases creates with ⟨e, eq⟩ | ⟨number, t', eq, drafted⟩
    · rw [eq]
      exact drafts
    · rw [eq]
      exact drafted.toDrafts
  · intro h ok
    rcases d.perform_cases (.createNew draft) act with ⟨⟨e, failed⟩, -⟩ | ⟨done, tree⟩
    · rw [failed] at ok
      cases ok
    · rw [done, acts] at ok
      rw [tree, acts]
      rcases creates with ⟨e, eq⟩ | ⟨number, t', eq, drafted⟩
      · rw [eq] at ok
        cases ok
      · rw [eq] at ok ⊢
        cases ok
        exact ⟨number, rfl, drafted⟩

omit siblings fresh in
/-- A write changes the draft alone, however much of it is written. -/
theorem write_drafts {spot : Except FileError Location} {number : Nat} {file : Inode}
    (drafted : Tree.Drafted spot number file t d.tree) (h : Handle) (node : h.node = .file number)
    (new : Bytes) : Disk.Passes (Tree.Drafts spot t) d (d.write h new).2 ∧
      ∀ h', (d.write h new).1 = .ok h' → h'.node = .file number ∧
        Tree.Drafted spot number (Disk.written file h.offset new) t (d.write h new).2.tree := by
  have wrote : ∀ bs, d.tree.write h.node h.offset bs =
      (.ok (), d.tree.modify number fun file => Disk.written file h.offset bs) := by
    intro bs
    rw [node]
    rfl
  have changed := fun bs => drafted.change fun file => Disk.written file h.offset bs
  unfold Disk.write
  simp only
  split
  · next fault _ =>
    rw [wrote]
    have drafts := (changed (new.take fault.written)).toDrafts
    exact ⟨⟨Disk.makes_noted drafts, drafts⟩, fun _ wrote => by cases wrote⟩
  · rw [wrote]
    refine ⟨⟨Disk.makes_noted (changed new).toDrafts, (changed new).toDrafts⟩, fun h' ok => ?_⟩
    cases ok
    exact ⟨node, changed new⟩

omit siblings fresh in
/-- A draft is brought to the medium as it is. -/
theorem sync_drafts {spot : Except FileError Location} {number : Nat} {file : Inode}
    (drafted : Tree.Drafted spot number file t d.tree) (h : Handle) (node : h.node = .file number) :
    Disk.Passes (Tree.Drafts spot t) d (d.sync h).2 ∧
      ((d.sync h).1 = .ok () →
        Tree.Drafted spot number (Disk.synced file) t (d.sync h).2.tree) := by
  have brought : d.tree.sync h.node = (.ok (), d.tree.modify number Disk.synced) := by
    rw [node]
    rfl
  have changed := drafted.change Disk.synced
  constructor
  · refine Disk.passes_perform _ _ drafted.toDrafts ?_
    rw [brought]
    exact changed.toDrafts
  · intro ok
    rcases d.perform_cases (.sync h.path) fun t => t.sync h.node with ⟨⟨e, failed⟩, -⟩ | ⟨-, tree⟩
    · rw [Disk.sync, failed] at ok
      cases ok
    · rw [Disk.sync, tree, brought]
      exact changed

/-- **A record is drafted whole and brought to the medium, or that fails**; nothing else shows. -/
theorem writeSynced_drafts (drafts : Tree.Drafts (t.locate false (Path.parts draft)) t d.tree)
    (bs : Bytes) :
    Disk.Passes (Tree.Drafts (t.locate false (Path.parts draft)) t) d (writeSynced d draft bs).2 ∧
      ((writeSynced d draft bs).1 = .ok () → ∃ number,
        Tree.Drafted (t.locate false (Path.parts draft)) number ⟨bs, bs.length⟩ t
          (writeSynced d draft bs).2.tree) := by
  obtain ⟨first, created⟩ := createNew_drafts siblings fresh drafts
  unfold writeSynced
  revert first created
  cases d.createNew draft with
  | mk result d₁ =>
    intro first created
    cases result with
    | error e => exact ⟨first, fun done => by cases done⟩
    | ok h =>
      obtain ⟨number, rfl, begun⟩ := created h rfl
      obtain ⟨second, wrote⟩ := write_drafts begun ⟨draft, .file number, 0⟩ rfl bs
      simp only
      revert second wrote
      cases d₁.write ⟨draft, .file number, 0⟩ bs with
      | mk result d₂ =>
        intro second wrote
        cases result with
        | error e => exact ⟨first.trans second, fun done => by cases done⟩
        | ok h' =>
          obtain ⟨node, written⟩ := wrote h' rfl
          obtain ⟨third, synced⟩ := sync_drafts written h' node
          refine ⟨first.trans (second.trans third), fun ok => ⟨number, ?_⟩⟩
          have whole : Disk.synced (Disk.written {} 0 bs) = ⟨bs, bs.length⟩ := by
            simp only [Disk.synced, Disk.written]
            rw [show Bytes.overwrite [] 0 bs = bs from Bytes.overwrite_length [] bs]
          rw [← whole]
          exact synced ok

/-- A failed attempt leaves no draft, unless the last call, which is to remove it, fails. -/
theorem abandon_drafts (drafts : Tree.Drafts (t.locate false (Path.parts draft)) t d.tree)
    (e : Error) :
    Disk.Passes (Tree.Drafts (t.locate false (Path.parts draft)) t) d (abandon d draft e).disk ∧
      (abandon d draft e).result = .error e ∧
      ((∀ p, t.locate false (Path.parts draft) = .ok p →
          (abandon d draft e).disk.tree.lookup p = none) ∨
        ∃ e' t' earlier, (abandon d draft e).disk.history =
          ⟨.remove draft, some e', t'⟩ :: earlier) := by
  have removes := drafts.remove siblings fresh
  have passes : Disk.Passes (Tree.Drafts (t.locate false (Path.parts draft)) t) d
      (d.remove draft).2 := by
    refine Disk.passes_perform _ _ drafts ?_
    rcases removes with ⟨e', eq, -⟩ | ⟨t', eq, gone, -⟩
    · rw [eq]
      exact drafts
    · rw [eq]
      exact gone
  have last := d.perform_noted (.remove draft) fun t => t.remove (Path.parts draft)
  have cleared : (∃ e', (d.remove draft).1 = .error e') ∨
      ∀ p, t.locate false (Path.parts draft) = .ok p → (d.remove draft).2.tree.lookup p = none := by
    rcases d.perform_cases (.remove draft) fun t => t.remove (Path.parts draft) with
      ⟨failed, -⟩ | ⟨done, tree⟩
    · exact Or.inl failed
    · rcases removes with ⟨e', eq, -⟩ | ⟨t', eq, -, gone⟩
      · exact Or.inl ⟨e', by rw [Disk.remove, done, eq]⟩
      · refine Or.inr fun p leads => ?_
        rw [Disk.remove, tree, eq]
        exact gone p leads
  change (d.remove draft).2 = d.noted (.remove draft) (Disk.errorOf (d.remove draft).1)
    (d.remove draft).2.tree at last
  unfold abandon
  revert passes last cleared
  cases d.remove draft with
  | mk result d' =>
    intro passes cleared last
    cases result with
    | ok u =>
      obtain ⟨e', failed⟩ | gone := cleared
      · cases failed
      · exact ⟨passes, rfl, Or.inl gone⟩
    | error e' => exact ⟨passes, rfl, Or.inr ⟨e', d'.tree, d.history, congrArg Disk.history last⟩⟩

/-- **Renaming the draft is the one step that shows**: it renews the record, or nothing changes. -/
theorem rename_renews {number : Nat} {bs : Bytes}
    (drafted : Tree.Drafted (t.locate false (Path.parts draft)) number ⟨bs, bs.length⟩ t d.tree) :
    (d.rename draft path).1 = .ok () ∧ Renewed path bs t (d.rename draft path).2.tree ∨
      (∃ e, (d.rename draft path).1 = .error e) ∧ (d.rename draft path).2.tree = d.tree := by
  rcases d.perform_cases (.rename draft path) fun t =>
      t.rename (Path.parts draft) (Path.parts path) with ⟨failed, tree⟩ | ⟨done, tree⟩
  · exact Or.inr ⟨failed, tree⟩
  · rw [Disk.rename, done, tree]
    rcases drafted.rename siblings fresh with ⟨e, eq⟩ | ⟨place, t', eq, leads, replaced⟩
    · rw [eq]
      exact Or.inr ⟨⟨e, rfl⟩, rfl⟩
    · rw [eq]
      exact Or.inl ⟨rfl, place, leads, replaced⟩

end Drafting

/-! ### Storing -/

/-- What storing `r` under a path comes to for whoever looks at the tree. -/
structure Replaces (r : Record) (d : Disk) (path : String) (out : Stored) : Prop where
  /-- The record is at every moment the last one or the new one. -/
  whole : ∀ t ∈ out.disk.since d,
    t.reading path = d.tree.reading path ∨ t.reading path = .ok (Text.encode r.text)
  /-- What stands in its place is at every moment what stood there, or the new one on the medium. -/
  entry : ∀ t ∈ out.disk.since d, ∀ p, d.tree.locate false (Path.parts path) = .ok p →
    t.lookup p = d.tree.lookup p ∨ ∃ number, t.lookup p = some (.file number) ∧
      t.inode number = ⟨Text.encode r.text, (Text.encode r.text).length⟩
  /-- A success means that the new one is there to be loaded. -/
  stored : out.result = .ok () → out.disk.tree.reading path = .ok (Text.encode r.text) ∧
    ∀ d' : Disk, d'.tree = out.disk.tree → d'.Faultless → (load d' path).1 = .ok (some r)
  /-- A failure means that the last one is. -/
  kept : ∀ e, out.result = .error e → out.disk.tree.reading path = d.tree.reading path ∧
    ∀ p, d.tree.locate false (Path.parts path) = .ok p →
      out.disk.tree.lookup p = d.tree.lookup p
  /-- No draft is left, unless the last call, which was to remove it, failed. -/
  cleared : (∀ p, d.tree.locate false (Path.parts (Naming.temporaryPath path d.freshTag)) = .ok p →
      out.disk.tree.lookup p = none) ∨
    ∃ e t earlier, out.disk.history =
      ⟨.remove (Naming.temporaryPath path d.freshTag), some e, t⟩ :: earlier
  /-- At no moment has anything else changed. -/
  others : ∀ t ∈ out.disk.since d,
    (∀ p, d.tree.locate false (Path.parts path) ≠ .ok p →
      d.tree.locate false (Path.parts (Naming.temporaryPath path d.freshTag)) ≠ .ok p →
        t.lookup p = d.tree.lookup p) ∧
    ∀ number < d.tree.inodes.size, t.inode number = d.tree.inode number
  /-- No call names another path. -/
  names : d.Makes (fun a => a.call.Within fun p =>
    p = path ∨ p = Naming.temporaryPath path d.freshTag) out.disk

section Whole

variable {d : Disk} {path draft : String} {above : List Name} {name mark : Name}
  (siblings : Tree.Siblings path draft above name mark) (fresh : d.tree.Fresh path draft)
  (draft_eq : draft = Naming.temporaryPath path d.freshTag)
include siblings fresh draft_eq

/-- Storing drafts a record, and then renews the last one or gives the draft up. -/
theorem store_drafts (r : Record) :
    Disk.Passes (fun t => Tree.Drafts (d.tree.locate false (Path.parts draft)) d.tree t ∨
      Renewed path (Text.encode r.text) d.tree t) d (r.store d path).disk ∧
      ((r.store d path).result = .ok () ∧
          Renewed path (Text.encode r.text) d.tree (r.store d path).disk.tree ∨
        (∃ e, (r.store d path).result = .error e) ∧
          Tree.Drafts (d.tree.locate false (Path.parts draft)) d.tree (r.store d path).disk.tree ∧
          ((∀ p, d.tree.locate false (Path.parts draft) = .ok p →
              (r.store d path).disk.tree.lookup p = none) ∨
            ∃ e t earlier, (r.store d path).disk.history = ⟨.remove draft, some e, t⟩ :: earlier)) := by
  have drafts : Tree.Drafts (d.tree.locate false (Path.parts draft)) d.tree d.tree :=
    .refl fun p leads => fresh.vacant siblings leads
  obtain ⟨first, wrote⟩ := writeSynced_drafts siblings fresh drafts (Text.encode r.text)
  unfold store
  rw [← draft_eq]
  simp only
  revert first wrote
  cases writeSynced d draft (Text.encode r.text) with
  | mk result d₁ =>
    intro first wrote
    cases result with
    | error e =>
      obtain ⟨second, failed, cleared⟩ :=
        abandon_drafts siblings fresh first.now (.writeRecord draft e)
      exact ⟨(first.trans second).mono fun _ => Or.inl, Or.inr ⟨⟨_, failed⟩, second.now, cleared⟩⟩
    | ok u =>
      obtain ⟨number, drafted⟩ := wrote rfl
      have first' := first.mono fun t drafts =>
        Or.inl (b := Renewed path (Text.encode r.text) d.tree t) drafts
      have renames := rename_renews siblings fresh drafted
      simp only
      have second : Disk.Passes (fun t =>
          Tree.Drafts (d.tree.locate false (Path.parts draft)) d.tree t ∨
            Renewed path (Text.encode r.text) d.tree t) d₁ (d₁.rename draft path).2 := by
        apply Disk.passes_call
        rcases renames with ⟨-, renewed⟩ | ⟨-, same⟩
        · exact Or.inr renewed
        · exact Or.inl (same.symm ▸ first.now)
      revert second renames
      cases d₁.rename draft path with
      | mk result d₂ =>
        rintro (⟨rfl, renewed⟩ | ⟨⟨e, rfl⟩, same⟩) second
        · exact ⟨first'.trans second, Or.inl ⟨rfl, renewed⟩⟩
        · have still : Tree.Drafts (d.tree.locate false (Path.parts draft)) d.tree d₂.tree := by
            rw [show d₂.tree = d₁.tree from same]
            exact first.now
          obtain ⟨third, failed, cleared⟩ :=
            abandon_drafts siblings fresh still (.writeRecord path e)
          exact ⟨first'.trans (second.trans (third.mono fun _ => Or.inl)),
            Or.inr ⟨⟨_, failed⟩, third.now, cleared⟩⟩

end Whole

/-- A record that was renewed is what is read. -/
theorem Renewed.reading_eq {t t' : Tree} {path draft : String} {bs : Bytes} {above : List Name}
    {name mark : Name} (renewed : Renewed path bs t t')
    (siblings : Tree.Siblings path draft above name mark) (beyond : t.LeadsBeyond path) :
    t'.reading path = .ok bs := by
  obtain ⟨place, leads, replaced⟩ := renewed
  have at_ := leads
  rw [siblings.parts_eq, Tree.locate_snoc siblings.dot siblings.dots] at at_
  obtain ⟨-, dir, -, -, -, rfl⟩ := at_
  exact replaced.reading_eq siblings.parts_eq siblings.dot siblings.dots leads beyond

/-- Storing names no paths but the record's and the draft's. -/
theorem store_names (r : Record) (d : Disk) (path : String) :
    d.Makes (fun a => a.call.Within fun p =>
      p = path ∨ p = Naming.temporaryPath path d.freshTag) (r.store d path).disk := by
  obtain ⟨draft, draft_eq⟩ : ∃ draft, draft = Naming.temporaryPath path d.freshTag := ⟨_, rfl⟩
  rw [← draft_eq]
  have one : ∀ {p}, p = path ∨ p = draft → ∀ q ∈ [p], q = path ∨ q = draft := by
    rintro p named q there
    rwa [List.mem_singleton.1 there]
  refine store_calls (C := Call.Within fun p => p = path ∨ p = draft) r d path draft_eq
    (one (Or.inr rfl)) (fun _ _ => one (Or.inr rfl)) (one (Or.inr rfl)) (one (Or.inr rfl)) ?_
  intro q there
  rcases List.mem_cons.1 there with rfl | there
  · exact Or.inr rfl
  · exact one (Or.inl rfl) q there

/-- **A record is replaced as a whole.** Whatever the tree holds and whichever calls fail, a store
under a name that is new shows the last record or the new one at every moment, and its answer says
which it leaves. -/
theorem store_replaces (r : Record) (d : Disk) (dir queue : String) (words : r.InWords)
    (numbered : d.tree.Numbered)
    (fresh : d.tree.Fresh (Naming.recordPath dir queue)
      (Naming.temporaryPath (Naming.recordPath dir queue) d.freshTag))
    (beyond : d.tree.LeadsBeyond (Naming.recordPath dir queue)) :
    Replaces r d (Naming.recordPath dir queue) (r.store d (Naming.recordPath dir queue)) := by
  obtain ⟨above, name, mark, siblings⟩ := siblings dir queue (nextTag d)
  change Tree.Siblings _ (Naming.temporaryPath (Naming.recordPath dir queue) d.freshTag) _ _ _
    at siblings
  obtain ⟨path, path_eq⟩ : ∃ path, path = Naming.recordPath dir queue := ⟨_, rfl⟩
  obtain ⟨draft, draft_eq⟩ : ∃ draft, draft = Naming.temporaryPath path d.freshTag := ⟨_, rfl⟩
  rw [← path_eq] at fresh beyond siblings ⊢
  rw [← draft_eq] at fresh siblings
  obtain ⟨passes, outcome⟩ := store_drafts siblings fresh draft_eq r
  have drafts : Tree.Drafts (d.tree.locate false (Path.parts draft)) d.tree d.tree :=
    .refl fun p leads => fresh.vacant siblings leads
  have shown := passes.since (Or.inl drafts)
  have reads : ∀ {t}, Renewed path (Text.encode r.text) d.tree t →
      t.reading path = .ok (Text.encode r.text) := fun renewed => renewed.reading_eq siblings beyond
  constructor
  case whole =>
    intro t moment
    rcases shown t moment with drafts | renewed
    · exact Or.inl (drafts.reading_eq siblings fresh numbered)
    · exact Or.inr (reads renewed)
  case entry =>
    intro t moment p at_
    rcases shown t moment with drafts | ⟨place, leads, replaced⟩
    · exact Or.inl (drafts.others p (siblings.apart at_))
    · rw [at_] at leads
      cases leads
      exact Or.inr replaced.file
  case stored =>
    intro ok
    rcases outcome with ⟨-, renewed⟩ | ⟨⟨e, failed⟩, -⟩
    · refine ⟨reads renewed, fun d' tree faultless => ?_⟩
      have read : (d'.readFile path).1 = .ok (Text.encode r.text) := by
        rw [faultless.readFile, tree, ← Tree.reading_eq]
        exact reads renewed
      exact (load_ok_iff read).2 ⟨_, r, Text.decode_encode _, parse_text words, rfl⟩
    · rw [failed] at ok
      cases ok
  case kept =>
    intro e failed
    rcases outcome with ⟨ok, -⟩ | ⟨-, drafts, -⟩
    · rw [ok] at failed
      cases failed
    · exact ⟨drafts.reading_eq siblings fresh numbered,
        fun p at_ => drafts.others p (siblings.apart at_)⟩
  case cleared =>
    rw [← draft_eq]
    rcases outcome with ⟨-, place, leads, replaced⟩ | ⟨-, -, cleared⟩
    · refine Or.inl fun p at_ => ?_
      have ne : p ≠ place := fun e => siblings.apart leads (e ▸ at_)
      rw [replaced.others p ne]
      exact fresh.vacant siblings at_
    · exact cleared
  case others =>
    rw [← draft_eq]
    intro t moment
    rcases shown t moment with drafts | ⟨place, leads, replaced⟩
    · exact ⟨fun p _ away => drafts.others p away, drafts.files⟩
    · refine ⟨fun p away _ => replaced.others p fun e => away (e ▸ leads), replaced.files⟩
  case names => exact store_names r d path

/-! ### Replaced, and replaced out of reach -/

/-- A record in its place, and a disk on which the fourth call fails: the renaming. -/
theorem store_replaces_unrenamed :
    let d : Disk := {
      tree := { entries := [([.text "q.queue.meta.dat"], .file 0)], inodes := #[⟨[48], 1⟩] }
      faults := fun n _ => if n = 3 then some ⟨.other, 0⟩ else none }
    let r : Record := { length := 1, write := ⟨0, 5⟩ }
    r.InWords ∧ d.tree.Numbered ∧
      d.tree.Fresh (Naming.recordPath "" "q")
        (Naming.temporaryPath (Naming.recordPath "" "q") d.freshTag) ∧
      d.tree.LeadsBeyond (Naming.recordPath "" "q") ∧
      Replaces r d (Naming.recordPath "" "q") (r.store d (Naming.recordPath "" "q")) := by
  intro d r
  have words : r.InWords := by constructor <;> first | decide | constructor <;> decide
  have numbered : d.tree.Numbered := by
    intro e listed number file
    obtain rfl := List.mem_singleton.1 listed
    cases file
    decide
  have last : (Path.parts (Naming.temporaryPath (Naming.recordPath "" "q") d.freshTag)).getLast? =
      some (.text "q.queue.meta.dat.00000000000000000000000000000000.tmp") := by decide +kernel
  have unknown : d.tree.Unknown (.text "q.queue.meta.dat.00000000000000000000000000000000.tmp") := by
    refine Tree.unknown_of_entries (by decide +kernel) fun e listed target points => ?_
    obtain rfl := List.mem_singleton.1 listed
    cases points
  have fresh : d.tree.Fresh (Naming.recordPath "" "q")
      (Naming.temporaryPath (Naming.recordPath "" "q") d.freshTag) :=
    .of_last last unknown (by decide +kernel)
  have beyond : d.tree.LeadsBeyond (Naming.recordPath "" "q") := by
    intro p target leads linked
    have at_ : d.tree.locate false (Path.parts (Naming.recordPath "" "q")) =
        .ok [.text "q.queue.meta.dat"] := by decide +kernel
    have there : d.tree.lookup [.text "q.queue.meta.dat"] = some (.file 0) := by decide +kernel
    rw [at_] at leads
    cases leads
    rw [there] at linked
    cases linked
  exact ⟨words, numbered, fresh, beyond, store_replaces r d "" "q" words numbered fresh beyond⟩

/-- **A record whose own entry is on its path cannot be found again once it is stored.** The link in
its place, by which the path led, is replaced. -/
theorem store_through_own_link :
    let path := Naming.recordPath "" "q.queue.meta.dat/q"
    let d : Disk := { tree := { entries := [([.text "q.queue.meta.dat"], .link ".")] } }
    let r : Record := { length := 1, write := ⟨0, 5⟩ }
    r.InWords ∧ d.tree.Numbered ∧ d.tree.Fresh path (Naming.temporaryPath path d.freshTag) ∧
      (r.store d path).result = .ok () ∧
      (load { tree := (r.store d path).disk.tree } path).1 =
        .error (.readRecord path .notDirectory) := by
  intro path d r
  have last : (Path.parts (Naming.temporaryPath path d.freshTag)).getLast? =
      some (.text "q.queue.meta.dat.00000000000000000000000000000000.tmp") := by decide +kernel
  have unknown : d.tree.Unknown (.text "q.queue.meta.dat.00000000000000000000000000000000.tmp") := by
    refine Tree.unknown_of_entries (by decide +kernel) fun e listed target points => ?_
    obtain rfl := List.mem_singleton.1 listed
    cases points
    decide +kernel
  refine ⟨by constructor <;> first | decide | constructor <;> decide, fun e listed number file => ?_,
    .of_last last unknown (by decide +kernel), by decide +kernel, by decide +kernel⟩
  obtain rfl := List.mem_singleton.1 listed
  cases file

end Record

end DurableQueue
