import Worktree.Proofs.Growing
import Worktree.Store.Damaged

/-!
# Markers of removed files cannot be seen

Removing a file leaves a marker in the tree, also where there was no file.  Nothing that a tree is
asked shows whether there is a marker or no entry at all, whatever the store has lost; only a
listing of the entries does.

`Tree.pruned` is the tree without its markers.  Every answer is the one that the pruned tree gives,
and a change prunes to what the change of the pruned tree prunes to, so that two trees with the same
pruned tree are answered alike for ever.

* `Tree.sameButMarkers_iff` — trees that differ in markers only are those with one pruned tree;
* `Checkout.perform_pruned` — one operation, on a tree and on its pruned tree;
* `Checkout.SameButMarkers.run` — a whole run, on two trees;
* `markers_cannot_be_seen` puts it together with what a commit does: it leaves one tree for both.
-/

namespace Worktree

namespace Tree

/-! ## The pruned tree -/

/-- The trees agree on every path, but where one has a marker the other may have no entry. -/
def SameButMarkers (t u : Tree) : Prop :=
  ∀ p, t.lookup p = u.lookup p ∨
    (t.lookup p = some .removed ∧ u.lookup p = none) ∨
    (t.lookup p = none ∧ u.lookup p = some .removed)

/-- The tree without its markers. -/
def pruned (t : Tree) : Tree :=
  ⟨t.entries.filterMapWithKey fun _ e => Option.guard Entry.isLive e⟩

variable {t u : Tree}

/-- The pruned tree knows the files and nothing else. -/
theorem lookup_pruned (t : Tree) (p : Path) : t.pruned.lookup p = t.file? p :=
  (OrderedMap.get?_filterMapWithKey t.entries _ p).trans (Option.bind_guard ..)

@[simp] theorem file?_pruned (t : Tree) (p : Path) : t.pruned.file? p = t.file? p := by
  rw [file?, lookup_pruned, file?, Option.filter_filter]
  simp

theorem pruned_eq_iff : t.pruned = u.pruned ↔ ∀ p, t.file? p = u.file? p := by
  constructor
  · intro h p
    rw [← lookup_pruned, ← lookup_pruned, h]
  · intro h
    refine ext_lookup fun p => ?_
    rw [lookup_pruned, lookup_pruned, h]

@[simp] theorem pruned_pruned (t : Tree) : t.pruned.pruned = t.pruned :=
  pruned_eq_iff.mpr t.file?_pruned

theorem file?_eq_none_iff {p : Path} :
    t.file? p = none ↔ t.lookup p = none ∨ t.lookup p = some .removed := by
  unfold file?
  rcases t.lookup p with _ | _ | content | d <;> simp [Option.filter_some, Entry.isLive]

/-- **Trees differ in markers only when they have the same files.** -/
theorem sameButMarkers_iff : t.SameButMarkers u ↔ t.pruned = u.pruned := by
  rw [pruned_eq_iff]
  refine forall_congr' fun p => ?_
  constructor
  · intro h
    rcases h with heq | ⟨ht, hu⟩ | ⟨ht, hu⟩
    · rw [file?, file?, heq]
    · rw [file?_eq_none_iff.mpr (.inr ht), file?_eq_none_iff.mpr (.inl hu)]
    · rw [file?_eq_none_iff.mpr (.inl ht), file?_eq_none_iff.mpr (.inr hu)]
  · intro h
    cases ht : t.file? p with
    | none =>
        have hu : u.file? p = none := h.symm.trans ht
        rw [file?_eq_none_iff] at ht hu
        rcases ht with ht | ht <;> rcases hu with hu | hu <;> simp [ht, hu]
    | some e =>
        have hu : u.file? p = some e := h.symm.trans ht
        rw [file?, Option.filter_eq_some_iff] at ht hu
        exact .inl (ht.1.trans hu.1.symm)

/-! ## Answers -/

/-- What markers do not bring in the first place is brought by the files. -/
theorem bind_file? {β : Type} {g : Entry → Option β} (hg : g .removed = none) (t : Tree)
    (p : Path) : (t.file? p).bind g = (t.lookup p).bind g := by
  unfold file?
  rcases t.lookup p with _ | _ | content | d <;> simp [Option.filter_some, Entry.isLive, hg]

@[simp] theorem committed_pruned (t : Tree) : t.pruned.committed = t.committed := by
  refine Snapshot.ext_lookup fun p => ?_
  rw [lookup_committed, lookup_pruned, bind_file? rfl, lookup_committed]

@[simp] theorem digests_pruned (t : Tree) : t.pruned.digests = t.digests := by
  refine Snapshot.ext_lookup fun p => ?_
  rw [lookup_digests, lookup_pruned, bind_file? rfl, lookup_digests]

@[simp] theorem isLive_pruned (t : Tree) (p : Path) : t.pruned.isLive p = t.isLive p := by
  rw [isLive, file?_pruned, isLive]

@[simp] theorem paths_pruned (t : Tree) : t.pruned.paths = t.paths := by
  rw [paths_eq_paths_digests, digests_pruned, paths_eq_paths_digests]

section Objects

variable {σ : Type} [ObjectStore σ]

@[simp] theorem read_pruned (t : Tree) (store : σ) (p : Path) :
    t.pruned.read store p = t.read store p := by
  unfold read
  rw [lookup_pruned, file?]
  rcases t.lookup p with _ | _ | content | d <;> rfl

@[simp] theorem readText_pruned (t : Tree) (store : σ) (p : Path) :
    t.pruned.readText store p = t.readText store p := by
  rw [readText, read_pruned, readText]

@[simp] theorem report_pruned (t : Tree) (store : σ) (o : ReportOptions) (s : Snapshot) :
    t.pruned.report o store s = t.report o store s := by
  rw [report_eq_map, committed_pruned, digests_pruned, report_eq_map]

/-- The walk of a commit passes over markers, on any store. -/
theorem recorded_pruned (t : Tree) (store : σ) : t.pruned.recorded store = t.recorded store := by
  have hwalk : t.pruned.entries.gather record store = t.entries.gather record store := by
    refine OrderedMap.gather_filterMapWithKey (fun s p e => ?_) t.entries store
    cases e <;> rfl
  rw [recorded, hwalk, recorded]

@[simp] theorem commit_pruned (t : Tree) (store : σ) :
    t.pruned.commit store = t.commit store := by
  rw [commit_eq_map, committed_pruned, recorded_pruned, commit_eq_map]

end Objects

/-! ## Changes -/

/-- Setting an entry has the same effect on the files whether there are markers or not. -/
theorem pruned_insert_of_pruned_eq (h : t.pruned = u.pruned) (p : Path) (e : Entry) :
    pruned ⟨t.entries.insert p e⟩ = pruned ⟨u.entries.insert p e⟩ := by
  refine pruned_eq_iff.mpr fun q => ?_
  have hq := pruned_eq_iff.mp h q
  unfold file? lookup at hq ⊢
  rw [OrderedMap.get?_insert, OrderedMap.get?_insert]
  split
  · rfl
  · exact hq

theorem pruned_write (t : Tree) (p : Path) (content : ByteArray) :
    (t.pruned.write p content).pruned = (t.write p content).pruned :=
  pruned_insert_of_pruned_eq t.pruned_pruned p _

theorem pruned_remove (t : Tree) (p : Path) : (t.pruned.remove p).pruned = (t.remove p).pruned :=
  pruned_insert_of_pruned_eq t.pruned_pruned p _

theorem map_pruned_rename (t : Tree) (source target : Path) :
    (t.pruned.rename source target).map pruned = (t.rename source target).map pruned := by
  unfold rename
  rw [file?_pruned]
  cases t.file? source with
  | none => rfl
  | some e =>
      by_cases h : source = target
      · simp [h, Except.map]
      · have hmoved := pruned_insert_of_pruned_eq
          (pruned_insert_of_pruned_eq t.pruned_pruned source .removed) target e
        simpa [h, Except.map] using hmoved

end Tree

/-! ## Runs of operations -/

/-- A tree and the store behind it. -/
structure Checkout (σ : Type) where
  tree : Tree
  store : σ

namespace Checkout

/-- What can be done with a tree, but for listing its entries. -/
inductive Operation where
  | change (c : Change)
  | isLive (path : String)
  | read (path : String)
  | readText (path : String)
  | paths
  | size
  | isEmpty
  | report (options : ReportOptions) (snapshot : Snapshot)

-- Contents are compared as arrays of bytes, as those of an entry are.
local instance : DecidableEq ByteArray := fun a b =>
  decidable_of_iff (a.data = b.data) ByteArray.ext_iff.symm

/-- What an operation gives. -/
inductive Outcome where
  | done
  | recorded (s : Snapshot)
  | truth (b : Bool)
  | content (c : ByteArray)
  | text (t : String)
  | paths (l : List Path)
  | size (n : Nat)
  | report (r : Report)
  deriving DecidableEq

variable {σ : Type} [ObjectStore σ]

/-- Makes a change, which gives a snapshot if it is a commit. -/
def change (x : Checkout σ) (c : Change) : Except Fault Outcome × Checkout σ :=
  match x.tree.change x.store c with
  | .ok y => (.ok (y.recorded.elim .done .recorded), ⟨y.now, y.store⟩)
  | .error f => (.error f, x)

/-- What an operation gives, and what it leaves. -/
def perform (x : Checkout σ) : Operation → Except Fault Outcome × Checkout σ
  | .change c => x.change c
  | .isLive path => (.ok (.truth (x.tree.isLive (.ofString path))), x)
  | .read path => ((x.tree.read x.store (.ofString path)).map .content, x)
  | .readText path => ((x.tree.readText x.store (.ofString path)).map .text, x)
  | .paths => (.ok (.paths x.tree.paths), x)
  | .size => (.ok (.size x.tree.size), x)
  | .isEmpty => (.ok (.truth x.tree.isEmpty), x)
  | .report o s => ((x.tree.report o x.store s).map .report, x)

/-- What a run of operations leaves. -/
def run (x : Checkout σ) (operations : List Operation) : Checkout σ :=
  operations.foldl (fun x op => (x.perform op).2) x

/-- What the operations of a run give, one after the other. -/
def outcomes (x : Checkout σ) : List Operation → List (Except Fault Outcome)
  | [] => []
  | op :: rest => (x.perform op).1 :: outcomes (x.perform op).2 rest

/-! ### One tree -/

/-- A change gives the same on a tree and on its pruned tree, and leaves trees that prune to the
same. -/
theorem change_pruned (t : Tree) (store : σ) (c : Change) :
    let bare := (⟨t.pruned, store⟩ : Checkout σ).change c
    let full := (⟨t, store⟩ : Checkout σ).change c
    bare.1 = full.1 ∧ bare.2.store = full.2.store ∧ bare.2.tree.pruned = full.2.tree.pruned := by
  cases c with
  | write path content => exact ⟨rfl, rfl, t.pruned_write _ content⟩
  | remove path => exact ⟨rfl, rfl, t.pruned_remove _⟩
  | rename source target =>
      have hrename := t.map_pruned_rename (.ofString source) (.ofString target)
      simp only [change, Tree.change]
      cases ht : t.rename (.ofString source) (.ofString target) with
      | error f =>
          rw [ht] at hrename
          have hbare := map_eq_error_iff.mp hrename
          rw [hbare]
          exact ⟨rfl, rfl, t.pruned_pruned⟩
      | ok u =>
          rw [ht] at hrename
          obtain ⟨v, hbare, hpruned⟩ := map_eq_ok_iff.mp hrename
          rw [hbare]
          exact ⟨rfl, rfl, hpruned⟩
  | commit =>
      simp only [change, Tree.change, Tree.commit_pruned]
      cases t.commit store with
      | error f => exact ⟨rfl, rfl, t.pruned_pruned⟩
      | ok k => exact ⟨rfl, rfl, rfl⟩

/-- **One operation** gives the same on a tree and on its pruned tree, and leaves trees that prune
to the same. -/
theorem perform_pruned (t : Tree) (store : σ) (op : Operation) :
    let bare := (⟨t.pruned, store⟩ : Checkout σ).perform op
    let full := (⟨t, store⟩ : Checkout σ).perform op
    bare.1 = full.1 ∧ bare.2.store = full.2.store ∧ bare.2.tree.pruned = full.2.tree.pruned := by
  cases op with
  | change c => exact change_pruned t store c
  | isLive path => simp [perform]
  | read path => simp [perform]
  | readText path => simp [perform]
  | paths => simp [perform]
  | size => simp [perform, Tree.size]
  | isEmpty => simp [perform, Tree.isEmpty]
  | report o s => simp [perform]

/-- Only a commit that succeeds gives a snapshot. -/
theorem exists_commit_of_recorded {x : Checkout σ} {op : Operation} {s : Snapshot}
    (h : (x.perform op).1 = .ok (.recorded s)) :
    op = .change .commit ∧ ∃ k, x.tree.commit x.store = .ok k := by
  cases op with
  | change c =>
      simp only [perform, change] at h
      cases hchange : x.tree.change x.store c with
      | error f => simp [hchange] at h
      | ok y =>
          rcases Tree.change_cases hchange with ⟨k, rfl, hk, -⟩ | ⟨-, -, hnone, -⟩
          · exact ⟨rfl, k, hk⟩
          · simp [hchange, hnone] at h
  | read path =>
      obtain ⟨content, -, heq⟩ := map_eq_ok_iff.mp h
      exact absurd heq nofun
  | readText path =>
      obtain ⟨text, -, heq⟩ := map_eq_ok_iff.mp h
      exact absurd heq nofun
  | report o snapshot =>
      obtain ⟨r, -, heq⟩ := map_eq_ok_iff.mp h
      exact absurd heq nofun
  | _ => exact absurd h nofun

/-! ### Two trees -/

/-- The stores are the same, and the trees are but for markers. -/
structure SameButMarkers (x y : Checkout σ) : Prop where
  trees : x.tree.SameButMarkers y.tree
  stores : x.store = y.store

namespace SameButMarkers

variable {x y : Checkout σ}

/-- **One operation** gives the same on both sides, and leaves them the same but for markers. -/
theorem perform (h : x.SameButMarkers y) (op : Operation) :
    (x.perform op).1 = (y.perform op).1 ∧ (x.perform op).2.SameButMarkers (y.perform op).2 := by
  obtain ⟨t, store⟩ := x
  obtain ⟨u, store'⟩ := y
  obtain ⟨htrees, rfl⟩ := h
  have hpruned : t.pruned = u.pruned := Tree.sameButMarkers_iff.mp htrees
  obtain ⟨hgives, hstore, htree⟩ := perform_pruned t store op
  obtain ⟨hgives', hstore', htree'⟩ := perform_pruned u store op
  rw [hpruned] at hgives hstore htree
  refine ⟨hgives.symm.trans hgives', ?_, hstore.symm.trans hstore'⟩
  exact Tree.sameButMarkers_iff.mpr (htree.symm.trans htree')

/-- A commit that succeeds leaves one tree for both sides. -/
theorem eq_of_recorded (h : x.SameButMarkers y) {op : Operation} {s : Snapshot}
    (hs : (x.perform op).1 = .ok (.recorded s)) : (x.perform op).2 = (y.perform op).2 := by
  obtain ⟨t, store⟩ := x
  obtain ⟨u, store'⟩ := y
  obtain ⟨htrees, rfl⟩ := h
  obtain ⟨rfl, k, hk⟩ := exists_commit_of_recorded hs
  have ht : t.commit store = .ok k := hk
  have hu : u.commit store = .ok k := by
    rw [← Tree.commit_pruned, ← Tree.sameButMarkers_iff.mp htrees, Tree.commit_pruned, ht]
  simp only [Checkout.perform, change, Tree.change, ht, hu, Except.map]

/-- **A whole run** gives the same on both sides.  It leaves them the same but for markers, and
entirely the same if it made a commit that succeeded. -/
theorem run (h : x.SameButMarkers y) (operations : List Operation) :
    x.outcomes operations = y.outcomes operations ∧
      (x.run operations).SameButMarkers (y.run operations) ∧
      ∀ s, .ok (.recorded s) ∈ x.outcomes operations → x.run operations = y.run operations := by
  induction operations generalizing x y with
  | nil => exact ⟨rfl, h, fun s hs => absurd hs List.not_mem_nil⟩
  | cons op rest ih =>
      obtain ⟨hgives, hafter⟩ := h.perform op
      obtain ⟨houtcomes, hend, hsame⟩ := ih hafter
      refine ⟨?_, hend, ?_⟩
      · rw [outcomes, outcomes, hgives, houtcomes]
      · intro s hs
        rcases List.mem_cons.mp hs with hnow | hlater
        · exact congrArg (fun z => Checkout.run z rest) (h.eq_of_recorded hnow.symm)
        · exact hsame s hlater

end SameButMarkers

end Checkout

/-- **Markers cannot be seen.**  Two trees on one store, which may have lost any of its objects,
agree on every path, but where one has a marker the other may have no entry.  Then any operations,
done on the one and on the other, give the same, faults included, leave the same store, and leave
trees that agree in the same way.  After a commit that succeeds the trees are the same.  While they
are not, an entry tells them apart. -/
theorem markers_cannot_be_seen {σ : Type} [ObjectStore σ] (store : σ) {t u : Tree}
    (h : t.SameButMarkers u) (operations : List Checkout.Operation) :
    let x := (⟨t, store⟩ : Checkout σ).run operations
    let y := (⟨u, store⟩ : Checkout σ).run operations
    let outcomes := (⟨t, store⟩ : Checkout σ).outcomes operations
    outcomes = (⟨u, store⟩ : Checkout σ).outcomes operations ∧
      x.store = y.store ∧ x.tree.SameButMarkers y.tree ∧
      ((∃ s, .ok (.recorded s) ∈ outcomes) → x.tree = y.tree) ∧
      (x.tree ≠ y.tree → ∃ p, x.tree.lookup p ≠ y.tree.lookup p) := by
  intro x y outcomes
  have hstart : Checkout.SameButMarkers ⟨t, store⟩ ⟨u, store⟩ := ⟨h, rfl⟩
  obtain ⟨houtcomes, hend, hsame⟩ := hstart.run operations
  refine ⟨houtcomes, hend.stores, hend.trees, ?_, ?_⟩
  · intro hrecorded
    obtain ⟨s, hs⟩ := hrecorded
    exact congrArg Checkout.tree (hsame s hs)
  · intro hne
    by_contra hall
    push Not at hall
    exact hne (Tree.ext_lookup hall)

/-- A committed file whose object is lost, and markers on each side where the other has no entry.
The entries and their number differ, until the lost file is written again and committed. -/
theorem markers_cannot_be_seen_over_lost_object :
    let a : ByteArray := ⟨#[97]⟩
    let store := DamagedStore.empty.setDamage (.ofContent a) ⟨true, true⟩
    let files : Tree := ⟨.ofList [(.ofString "x", .committed (.ofContent a))]⟩
    let t := files.remove (.ofString "v")
    let u := (files.remove (.ofString "w")).remove (.ofString "y")
    let operations : List Checkout.Operation := [.read "x", .report .full .empty, .change .commit,
      .change (.rename "v" "x"), .change (.write "x" a), .change .commit, .paths, .read "w"]
    t.SameButMarkers u ∧
      t.lookup (.ofString "v") ≠ u.lookup (.ofString "v") ∧ t.entries.size ≠ u.entries.size ∧
      (⟨t, store⟩ : Checkout DamagedStore).outcomes operations
        = (⟨u, store⟩ : Checkout DamagedStore).outcomes operations ∧
      ((⟨t, store⟩ : Checkout DamagedStore).run operations).tree
        = ((⟨u, store⟩ : Checkout DamagedStore).run operations).tree := by
  intro a store files t u operations
  have hmarkers : t.SameButMarkers u := Tree.sameButMarkers_iff.mpr (by decide +kernel)
  obtain ⟨houtcomes, -, -, hsame, -⟩ := markers_cannot_be_seen store hmarkers operations
  have hrecorded : ((⟨t, store⟩ : Checkout DamagedStore).outcomes operations)[5]?
      = some (.ok (.recorded (.ofList [(.ofString "x", .ofContent a)]))) := by
    decide +kernel
  exact ⟨hmarkers, by decide +kernel, by decide +kernel, houtcomes,
    hsame ⟨_, List.mem_of_getElem? hrecorded⟩⟩

end Worktree
