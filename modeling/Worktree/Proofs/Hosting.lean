import Worktree.Proofs.FirstMissing

/-!
# Hosts and what they are asked

A host is a repository together with the store behind it.  It is asked for changes and for answers,
with paths as they are spelled, and `Host.serve` says what it answers and what becomes of it.

The second half of the file makes the same changes in place.  There a change is a sequence of small
steps on the host, each of which sees what the steps before it did, and a step that fails leaves the
host as it finds it, half-way through the change.  A commit in place overwrites one entry after the
other and gives the store one content after the other; that it never stops half-way is not a
property of how it is written down but a theorem, `InPlace.on_change`: each change in place ends as
`Host.change` says, with the same outcome.
-/

namespace Worktree

/-- A repository and the store behind it. -/
structure Host (σ : Type) where
  repository : Repository
  store : σ

/-- A change to a repository. -/
inductive Change where
  | write (path : String) (content : ByteArray)
  | remove (path : String)
  | rename (source target : String)
  | commit

/-- All that can be asked of a repository, its tree, its head, and snapshots beside it. -/
inductive Request where
  | change (c : Change)
  | isLive (path : String)
  | read (path : String)
  | readText (path : String)
  | readHead (path : String)
  | report
  | reportWith (options : ReportOptions)
  /-- Report on the tree against any snapshot. -/
  | compare (options : ReportOptions) (snapshot : Snapshot)
  | verify (snapshot : Snapshot)
  /-- Take the tree of a snapshot in place of the tree. -/
  | load (snapshot : Snapshot)
  /-- Take the repository opened at a snapshot in place of the repository. -/
  | reopen (snapshot : Snapshot)

/-- What a request is answered with. -/
inductive Answer where
  | done
  | truth (b : Bool)
  | content (c : ByteArray)
  | text (t : String)
  | report (r : Report)

namespace Host

variable {σ : Type} [ObjectStore σ]

/-- What a change comes to, and the host after it. -/
def change (h : Host σ) : Change → Except Fault Unit × Host σ
  | .write path content =>
    (.ok (), { h with repository := h.repository.write (.ofString path) content })
  | .remove path => (.ok (), { h with repository := h.repository.remove (.ofString path) })
  | .rename source target =>
    match h.repository.rename (.ofString source) (.ofString target) with
    | .ok r => (.ok (), { h with repository := r })
    | .error f => (.error f, h)
  | .commit =>
    match h.repository.commit h.store with
    | .ok (r, store) => (.ok (), { repository := r, store })
    | .error f => (.error f, h)

/-- Takes a result as an answer; the host stays as it is. -/
def answer {α : Type} (h : Host σ) (wrap : α → Answer) (result : Except Fault α) :
    Except Fault Answer × Host σ :=
  (result.map wrap, h)

/-- Puts a result in its place in the host, if there is one. -/
def install {α : Type} (h : Host σ) (put : α → Host σ) (result : Except Fault α) :
    Except Fault Answer × Host σ :=
  match result with
  | .ok a => (.ok .done, put a)
  | .error f => (.error f, h)

/-- What a request is answered with, and the host after it. -/
def serve (h : Host σ) : Request → Except Fault Answer × Host σ
  | .change c => ((h.change c).1.map fun _ => .done, (h.change c).2)
  | .isLive path => h.answer .truth (.ok (h.repository.isLive (.ofString path)))
  | .read path => h.answer .content (h.repository.read h.store (.ofString path))
  | .readText path => h.answer .text (h.repository.readText h.store (.ofString path))
  | .readHead path => h.answer .content (h.repository.readHead h.store (.ofString path))
  | .report => h.answer .report (h.repository.report h.store)
  | .reportWith o => h.answer .report (h.repository.reportWith o h.store)
  | .compare o s => h.answer .report (h.repository.tree.report o h.store s)
  | .verify s => h.answer (fun _ => .done) (s.verify h.store)
  | .load s =>
    h.install (fun tree => { h with repository := { h.repository with tree } })
      (Tree.load h.store s)
  | .reopen s => h.install (fun repository => { h with repository }) (Repository.load h.store s)

end Host

/-! ## Changes in place -/

section Steps

variable {ε s α β : Type} {a : ExceptT ε (StateM s) α} {next : α → ExceptT ε (StateM s) β}
  {start last : s}

/-- What follows a step that changes a state starts where the step ended. -/
theorem run_bind_of_ok {x : α} (ha : StateT.run (ExceptT.run a) start = (.ok x, last)) :
    StateT.run (ExceptT.run (a >>= next)) start = StateT.run (ExceptT.run (next x)) last := by
  show StateT.run (ExceptT.run a >>= ExceptT.bindCont next) start = _
  rw [StateT.run_bind, ha]
  rfl

/-- It does not start after a failure. -/
theorem run_bind_of_error {e : ε} (ha : StateT.run (ExceptT.run a) start = (.error e, last)) :
    StateT.run (ExceptT.run (a >>= next)) start = (.error e, last) := by
  show StateT.run (ExceptT.run a >>= ExceptT.bindCont next) start = _
  rw [StateT.run_bind, ha]
  rfl

end Steps

/-- Steps on a host.  A step that fails keeps the host as the steps before it left it. -/
abbrev InPlace (σ α : Type) := ExceptT Fault (StateM (Host σ)) α

namespace InPlace

variable {σ α β : Type}

/-- What steps come to on a host, and the host after them. -/
def on (a : InPlace σ α) (h : Host σ) : Except Fault α × Host σ :=
  StateT.run (ExceptT.run a) h

theorem on_pure (x : α) (h : Host σ) : (pure x : InPlace σ α).on h = (.ok x, h) := rfl

theorem on_get (h : Host σ) : (get : InPlace σ (Host σ)).on h = (.ok h, h) := rfl

theorem on_modify (g : Host σ → Host σ) (h : Host σ) :
    (modify g : InPlace σ PUnit).on h = (.ok ⟨⟩, g h) := rfl

/-- What follows a step runs where the step ended, and does not run after a failure. -/
theorem on_bind_of_ok {a : InPlace σ α} {next : α → InPlace σ β} {h h' : Host σ} {x : α}
    (ha : a.on h = (.ok x, h')) : (a >>= next).on h = (next x).on h' :=
  run_bind_of_ok ha

theorem on_bind_of_error {a : InPlace σ α} {next : α → InPlace σ β} {h h' : Host σ} {f : Fault}
    (ha : a.on h = (.error f, h')) : (a >>= next).on h = (.error f, h') :=
  run_bind_of_error ha

/-! ### The steps of a change -/

variable [ObjectStore σ]

/-- Overwrites an entry of the tree. -/
def setEntry (p : Path) (e : Entry) : InPlace σ Unit :=
  modify fun h => { h with
    repository.tree.entries := h.repository.tree.entries.insert p e }

/-- Looks whether the object of an entry is there. -/
def checkEntry (b : Path × Entry) : InPlace σ Unit := do
  match b.2 with
  | .committed d =>
    let h ← get
    if ObjectStore.contains h.store d then return () else throw (.corrupt b.1 d)
  | _ => return ()

/-- Looks for the objects of the entries, one after the other. -/
def checkEntries : List (Path × Entry) → InPlace σ Unit
  | [] => return ()
  | b :: rest => do
    checkEntry b
    checkEntries rest

/-- Records an entry: what was written goes to the store, and the entry is overwritten with its
digest. -/
def recordEntry (p : Path) : Entry → InPlace σ (List (Path × Digest))
  | .removed => return []
  | .written content => do
    let h ← get
    let (d, store) := ObjectStore.put h.store content
    set { h with store }
    setEntry p (.committed d)
    return [(p, d)]
  | .committed d => do
    setEntry p (.committed d)
    return [(p, d)]

/-- Records the entries, one after the other. -/
def recordEntries : List (Path × Entry) → InPlace σ (List (Path × Digest))
  | [] => return []
  | (p, e) :: rest => do
    let here ← recordEntry p e
    let later ← recordEntries rest
    return here ++ later

/-- Drops the markers of removed files. -/
def prune : InPlace σ Unit :=
  modify fun h => { h with
    repository.tree.entries :=
      h.repository.tree.entries.filterMapWithKey fun _ e => if e.isLive then some e else none }

/-- Records the tree in place. -/
def commit : InPlace σ Unit := do
  let h ← get
  checkEntries h.repository.tree.entries.toList
  let recorded ← recordEntries h.repository.tree.entries.toList
  prune
  modify fun h => { h with repository.head := .ofList recorded }

/-- Moves a file in place: first the marker at the old name, then the entry at the new one. -/
def rename (source target : Path) : InPlace σ Unit := do
  let h ← get
  match h.repository.tree.file? source with
  | none => throw (.notFound source)
  | some e =>
    if source = target then return ()
    setEntry source .removed
    setEntry target e

/-- Makes a change in place. -/
def change : Change → InPlace σ Unit
  | .write path content => setEntry (.ofString path) (.written content)
  | .remove path => setEntry (.ofString path) .removed
  | .rename source target => rename (.ofString source) (.ofString target)
  | .commit => commit

/-! ### Changes in place and changes at once -/

/-- Looking for the objects of the entries stops at the first that is missing and changes
nothing. -/
theorem on_checkEntries (l : List (Path × Entry)) (h : Host σ) :
    (checkEntries l).on h
      = (match (l.filterMap (OrderedMap.keepBinding fun _ e => e.committed?)).find?
            fun b => !ObjectStore.contains h.store b.2 with
          | some (p, d) => .error (.corrupt p d)
          | none => .ok (), h) := by
  induction l with
  | nil => rfl
  | cons b rest ih =>
      obtain ⟨p, e⟩ := b
      cases e with
      | removed => exact ih
      | written content => exact ih
      | committed d =>
          cases hd : ObjectStore.contains h.store d with
          | true =>
              have hcheck : (checkEntry (p, .committed d)).on h = (.ok (), h) := by
                simp only [checkEntry, on_bind_of_ok (on_get h), hd]
                rfl
              rw [checkEntries, on_bind_of_ok hcheck, ih]
              simp [OrderedMap.keepBinding, Entry.committed?, hd]
          | false =>
              have hcheck : (checkEntry (p, .committed d)).on h = (.error (.corrupt p d), h) := by
                simp only [checkEntry, on_bind_of_ok (on_get h), hd]
                rfl
              rw [checkEntries, on_bind_of_error hcheck]
              simp [OrderedMap.keepBinding, Entry.committed?, hd]

/-- The host after some entries were overwritten with the digests recorded for them. -/
def overwritten (h : Host σ) (recorded : List (Path × Digest)) (store : σ) : Host σ :=
  { repository := { h.repository with
      tree.entries := recorded.foldl (fun m b => m.insert b.1 (.committed b.2))
        h.repository.tree.entries }
    store }

theorem on_recordEntry (p : Path) (e : Entry) (h : Host σ) :
    (recordEntry p e).on h
      = (.ok ((Tree.record h.store p e).1.toList.map (p, ·)),
          overwritten h ((Tree.record h.store p e).1.toList.map (p, ·))
            (Tree.record h.store p e).2) := by
  cases e with
  | removed => rfl
  | written content => rfl
  | committed d => rfl

/-- Recording the entries one after the other is the walk of a commit. -/
theorem on_recordEntries (l : List (Path × Entry)) (h : Host σ) :
    (recordEntries l).on h
      = (.ok (OrderedMap.gatherBindings Tree.record l h.store).1,
          overwritten h (OrderedMap.gatherBindings Tree.record l h.store).1
            (OrderedMap.gatherBindings Tree.record l h.store).2) := by
  induction l generalizing h with
  | nil => rfl
  | cons b rest ih =>
      obtain ⟨p, e⟩ := b
      rw [recordEntries, on_bind_of_ok (on_recordEntry p e h), on_bind_of_ok (ih _), on_pure]
      simp [OrderedMap.gatherBindings, overwritten, List.foldl_append]

/-- Whatever the store answers, a commit records exactly the files. -/
theorem keys_gather_record (t : Tree) (store : σ) :
    (t.entries.gather Tree.record store).1.keys = t.paths := by
  have hkeep : ∀ (s : σ) (p : Path) (e : Entry), (Tree.record s p e).1.isSome = e.isLive := by
    intro s p e
    cases e <;> rfl
  exact OrderedMap.keys_gather hkeep t.entries store

/-- Once the entries are overwritten and the markers dropped, the tree is that of the snapshot. -/
theorem prune_overwritten (t : Tree) {recorded : OrderedMap Path Digest}
    (hkeys : recorded.keys = t.paths) :
    (recorded.toList.foldl (fun m b => m.insert b.1 (.committed b.2)) t.entries).filterMapWithKey
        (fun _ e => if e.isLive then some e else none)
      = (Tree.ofSnapshot ⟨recorded⟩).entries := by
  have hfold : recorded.toList.foldl (fun m b => m.insert b.1 (.committed b.2)) t.entries
      = (recorded.mapWithKey fun _ d => Entry.committed d).toList.foldl
          (fun m b => m.insert b.1 b.2) t.entries := by
    rw [OrderedMap.mapWithKey, List.foldl_map]
  refine OrderedMap.ext_get? fun p => ?_
  rw [hfold, OrderedMap.get?_filterMapWithKey, OrderedMap.get?_foldl_insert_toList,
    OrderedMap.get?_mapWithKey, Tree.ofSnapshot, OrderedMap.get?_mapWithKey]
  cases hp : recorded.get? p with
  | some d => rfl
  | none =>
      have hdead : t.isLive p = false := by
        have hmem : p ∉ t.paths := hkeys ▸ OrderedMap.get?_eq_none_iff.mp hp
        rw [Tree.mem_paths_iff] at hmem
        exact Bool.eq_false_iff.mpr hmem
      rw [Tree.isLive_eq_any] at hdead
      show (t.lookup p).bind _ = none
      cases he : t.lookup p with
      | none => rfl
      | some e =>
          have hlive : e.isLive = false := by simpa [he] using hdead
          simp [hlive]

/-- **A commit in place.**  It ends where a commit at once ends, and a commit in place that fails
has changed nothing. -/
theorem on_commit (h : Host σ) : (commit : InPlace σ Unit).on h = h.change .commit := by
  have hcheck : (checkEntries h.repository.tree.entries.toList).on h
      = (h.repository.tree.committed.verify h.store, h) :=
    on_checkEntries _ h
  have hchange : h.change .commit
      = match h.repository.tree.committed.verify h.store with
        | .error f => (.error f, h)
        | .ok () =>
          let c := h.repository.tree.recorded h.store
          (.ok (), { repository := { h.repository with tree := c.tree, head := c.snapshot }
                     store := c.store }) := by
    simp only [Host.change, Repository.commit, Tree.commit_eq_map]
    cases h.repository.tree.committed.verify h.store <;> rfl
  rw [commit, on_bind_of_ok (on_get h), hchange]
  cases hv : h.repository.tree.committed.verify h.store with
  | error f =>
      rw [hv] at hcheck
      exact on_bind_of_error hcheck
  | ok u =>
      rw [hv] at hcheck
      rw [on_bind_of_ok hcheck, on_bind_of_ok (on_recordEntries _ h), prune,
        on_bind_of_ok (on_modify _ _), on_modify]
      have hkeys := keys_gather_record h.repository.tree h.store
      have hprune := prune_overwritten h.repository.tree hkeys
      have hhead : Snapshot.ofList (h.repository.tree.entries.gather Tree.record h.store).1.toList
          = ⟨(h.repository.tree.entries.gather Tree.record h.store).1⟩ :=
        congrArg Snapshot.mk (OrderedMap.ofList_toList _)
      simp only [OrderedMap.gather] at hprune hhead
      simp only [overwritten, hprune, hhead, Tree.recorded, OrderedMap.gather]

/-- Moving a file in place ends where moving it at once ends. -/
theorem on_rename (source target : String) (h : Host σ) :
    (change (.rename source target)).on h = h.change (.rename source target) := by
  simp only [change, rename, Host.change, Repository.rename, Tree.rename,
    on_bind_of_ok (on_get h)]
  cases h.repository.tree.file? (.ofString source) with
  | none => rfl
  | some e =>
      by_cases hsame : Path.ofString source = Path.ofString target
      · simp only [if_pos hsame]
        rfl
      · simp only [if_neg hsame]
        rfl

/-- **Changes in place are changes at once.** -/
theorem on_change (c : Change) (h : Host σ) : (change c).on h = h.change c := by
  cases c with
  | write path content => rfl
  | remove path => rfl
  | rename source target => exact on_rename source target h
  | commit => exact on_commit h

end InPlace

end Worktree
