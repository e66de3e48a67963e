import Worktree.Proofs.Comparison
import Worktree.Proofs.Storing

/-!
# What a commit leaves

A commit walks over the entries of a tree, puts what was written and keeps what was committed.  Over
a store that tells the digest of what it is given, all that comes out of the walk is known
beforehand: `Tree.recorded_eq` says that the snapshot holds the digests of the files, that the tree
is the tree of that snapshot, and that the store was given the written contents in path order.

`commit_leaves_exactly` is what follows for a store in memory.
-/

namespace Worktree

open ObjectStore (putAll)

/-- The content that an entry brings to the store. -/
def Entry.content? : Entry → Option ByteArray
  | .written content => some content
  | _ => none

namespace Tree

/-- The contents written since the last commit, in path order. -/
def contents (t : Tree) : List ByteArray :=
  t.entries.toList.filterMap fun b => b.2.content?

theorem mem_contents_iff {t : Tree} {c : ByteArray} :
    c ∈ t.contents ↔ ∃ p, t.lookup p = some (.written c) := by
  unfold contents
  rw [List.mem_filterMap]
  constructor
  · intro h
    obtain ⟨⟨p, e⟩, hmem, hc⟩ := h
    refine ⟨p, ?_⟩
    cases e with
    | removed => exact absurd hc nofun
    | written content =>
        obtain rfl := Option.some.inj hc
        exact OrderedMap.get?_eq_some_iff.mpr hmem
    | committed d => exact absurd hc nofun
  · intro h
    obtain ⟨p, hp⟩ := h
    exact ⟨(p, .written c), OrderedMap.get?_eq_some_iff.mp hp, rfl⟩

/-- A tree whose entries are all committed brings nothing. -/
theorem contents_ofSnapshot (s : Snapshot) : (ofSnapshot s).contents = [] := by
  apply List.eq_nil_iff_forall_not_mem.mpr
  intro c hc
  obtain ⟨p, hp⟩ := mem_contents_iff.mp hc
  rw [lookup_ofSnapshot] at hp
  cases hs : s.lookup p <;> simp [hs] at hp

section Recording

variable {σ : Type} [ObjectStore σ] [ContentAddressed σ]

theorem record_fst (store : σ) (p : Path) (e : Entry) : (record store p e).1 = e.digest? := by
  cases e with
  | removed => rfl
  | written content => exact congrArg some (ContentAddressed.fst_put store content)
  | committed d => rfl

omit [ContentAddressed σ] in
theorem foldl_record (l : List (Path × Entry)) (store : σ) :
    l.foldl (fun s b => (record s b.1 b.2).2) store
      = putAll store (l.filterMap fun b => b.2.content?) := by
  induction l generalizing store with
  | nil => rfl
  | cons b rest ih =>
      obtain ⟨p, e⟩ := b
      rw [List.foldl_cons, ih]
      cases e <;> rfl

/-- **The walk of a commit.**  The new snapshot holds the digest of every file, the new tree is its
tree, and the store was given the written contents in path order. -/
theorem recorded_eq (t : Tree) (store : σ) :
    t.recorded store
      = { snapshot := t.digests
          tree := ofSnapshot t.digests
          store := putAll store t.contents } := by
  have hdigests : (t.entries.gather record store).1 = t.digests.entries :=
    OrderedMap.gather_fst record_fst t.entries store
  have hstore : (t.entries.gather record store).2 = putAll store t.contents :=
    (OrderedMap.gather_snd record t.entries store).trans (foldl_record t.entries.toList store)
  simp only [recorded, hdigests, hstore]

end Recording

/-! ## Over a store in memory -/

section InMemory

variable {store : Store} {t : Tree}

theorem fetch_eq_ok {d : Digest} {c : ByteArray} (h : store.objects.get? d = some c) (p : Path) :
    fetch store p d = .ok c :=
  fetch_eq_ok_iff.mpr (Store.get_eq_ok_iff.mpr h)

/-- After the written contents were put, the object of every file is kept. -/
theorem contains_putAll_contents (hfound : ∀ p d, ¬ t.Missing store p d) {p : Path} {d : Digest}
    (h : t.WorkingDigest p d) : (putAll store t.contents).contains d = true := by
  rw [Store.contains_putAll]
  cases h with
  | written hw => exact .inr ⟨_, mem_contents_iff.mpr ⟨p, hw⟩, rfl⟩
  | committed hd => exact .inl (not_missing_iff.mp hfound p d hd)

/-- So the new snapshot misses nothing in the new store. -/
theorem not_missing_digests (hfound : ∀ p d, ¬ t.Missing store p d) :
    ∀ p d, ¬ t.digests.Missing (putAll store t.contents) p d := by
  apply Snapshot.not_missing_iff.mpr
  intro p d h
  exact contains_putAll_contents hfound (lookup_digests_eq_some_iff.mp h)

/-- Neither does the tree of the new snapshot. -/
theorem not_missing_ofSnapshot_digests (hfound : ∀ p d, ¬ t.Missing store p d) :
    ∀ p d, ¬ (ofSnapshot t.digests).Missing (putAll store t.contents) p d :=
  not_missing_ofSnapshot (not_missing_digests hfound)

/-- The contents that a tree on a store can give out. -/
def readable (store : Store) (t : Tree) : Set ByteArray :=
  {c | (∃ d, store.get d = .ok c) ∨ ∃ p, t.lookup p = some (.written c)}

/-- A content written comes back from the store, unless another content there has its digest. -/
theorem get?_putAll_contents (hstore : store.IsPut)
    (hinj : Set.InjOn Digest.ofContent (readable store t)) {p : Path} {content : ByteArray}
    (h : t.lookup p = some (.written content)) :
    (putAll store t.contents).objects.get? (.ofContent content) = some content := by
  have hmem : content ∈ t.contents := mem_contents_iff.mpr ⟨p, h⟩
  have hkept : (putAll store t.contents).contains (.ofContent content) = true :=
    (Store.contains_putAll store t.contents _).mpr (.inr ⟨content, hmem, rfl⟩)
  have hstored : ∀ d c, (putAll store t.contents).objects.get? d = some c →
      c ∈ readable store t := by
    intro d c hget
    rcases Store.eq_or_mem_of_get?_putAll hget with hold | ⟨hnew, -⟩
    · exact .inl ⟨d, Store.get_eq_ok_iff.mpr hold⟩
    · exact .inr (mem_contents_iff.mp hnew)
  exact Store.get?_ofContent (hstore.putAll t.contents) hinj hstored (.inr ⟨p, h⟩) hkept

/-- Reading gives the same before and after a commit. -/
theorem read_ofSnapshot_digests (hstore : store.IsPut)
    (hfound : ∀ p d, ¬ t.Missing store p d)
    (hinj : Set.InjOn Digest.ofContent (readable store t)) (p : Path) :
    (ofSnapshot t.digests).read (putAll store t.contents) p = t.read store p := by
  have hlookup : (ofSnapshot t.digests).lookup p
      = ((t.lookup p).bind Entry.digest?).map .committed := by
    rw [lookup_ofSnapshot, lookup_digests]
  unfold read
  cases ht : t.lookup p with
  | none => simp [hlookup, ht]
  | some e =>
      cases e with
      | removed => simp [hlookup, ht, Entry.digest?]
      | written content =>
          have hget := get?_putAll_contents hstore hinj ht
          simp [hlookup, ht, Entry.digest?, fetch_eq_ok hget]
      | committed d =>
          obtain ⟨c, hc⟩ := Store.contains_iff.mp (not_missing_iff.mp hfound p d ht)
          have hget := Store.get?_putAll_of_get? hc t.contents
          simp [hlookup, ht, Entry.digest?, fetch_eq_ok hc, fetch_eq_ok hget]

end InMemory

end Tree

/-- **What a commit leaves, exactly.**  Over a store in memory a commit that succeeds records every
file under its working digest and nothing else; it leaves the tree that loading the new snapshot
gives, with committed entries only; the store gains the digests of the written contents and keeps
every object; files read as before, unless two different contents have the same digest; a full
report finds every file unmodified; and committing again changes nothing. -/
theorem commit_leaves_exactly {store : Store} (hstore : store.IsPut) {t : Tree} {c : Commit Store}
    (hc : t.commit store = .ok c) :
    (∀ p d, c.snapshot.lookup p = some d ↔ t.WorkingDigest p d) ∧
    (∀ p, c.snapshot.contains p = t.isLive p) ∧
    (Tree.load c.store c.snapshot = .ok c.tree ∧
      ∀ p e, c.tree.lookup p = some e → ∃ d, e = .committed d) ∧
    ((∀ d, d ∈ c.store.digests ↔
        d ∈ store.digests ∨ ∃ p content, t.lookup p = some (.written content) ∧
          .ofContent content = d) ∧
      ∀ d content, store.get d = .ok content → c.store.get d = .ok content) ∧
    (Set.InjOn Digest.ofContent (Tree.readable store t) →
      ∀ p, c.tree.read c.store p = t.read store p) ∧
    ((∃ r, c.tree.report .full c.store c.snapshot = .ok r ∧
        r.lines = t.paths.map fun p => ⟨p.text, .unmodified⟩) ∧
      c.tree.commit c.store = .ok c) := by
  obtain ⟨hfound, rfl⟩ := Tree.commit_eq_ok_iff.mp hc
  rw [Tree.recorded_eq]
  have hagain := Tree.not_missing_ofSnapshot_digests hfound
  refine ⟨?_, ?_, ⟨?_, ?_⟩, ⟨?_, ?_⟩, ?_, ?_, ?_⟩
  · intro p d
    exact Tree.lookup_digests_eq_some_iff
  · intro p
    exact t.isSome_lookup_digests p
  · exact Tree.load_eq_ok_iff.mpr ⟨Tree.not_missing_digests hfound, rfl⟩
  · intro p e he
    rw [Tree.lookup_ofSnapshot] at he
    obtain ⟨d, -, hd⟩ := Option.map_eq_some_iff.mp he
    exact ⟨d, hd.symm⟩
  · intro d
    have hwritten : (∃ content ∈ t.contents, .ofContent content = d) ↔
        ∃ p content, t.lookup p = some (.written content) ∧ .ofContent content = d := by
      simp only [Tree.mem_contents_iff]
      grind
    rw [Store.mem_digests_iff, Store.mem_digests_iff, Store.contains_putAll, hwritten]
  · intro d content hget
    rw [Store.get_eq_ok_iff] at hget ⊢
    exact Store.get?_putAll_of_get? hget t.contents
  · intro hinj p
    exact Tree.read_ofSnapshot_digests hstore hfound hinj p
  · refine ⟨_, Tree.report_eq_ok_iff.mpr ⟨hagain, rfl⟩, ?_⟩
    rw [Tree.digests_ofSnapshot, Snapshot.lines_difference_self, Tree.paths_eq_paths_digests]
  · refine Tree.commit_eq_ok_iff.mpr ⟨hagain, ?_⟩
    rw [Tree.recorded_eq, Tree.digests_ofSnapshot, Tree.contents_ofSnapshot]
    rfl

/-- A tree with an entry of each kind on a store with one object. -/
theorem commit_leaves_exactly_of_each_kind :
    let store := putAll Store.empty [⟨#[97]⟩]
    let t : Tree := ⟨.ofList [(.ofString "gone", .removed), (.ofString "new", .written ⟨#[98]⟩),
      (.ofString "kept", .committed (.ofContent ⟨#[97]⟩))]⟩
    store.IsPut ∧ Set.InjOn Digest.ofContent (Tree.readable store t) ∧
      ∃ c, t.commit store = .ok c ∧ (∀ p, c.snapshot.contains p = t.isLive p) ∧
        (∀ p, c.tree.read c.store p = t.read store p) ∧ c.tree.commit c.store = .ok c := by
  intro store t
  have hstore : store.IsPut := ⟨_, rfl⟩
  have hentry : ∀ p e, t.lookup p = some e →
      e = .removed ∨ e = .written ⟨#[98]⟩ ∨ e = .committed (.ofContent ⟨#[97]⟩) := by
    intro p e he
    have hmem := List.mem_map_of_mem (f := Prod.snd) (OrderedMap.mem_of_get?_ofList he)
    simpa using hmem
  have hinj : Set.InjOn Digest.ofContent (Tree.readable store t) := by
    refine Digest.injOn_of_eq_or_eq (a := ⟨#[97]⟩) (b := ⟨#[98]⟩) ?_ (by decide +kernel)
    intro c hc
    rcases hc with ⟨d, hget⟩ | ⟨p, hp⟩
    · exact .inl (List.mem_singleton.mp (Store.mem_of_get_putAll_empty hget))
    · exact .inr (by simpa using hentry p _ hp)
  have hfound : ∀ p d, ¬ t.Missing store p d := by
    apply Tree.not_missing_iff.mpr
    intro p d hcommitted
    obtain rfl : d = .ofContent ⟨#[97]⟩ := by simpa using hentry p _ hcommitted
    exact (Store.contains_putAll Store.empty _ _).mpr (.inr ⟨_, List.mem_singleton_self _, rfl⟩)
  have hc : t.commit store = .ok (t.recorded store) := Tree.commit_eq_ok_iff.mpr ⟨hfound, rfl⟩
  obtain ⟨-, hcontains, -, -, hread, -, hagain⟩ := commit_leaves_exactly hstore hc
  exact ⟨hstore, hinj, _, hc, hcontains, hread hinj, hagain⟩

end Worktree
