import Worktree.Proofs.Committing
import Worktree.Proofs.Failing

/-!
# Owners of a growing store

Trees and repositories refer to objects of a store that they do not own.  What others do to the
store must not take anything away from them, and what they do themselves must not leave them with a
digest that the store does not have.

* `Store.Within` says that a store has all objects of another; a store that is only put into grows
  in this sense, and what could be found, read or loaded before stays as it was.
* `Tree.change` makes a change to a tree alone, `Owner.change` to a tree or a repository;
  `Tree.change_cases` says once all that a change can do.
* `Owner.Supplied` is the invariant of an owner: the store has every object that its tree and its
  head refer to.  `Owner.Supplied.change` and `Owner.Supplied.of_within` say that it outlasts the
  owner's own changes and the growth of the store.
-/

namespace Worktree

open ObjectStore (putAll)

/-! ## Stores that grow -/

/-- Every object of the first store is also in the second, and is the same there. -/
def Store.Within (s u : Store) : Prop :=
  ∀ d c, s.objects.get? d = some c → u.objects.get? d = some c

namespace Store.Within

variable {s u w : Store}

theorem refl (s : Store) : s.Within s :=
  fun _ _ h => h

theorem trans (h : s.Within u) (h' : u.Within w) : s.Within w :=
  fun d c hc => h' d c (h d c hc)

/-- A store that contents are put into grows. -/
theorem putAll (s : Store) (contents : List ByteArray) : s.Within (putAll s contents) :=
  fun _ _ h => Store.get?_putAll_of_get? h contents

theorem contains (h : s.Within u) {d : Digest} (hd : s.contains d = true) :
    u.contains d = true := by
  obtain ⟨c, hc⟩ := Store.contains_iff.mp hd
  exact Store.contains_iff.mpr ⟨c, h d c hc⟩

end Store.Within

section Growth

variable {s u : Store}

theorem Snapshot.not_missing_of_within (h : s.Within u) {snapshot : Snapshot}
    (hfound : ∀ p d, ¬ snapshot.Missing s p d) : ∀ p d, ¬ snapshot.Missing u p d := by
  apply Snapshot.not_missing_iff.mpr
  intro p d hp
  exact h.contains (Snapshot.not_missing_iff.mp hfound p d hp)

theorem Tree.not_missing_of_within (h : s.Within u) {t : Tree}
    (hfound : ∀ p d, ¬ t.Missing s p d) : ∀ p d, ¬ t.Missing u p d := by
  apply Tree.not_missing_iff.mpr
  intro p d hp
  exact h.contains (Tree.not_missing_iff.mp hfound p d hp)

/-- A tree that the store supplies reads the same when the store has grown. -/
theorem Tree.read_of_within (h : s.Within u) {t : Tree} (hfound : ∀ p d, ¬ t.Missing s p d)
    (p : Path) : t.read u p = t.read s p := by
  unfold read
  cases ht : t.lookup p with
  | none => rfl
  | some e =>
      cases e with
      | removed => rfl
      | written content => rfl
      | committed d =>
          obtain ⟨c, hc⟩ := Store.contains_iff.mp (Tree.not_missing_iff.mp hfound p d ht)
          exact (fetch_eq_ok (h d c hc) p).trans (fetch_eq_ok hc p).symm

/-- Such a tree never meets a corrupt object. -/
theorem Tree.eq_notFound_of_read_error {t : Tree} (hfound : ∀ p d, ¬ t.Missing s p d) {p : Path}
    {f : Fault} (hf : t.read s p = .error f) : f = .notFound p := by
  have hread := readsEntry_read s t p
  rcases hread.no_other f hf with hnotfound | ⟨d, rfl⟩
  · exact hnotfound
  · obtain ⟨hp, g, hg⟩ := (hread.corrupt_iff d).mp hf
    obtain ⟨c, hc⟩ := Store.contains_iff.mp (Tree.not_missing_iff.mp hfound p d hp)
    rw [show ObjectStore.get s d = .ok c from Store.get_eq_ok_iff.mpr hc] at hg
    exact absurd hg (by simp)

end Growth

/-- The head reads as its tree does. -/
theorem Repository.readHead_eq_read {σ : Type} [ObjectStore σ] (store : σ) (r : Repository)
    (p : Path) : r.readHead store p = (Tree.ofSnapshot r.head).read store p := by
  unfold readHead Tree.read
  rw [Tree.lookup_ofSnapshot]
  cases r.head.lookup p <;> rfl

/-! ## Changes to a tree -/

/-- What a change leaves: the changed thing, the store, and the snapshot that a commit records. -/
structure Changed (α σ : Type) where
  now : α
  store : σ
  recorded : Option Snapshot

section Changes

variable {σ : Type} [ObjectStore σ]

/-- Makes a change to a tree. -/
def Tree.change (store : σ) (t : Tree) : Change → Except Fault (Changed Tree σ)
  | .write path content => .ok ⟨t.write (.ofString path) content, store, none⟩
  | .remove path => .ok ⟨t.remove (.ofString path), store, none⟩
  | .rename source target =>
    (t.rename (.ofString source) (.ofString target)).map fun u => ⟨u, store, none⟩
  | .commit => (t.commit store).map fun c => ⟨c.tree, c.store, some c.snapshot⟩

/-- The entries of a changed tree are markers, what the change writes, and what was there. -/
def Tree.EntriesFrom (t : Tree) (c : Change) (u : Tree) : Prop :=
  ∀ p e, u.lookup p = some e →
    e = .removed ∨ (∃ path content, c = .write path content ∧ e = .written content) ∨
      ∃ q, t.lookup q = some e

omit [ObjectStore σ] in
theorem Tree.entriesFrom_rename {t u : Tree} {source target : Path} {c : Change}
    (h : t.rename source target = .ok u) : t.EntriesFrom c u := by
  intro p e he
  by_cases hsame : source = target
  · subst hsame
    rw [rename_self (isLive_of_rename h)] at h
    exact .inr (.inr ⟨p, Except.ok.inj h ▸ he⟩)
  · rw [Tree.lookup_rename h hsame] at he
    split at he
    · exact .inr (.inr ⟨source, (Option.filter_eq_some_iff.mp he).1⟩)
    · split at he
      · exact .inl (Option.some.inj he).symm
      · exact .inr (.inr ⟨p, he⟩)

/-- **All that a change can do.**  It is a commit, or it leaves the store alone, records nothing
and brings no entries but a marker and what it writes. -/
theorem Tree.change_cases {store : σ} {t : Tree} {c : Change} {x : Changed Tree σ}
    (h : t.change store c = .ok x) :
    (∃ k, c = .commit ∧ t.commit store = .ok k ∧ x = ⟨k.tree, k.store, some k.snapshot⟩) ∨
    (c ≠ .commit ∧ x.store = store ∧ x.recorded = none ∧ t.EntriesFrom c x.now) := by
  cases c with
  | write path content =>
      obtain rfl := Except.ok.inj h
      refine .inr ⟨by simp, rfl, rfl, ?_⟩
      intro p e he
      rw [lookup_write] at he
      split at he
      · exact .inr (.inl ⟨path, content, rfl, (Option.some.inj he).symm⟩)
      · exact .inr (.inr ⟨p, he⟩)
  | remove path =>
      obtain rfl := Except.ok.inj h
      refine .inr ⟨by simp, rfl, rfl, ?_⟩
      intro p e he
      rw [lookup_remove] at he
      split at he
      · exact .inl (Option.some.inj he).symm
      · exact .inr (.inr ⟨p, he⟩)
  | rename source target =>
      obtain ⟨u, hu, rfl⟩ := map_eq_ok_iff.mp h
      exact .inr ⟨by simp, rfl, rfl, entriesFrom_rename hu⟩
  | commit =>
      obtain ⟨k, hk, rfl⟩ := map_eq_ok_iff.mp h
      exact .inl ⟨k, rfl, hk, rfl⟩

/-- A repository is changed as its tree is, and what a commit records becomes its head. -/
theorem Host.change_eq (r : Repository) (store : σ) (c : Change) :
    (⟨r, store⟩ : Host σ).change c =
      match r.tree.change store c with
      | .ok x => (.ok (), ⟨{ r with tree := x.now, head := x.recorded.getD r.head }, x.store⟩)
      | .error f => (.error f, ⟨r, store⟩) := by
  cases c with
  | write path content => rfl
  | remove path => rfl
  | rename source target =>
      simp only [Host.change, Repository.rename, Tree.change]
      cases r.tree.rename (.ofString source) (.ofString target) <;> rfl
  | commit =>
      simp only [Host.change, Repository.commit_eq_map, Tree.change]
      cases r.tree.commit store <;> rfl

end Changes

/-! ## Changes by owners -/

/-- One who works on a store: with a tree alone, or with a repository. -/
inductive Owner where
  | tree (t : Tree)
  | repository (r : Repository)
  deriving DecidableEq

namespace Owner

/-- The tree that an owner works on. -/
def working : Owner → Tree
  | tree t => t
  | repository r => r.tree

/-- The head of a repository; a tree alone has none. -/
def head? : Owner → Option Snapshot
  | tree _ => none
  | repository r => some r.head

section Changes

variable {σ : Type} [ObjectStore σ]

/-- Makes a change to what an owner works on; the commit of a repository records its new head. -/
def change (store : σ) (c : Change) : Owner → Except Fault (Changed Owner σ)
  | tree t => (t.change store c).map fun x => ⟨tree x.now, x.store, x.recorded⟩
  | repository r =>
    match (⟨r, store⟩ : Host σ).change c with
    | (.ok (), h) =>
      .ok ⟨repository h.repository, h.store,
        match c with
        | .commit => some h.repository.head
        | _ => none⟩
    | (.error f, _) => .error f

/-- An owner with another tree, and with the head that was recorded, if it has a head. -/
def replace (o : Owner) (t : Tree) (recorded : Option Snapshot) : Owner :=
  match o with
  | tree _ => tree t
  | repository r => repository { r with tree := t, head := recorded.getD r.head }

/-- A repository changes as its tree does, and what a commit records becomes its head. -/
theorem change_eq_map (store : σ) (c : Change) (o : Owner) :
    o.change store c = (o.working.change store c).map fun x =>
      ⟨o.replace x.now x.recorded, x.store, x.recorded⟩ := by
  cases o with
  | tree t => rfl
  | repository r =>
      have hchange := Host.change_eq r store c
      cases hx : r.tree.change store c with
      | error f =>
          rw [hx] at hchange
          simp only [change, hchange, working, hx]
          rfl
      | ok x =>
          rw [hx] at hchange
          simp only [change, hchange, working, hx]
          -- The head tells what was recorded only if something was.
          rcases Tree.change_cases hx with ⟨k, rfl, -, rfl⟩ | ⟨hc, -, hnone, -⟩
          · rfl
          · have hrecorded : x.recorded = none := hnone
            cases c with
            | commit => exact absurd rfl hc
            | _ => simp [replace, hrecorded, Except.map]

/-- A change that succeeds is one of the owner's tree. -/
theorem change_eq_ok {store : σ} {c : Change} {o : Owner} {x : Changed Owner σ}
    (h : o.change store c = .ok x) :
    ∃ y, o.working.change store c = .ok y ∧
      x = ⟨o.replace y.now y.recorded, y.store, y.recorded⟩ := by
  rw [change_eq_map, map_eq_ok_iff] at h
  obtain ⟨y, hy, rfl⟩ := h
  exact ⟨y, hy, rfl⟩

end Changes

@[simp] theorem working_replace (o : Owner) (t : Tree) (recorded : Option Snapshot) :
    (o.replace t recorded).working = t := by
  cases o <;> rfl

/-- After a change the head is the old one or the one recorded. -/
theorem head?_replace {o : Owner} {t : Tree} {recorded : Option Snapshot} {s : Snapshot}
    (h : (o.replace t recorded).head? = some s) : o.head? = some s ∨ recorded = some s := by
  cases o with
  | tree _ => exact absurd h nofun
  | repository r =>
      cases recorded with
      | none => exact .inl h
      | some new => exact .inr h

end Owner

/-! ## Owners and what the store has for them -/

/-- The store has every object that the owner's tree and head refer to. -/
structure Owner.Supplied (store : Store) (o : Owner) : Prop where
  working : ∀ p d, o.working.lookup p = some (.committed d) → store.contains d = true
  head : ∀ s, o.head? = some s → ∀ p d, s.lookup p = some d → store.contains d = true

namespace Owner.Supplied

variable {store : Store} {o : Owner}

theorem not_missing (h : o.Supplied store) : ∀ p d, ¬ o.working.Missing store p d :=
  Tree.not_missing_iff.mpr h.working

theorem of_within (h : o.Supplied store) {store' : Store} (hstore : store.Within store') :
    o.Supplied store' where
  working p d hp := hstore.contains (h.working p d hp)
  head s hs p d hp := hstore.contains (h.head s hs p d hp)

end Owner.Supplied

/-- A change puts into the store what the tree had written, or nothing. -/
theorem Tree.store_of_change {store : Store} {t : Tree} {c : Change} {x : Changed Tree Store}
    (h : t.change store c = .ok x) :
    ∃ contents, contents ⊆ t.contents ∧ x.store = putAll store contents := by
  rcases Tree.change_cases h with ⟨k, -, hk, rfl⟩ | ⟨-, hstore, -, -⟩
  · obtain ⟨-, rfl⟩ := Tree.commit_eq_ok_iff.mp hk
    rw [Tree.recorded_eq]
    exact ⟨t.contents, List.Subset.refl _, rfl⟩
  · exact ⟨[], List.nil_subset _, hstore⟩

/-- What a commit records is all in the store that the commit leaves, and the tree is its tree. -/
theorem Tree.recorded_of_change {store : Store} {t : Tree} {c : Change} {x : Changed Tree Store}
    (h : t.change store c = .ok x) {s : Snapshot} (hs : x.recorded = some s) :
    (∀ p d, ¬ s.Missing x.store p d) ∧ x.now = ofSnapshot s := by
  rcases Tree.change_cases h with ⟨k, -, hk, rfl⟩ | ⟨-, -, hnone, -⟩
  · obtain ⟨hfound, rfl⟩ := Tree.commit_eq_ok_iff.mp hk
    obtain rfl := Option.some.inj hs
    rw [Tree.recorded_eq]
    exact ⟨Tree.not_missing_digests hfound, rfl⟩
  · rw [hnone] at hs
    exact absurd hs nofun

theorem Tree.not_missing_of_change {store : Store} {t : Tree} {c : Change}
    {x : Changed Tree Store} (h : t.change store c = .ok x)
    (hfound : ∀ p d, ¬ t.Missing store p d) : ∀ p d, ¬ x.now.Missing x.store p d := by
  rcases Tree.change_cases h with ⟨k, -, hk, rfl⟩ | ⟨-, hstore, -, hentries⟩
  · obtain ⟨-, rfl⟩ := Tree.commit_eq_ok_iff.mp hk
    rw [Tree.recorded_eq]
    exact Tree.not_missing_ofSnapshot_digests hfound
  · rw [hstore]
    apply Tree.not_missing_iff.mpr
    intro p d hp
    rcases hentries p _ hp with hremoved | ⟨_, _, -, hwritten⟩ | ⟨q, hq⟩
    · exact absurd hremoved (by simp)
    · exact absurd hwritten (by simp)
    · exact Tree.not_missing_iff.mp hfound q d hq

/-- **One change.**  An owner that the store supplies is supplied after each of its changes. -/
theorem Owner.Supplied.change {store : Store} {o : Owner} (h : o.Supplied store) {c : Change}
    {x : Changed Owner Store} (hx : o.change store c = .ok x) : x.now.Supplied x.store := by
  obtain ⟨y, hy, rfl⟩ := Owner.change_eq_ok hx
  obtain ⟨contents, -, hstore⟩ := Tree.store_of_change hy
  constructor
  · rw [Owner.working_replace]
    exact Tree.not_missing_iff.mp (Tree.not_missing_of_change hy h.not_missing)
  · intro s hs
    rcases Owner.head?_replace hs with hold | hnew
    · intro p d hp
      rw [hstore]
      exact (Store.Within.putAll store contents).contains (h.head s hold p d hp)
    · exact Snapshot.not_missing_iff.mp (Tree.recorded_of_change hy hnew).1

/-! ### Owners that begin -/

theorem Owner.supplied_tree_empty (store : Store) : (Owner.tree .empty).Supplied store where
  working _ _ hp := absurd hp nofun
  head _ hs := absurd hs nofun

theorem Owner.supplied_repository_empty (store : Store) :
    (Owner.repository .empty).Supplied store where
  working _ _ hp := absurd hp nofun
  head s hs p d hp := by
    obtain rfl := Option.some.inj hs
    exact absurd hp nofun

theorem Owner.supplied_of_load {store : Store} {s : Snapshot} {t : Tree}
    (h : Tree.load store s = .ok t) : (Owner.tree t).Supplied store where
  working := by
    obtain ⟨hfound, rfl⟩ := Tree.load_eq_ok_iff.mp h
    exact Tree.not_missing_iff.mp (Tree.not_missing_ofSnapshot hfound)
  head _ hs := absurd hs nofun

theorem Owner.supplied_of_open {store : Store} {s : Snapshot} {r : Repository}
    (h : Repository.load store s = .ok r) : (Owner.repository r).Supplied store := by
  rw [Repository.load_eq_map, (failsAtFirst_verify s store).map_eq_ok_iff] at h
  obtain ⟨hfound, rfl⟩ := h
  constructor
  · exact Tree.not_missing_iff.mp (Tree.not_missing_ofSnapshot hfound)
  · intro head hs
    obtain rfl := Option.some.inj hs
    exact Snapshot.not_missing_iff.mp hfound

end Worktree
