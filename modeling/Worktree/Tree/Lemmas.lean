import Worktree.OrderedMap.Lemmas
import Worktree.Tree

/-!
# What working trees know

A tree is seen through `lookup`.  These lemmas say what each operation does to it, and what the
snapshots made from a tree record of a path.
-/

namespace Worktree

theorem Snapshot.ext_lookup {s u : Snapshot} (h : ∀ p, s.lookup p = u.lookup p) : s = u := by
  cases s
  cases u
  exact congrArg Snapshot.mk (OrderedMap.ext_get? h)

theorem Entry.isSome_digest? (e : Entry) : e.digest?.isSome = e.isLive := by
  cases e <;> rfl

namespace Tree

theorem ext_lookup {t u : Tree} (h : ∀ p, t.lookup p = u.lookup p) : t = u := by
  cases t
  cases u
  exact congrArg Tree.mk (OrderedMap.ext_get? h)

/-- There is a file exactly when the tree has an entry other than a marker. -/
theorem isLive_eq_any (t : Tree) (p : Path) : t.isLive p = (t.lookup p).any Entry.isLive := by
  rw [isLive, file?, Option.isSome_filter]

/-- What is known of a file is its entry. -/
theorem file?_eq_lookup {t : Tree} {p : Path} (h : t.isLive p = true) : t.file? p = t.lookup p := by
  obtain ⟨e, he⟩ := Option.isSome_iff_exists.mp h
  rw [he, (Option.filter_eq_some_iff.mp he).1]

/-! ## Changes -/

theorem lookup_write (t : Tree) (p q : Path) (content : ByteArray) :
    (t.write p content).lookup q = if q = p then some (.written content) else t.lookup q :=
  OrderedMap.get?_insert t.entries q p (.written content)

theorem lookup_remove (t : Tree) (p q : Path) :
    (t.remove p).lookup q = if q = p then some .removed else t.lookup q :=
  OrderedMap.get?_insert t.entries q p .removed

/-- Moving a file fails exactly when there is none, and then names its path. -/
theorem rename_eq_error_iff {t : Tree} {source target : Path} {f : Fault} :
    t.rename source target = .error f ↔ t.isLive source = false ∧ f = .notFound source := by
  unfold rename isLive
  cases t.file? source with
  | none => simp [eq_comm]
  | some e => by_cases h : source = target <;> simp [h]

/-- A file can be moved to any name. -/
theorem exists_rename {t : Tree} {source : Path} (h : t.isLive source = true) (target : Path) :
    ∃ u, t.rename source target = .ok u := by
  cases hu : t.rename source target with
  | ok u => exact ⟨u, rfl⟩
  | error f =>
      have hdead := (rename_eq_error_iff.mp hu).1
      rw [h] at hdead
      exact absurd hdead (by decide)

theorem isLive_of_rename {t u : Tree} {source target : Path}
    (h : t.rename source target = .ok u) : t.isLive source = true := by
  cases hlive : t.isLive source with
  | true => rfl
  | false =>
      have hfails : t.rename source target = .error (.notFound source) :=
        rename_eq_error_iff.mpr ⟨hlive, rfl⟩
      rw [h] at hfails
      exact absurd hfails nofun

/-- Moving a file to its own name does nothing. -/
theorem rename_self {t : Tree} {p : Path} (h : t.isLive p = true) : t.rename p p = .ok t := by
  obtain ⟨e, he⟩ := Option.isSome_iff_exists.mp h
  simp only [rename, he, if_true]

/-- What is known after a file was moved: its entry is at the new name, and a marker at the old
one. -/
theorem lookup_rename {t u : Tree} {source target : Path} (h : t.rename source target = .ok u)
    (hne : source ≠ target) (p : Path) :
    u.lookup p
      = if p = target then t.file? source
        else if p = source then some .removed
        else t.lookup p := by
  unfold rename at h
  cases he : t.file? source with
  | none => simp [he] at h
  | some e =>
      simp only [he, if_neg hne, Except.ok.injEq] at h
      subst h
      unfold lookup
      rw [OrderedMap.get?_insert, OrderedMap.get?_insert]

theorem lookup_rename_of_ne {t u : Tree} {source target p : Path}
    (h : t.rename source target = .ok u) (hsource : p ≠ source) (htarget : p ≠ target) :
    u.lookup p = t.lookup p := by
  by_cases hsame : source = target
  · subst hsame
    rw [rename_self (isLive_of_rename h)] at h
    rw [Except.ok.inj h]
  · rw [lookup_rename h hsame, if_neg htarget, if_neg hsource]

/-! ## Objects -/

section Objects

variable {σ : Type} [ObjectStore σ]

theorem fetch_eq_error_iff {store : σ} {p : Path} {d : Digest} {f : Fault} :
    fetch store p d = .error f ↔
      f = .corrupt p d ∧ ∃ g, ObjectStore.get store d = .error g := by
  unfold fetch
  cases ObjectStore.get store d <;> simp [eq_comm]

theorem fetch_eq_ok_iff {store : σ} {p : Path} {d : Digest} {content : ByteArray} :
    fetch store p d = .ok content ↔ ObjectStore.get store d = .ok content := by
  unfold fetch
  cases ObjectStore.get store d <;> simp

end Objects

/-! ## Snapshots of a tree -/

theorem lookup_ofSnapshot (s : Snapshot) (p : Path) :
    (ofSnapshot s).lookup p = (s.lookup p).map .committed :=
  OrderedMap.get?_mapWithKey s.entries _ p

theorem lookup_committed (t : Tree) (p : Path) :
    t.committed.lookup p = (t.lookup p).bind Entry.committed? :=
  OrderedMap.get?_filterMapWithKey t.entries _ p

theorem lookup_digests (t : Tree) (p : Path) :
    t.digests.lookup p = (t.lookup p).bind Entry.digest? :=
  OrderedMap.get?_filterMapWithKey t.entries _ p

theorem lookup_committed_eq_some_iff {t : Tree} {p : Path} {d : Digest} :
    t.committed.lookup p = some d ↔ t.lookup p = some (.committed d) := by
  rw [lookup_committed, Option.bind_eq_some_iff]
  constructor
  · rintro ⟨e, he, hd⟩
    cases e with
    | removed => exact absurd hd nofun
    | written c => exact absurd hd nofun
    | committed d' => rw [he, ← Option.some.inj hd]
  · exact fun h => ⟨.committed d, h, rfl⟩

/-- A path has a digest exactly when there is a file of this name. -/
theorem isSome_lookup_digests (t : Tree) (p : Path) :
    (t.digests.lookup p).isSome = t.isLive p := by
  rw [lookup_digests, isLive_eq_any]
  cases t.lookup p with
  | none => rfl
  | some e => exact e.isSome_digest?

/-- The files are the paths that have a digest. -/
theorem paths_eq_paths_digests (t : Tree) : t.paths = t.digests.paths := by
  show (t.entries.toList.filter fun b => b.2.isLive).map (·.1)
    = (t.entries.toList.filterMap (OrderedMap.keepBinding fun _ e => e.digest?)).map (·.1)
  induction t.entries.toList with
  | nil => rfl
  | cons b rest ih =>
      have hlive := b.2.isSome_digest?
      cases hd : b.2.digest? with
      | none =>
          have hb : b.2.isLive = false := by simp [← hlive, hd]
          simpa [OrderedMap.keepBinding, hd, hb] using ih
      | some d =>
          have hb : b.2.isLive = true := by simp [← hlive, hd]
          simpa [OrderedMap.keepBinding, hd, hb] using ih

theorem mem_paths_iff {t : Tree} {p : Path} : p ∈ t.paths ↔ t.isLive p = true := by
  rw [paths_eq_paths_digests, ← isSome_lookup_digests]
  exact OrderedMap.mem_keys_iff

@[simp] theorem digests_ofSnapshot (s : Snapshot) : (ofSnapshot s).digests = s := by
  refine Snapshot.ext_lookup fun p => ?_
  rw [lookup_digests, lookup_ofSnapshot]
  cases s.lookup p <;> rfl

@[simp] theorem committed_ofSnapshot (s : Snapshot) : (ofSnapshot s).committed = s := by
  refine Snapshot.ext_lookup fun p => ?_
  rw [lookup_committed, lookup_ofSnapshot]
  cases s.lookup p <;> rfl

end Tree

end Worktree
