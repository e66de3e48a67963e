import Worktree.Proofs.Markers

/-!
# Moving a file, and moving it back

Moving a file touches two paths.  What the tree knew of the file is known at the new name, whether
it is a content or the digest of an object that the store has lost; a marker is left at the old
name; and all other paths keep what they had.

A file moved to a free name can be moved back.  The tree is then not quite what it was, for at the
free name there is a marker now.  Markers cannot be seen, so nothing that the tree is asked shows
that the file was ever away.

* `Tree.lookup_rename_source` and `Tree.lookup_rename_target` are what one move does;
* `Tree.exists_rename_back` is the way back: it leaves a marker and nothing else;
* `Tree.AnsweredAlike` says what a tree is asked, and `moving_back_undoes_moving` puts it together.
-/

namespace Worktree

namespace Tree

variable {t u : Tree} {p source target : Path}

/-! ## One move -/

theorem lookup_rename_source (h : t.rename source target = .ok u) (hne : source ≠ target) :
    u.lookup source = some .removed := by
  rw [lookup_rename h hne, if_neg hne, if_pos rfl]

/-- The entry moves as it is. -/
theorem lookup_rename_target (h : t.rename source target = .ok u) (hne : source ≠ target) :
    u.lookup target = t.lookup source := by
  rw [lookup_rename h hne, if_pos rfl, file?_eq_lookup (isLive_of_rename h)]

/-! ## There and back -/

/-- A file that was moved is there. -/
theorem isLive_rename_target (h : t.rename source target = .ok u) (hne : source ≠ target) :
    u.isLive target = true := by
  have hlive := isLive_of_rename h
  rw [isLive_eq_any] at hlive ⊢
  rw [lookup_rename_target h hne, hlive]

/-- **The way back.**  It succeeds, and leaves a marker at the name that the file had meanwhile. -/
theorem exists_rename_back (h : t.rename source target = .ok u) (hne : source ≠ target) :
    ∃ v, u.rename target source = .ok v ∧
      ∀ p, v.lookup p = if p = target then some .removed else t.lookup p := by
  obtain ⟨v, hv⟩ := exists_rename (isLive_rename_target h hne) source
  refine ⟨v, hv, ?_⟩
  intro p
  by_cases htarget : p = target
  · rw [htarget, if_pos rfl, lookup_rename_source hv hne.symm]
  rw [if_neg htarget]
  by_cases hsource : p = source
  · rw [hsource, lookup_rename_target hv hne.symm, lookup_rename_target h hne]
  · rw [lookup_rename_of_ne hv htarget hsource, lookup_rename_of_ne h hsource htarget]

/-- A marker where there was no file makes a tree that is the same but for markers. -/
theorem sameButMarkers_of_marker {v : Tree} (hfree : t.isLive target = false)
    (hv : ∀ p, v.lookup p = if p = target then some .removed else t.lookup p) :
    v.SameButMarkers t := by
  intro p
  rw [hv p]
  by_cases hp : p = target
  · rw [if_pos hp, hp]
    have hfile : t.file? target = none := by simpa [isLive] using hfree
    rcases file?_eq_none_iff.mp hfile with hnone | hmarker
    · exact .inr (.inl ⟨rfl, hnone⟩)
    · exact .inl hmarker.symm
  · rw [if_neg hp]
    exact .inl rfl

/-! ## What a tree is asked -/

section Objects

variable {σ : Type} [ObjectStore σ]

/-- Whatever the trees are asked on a store, they answer the same.  A commit tells the snapshot, the
tree and the store that it leaves, or why it leaves everything as it is. -/
structure AnsweredAlike (store : σ) (t u : Tree) : Prop where
  isLive : ∀ p, t.isLive p = u.isLive p
  read : ∀ p, t.read store p = u.read store p
  readText : ∀ p, t.readText store p = u.readText store p
  paths : t.paths = u.paths
  size : t.size = u.size
  report : ∀ o s, t.report o store s = u.report o store s
  commit : t.commit store = u.commit store

/-- Trees are answered alike when they differ in markers only. -/
theorem SameButMarkers.answeredAlike (h : t.SameButMarkers u) (store : σ) :
    t.AnsweredAlike store u := by
  have hpruned : t.pruned = u.pruned := sameButMarkers_iff.mp h
  have hpaths : t.paths = u.paths := by rw [← paths_pruned, hpruned, paths_pruned]
  constructor
  · intro p
    rw [← isLive_pruned, hpruned, isLive_pruned]
  · intro p
    rw [← read_pruned, hpruned, read_pruned]
  · intro p
    rw [← readText_pruned, hpruned, readText_pruned]
  · exact hpaths
  · exact congrArg List.length hpaths
  · intro o s
    rw [← report_pruned, hpruned, report_pruned]
  · rw [← commit_pruned, hpruned, commit_pruned]

end Objects

end Tree

/-- **Moving a file back undoes moving it.**  A file can be moved to any name, over any store.  If
the name is another spelling of its own, nothing changes; otherwise there is a marker at the old
name, the new name has exactly the entry that the old one had, and every other path keeps its entry.
If there was no file at the new name, moving the file back succeeds as well.  Then the tree answers
all that it is asked as it did before, and it goes on so whatever is done with it. -/
theorem moving_back_undoes_moving {σ : Type} [ObjectStore σ] (store : σ) {t : Tree}
    {source : String} (h : t.isLive (.ofString source) = true) (target : String) :
    ∃ u, t.rename (.ofString source) (.ofString target) = .ok u ∧
      (Path.normalize source = Path.normalize target → u = t) ∧
      (Path.normalize source ≠ Path.normalize target →
        u.lookup (.ofString source) = some .removed ∧
        u.lookup (.ofString target) = t.lookup (.ofString source) ∧
        ∀ p, Path.normalize p ≠ Path.normalize source → Path.normalize p ≠ Path.normalize target →
          u.lookup (.ofString p) = t.lookup (.ofString p)) ∧
      (t.isLive (.ofString target) = false →
        ∃ v, u.rename (.ofString target) (.ofString source) = .ok v ∧ v.AnsweredAlike store t ∧
          ∀ operations : List Checkout.Operation,
            (⟨v, store⟩ : Checkout σ).outcomes operations
              = (⟨t, store⟩ : Checkout σ).outcomes operations) := by
  obtain ⟨u, hu⟩ := Tree.exists_rename h (.ofString target)
  refine ⟨u, hu, ?_, ?_, ?_⟩
  · intro hsame
    rw [← Path.ofString_eq_iff.mpr hsame, Tree.rename_self h] at hu
    exact (Except.ok.inj hu).symm
  · intro hne
    have hother : Path.ofString source ≠ .ofString target := mt Path.ofString_eq_iff.mp hne
    refine ⟨Tree.lookup_rename_source hu hother, Tree.lookup_rename_target hu hother, ?_⟩
    intro p hsource htarget
    exact Tree.lookup_rename_of_ne hu (mt Path.ofString_eq_iff.mp hsource)
      (mt Path.ofString_eq_iff.mp htarget)
  · intro hfree
    have hother : Path.ofString source ≠ .ofString target := by
      intro hsame
      rw [hsame, hfree] at h
      exact absurd h (by decide)
    obtain ⟨v, hv, hlookup⟩ := Tree.exists_rename_back hu hother
    have hmarkers : v.SameButMarkers t := Tree.sameButMarkers_of_marker hfree hlookup
    have hcheckouts : Checkout.SameButMarkers ⟨v, store⟩ ⟨t, store⟩ := ⟨hmarkers, rfl⟩
    exact ⟨v, hv, hmarkers.answeredAlike store, fun operations => (hcheckouts.run operations).1⟩

/-- A committed file whose object is lost goes to a name where another file was removed, and comes
back.  It keeps its digest all the time, and a commit fails for it before and after. -/
theorem moving_back_undoes_moving_of_lost_file :
    let a : ByteArray := ⟨#[97]⟩
    let store := DamagedStore.empty.setDamage (.ofContent a) ⟨true, true⟩
    let t : Tree := ⟨.ofList [(.ofString "d/x", .committed (.ofContent a)),
      (.ofString "y", .removed), (.ofString "z", .written a)]⟩
    t.isLive (.ofString "d/./x") = true ∧ t.isLive (.ofString "d/../y") = false ∧
      ∃ u v, t.rename (.ofString "d/./x") (.ofString "d/../y") = .ok u ∧
        u.lookup (.ofString "d/../y") = some (.committed (.ofContent a)) ∧
        u.rename (.ofString "d/../y") (.ofString "d/./x") = .ok v ∧ v.AnsweredAlike store t ∧
        v.commit store = .error (.corrupt (.ofString "d/x") (.ofContent a)) := by
  intro a store t
  have hlive : t.isLive (.ofString "d/./x") = true := by decide +kernel
  have hfree : t.isLive (.ofString "d/../y") = false := by decide +kernel
  have hne : Path.normalize "d/./x" ≠ Path.normalize "d/../y" := by decide +kernel
  obtain ⟨u, hu, -, hmoved, hback⟩ := moving_back_undoes_moving store hlive "d/../y"
  obtain ⟨v, hv, halike, -⟩ := hback hfree
  have hentry : t.lookup (.ofString "d/./x") = some (.committed (.ofContent a)) := by
    decide +kernel
  have hcommit : t.commit store = .error (.corrupt (.ofString "d/x") (.ofContent a)) := by
    have hverify : t.committed.verify store
        = .error (.corrupt (.ofString "d/x") (.ofContent a)) := by
      decide +kernel
    rw [Tree.commit_eq_map, hverify]
    rfl
  exact ⟨hlive, hfree, u, v, hu, (hmoved hne).2.1.trans hentry, hv, halike,
    halike.commit.trans hcommit⟩

end Worktree
