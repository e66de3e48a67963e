import Worktree.Repository
import Worktree.Tree.Lemmas

/-!
# The first missing object

A snapshot names objects that a store may have lost.  Four operations look for such an object before
they do anything else: checking a snapshot, loading one, committing a tree and reporting on it.
They all fail in the same way, which `FailsAtFirst` says once: they fail exactly when an object is
missing, and then they name the first path, in byte order, whose object is missing.

* `failsAtFirst_verify` is the law of the check itself;
* `FailsAtFirst.map` carries it to whatever is done after the check and cannot fail;
* `failsAtFirst_load`, `failsAtFirst_commit` and `failsAtFirst_report` are the laws of the
  operations that begin with the check.
-/

namespace Worktree

theorem map_eq_error_iff {ε α β : Type} {result : Except ε α} {g : α → β} {e : ε} :
    result.map g = .error e ↔ result = .error e := by
  cases result <;> simp [Except.map]

theorem map_eq_ok_iff {ε α β : Type} {result : Except ε α} {g : α → β} {b : β} :
    result.map g = .ok b ↔ ∃ a, result = .ok a ∧ g a = b := by
  cases result <;> simp [Except.map]

/-- A computation that fails exactly when the object of some path is missing, and that then names
the first such path in byte order, with its digest. -/
structure FailsAtFirst {α : Type} (missing : Path → Digest → Prop) (result : Except Fault α) :
    Prop where
  fails_iff : (∃ f, result = .error f) ↔ ∃ p d, missing p d
  names_first : ∀ f, result = .error f → ∃ p d, f = .corrupt p d ∧ missing p d ∧
    ∀ q e, missing q e → Text.precedes p.text q.text = true

namespace FailsAtFirst

variable {α β : Type} {missing : Path → Digest → Prop}

/-- What cannot fail may follow. -/
theorem map {result : Except Fault α} (h : FailsAtFirst missing result) (g : α → β) :
    FailsAtFirst missing (result.map g) := by
  constructor
  · rw [← h.fails_iff]
    exact exists_congr fun _ => map_eq_error_iff
  · exact fun f hf => h.names_first f (map_eq_error_iff.mp hf)

/-- The law depends on what is missing only. -/
theorem congr {other : Path → Digest → Prop} {result : Except Fault α}
    (h : FailsAtFirst missing result) (hm : ∀ p d, missing p d ↔ other p d) :
    FailsAtFirst other result := by
  have heq : missing = other := funext fun p => funext fun d => propext (hm p d)
  exact heq ▸ h

theorem exists_ok {result : Except Fault α} (h : FailsAtFirst missing result)
    (hnone : ∀ p d, ¬ missing p d) : ∃ a, result = .ok a := by
  cases hr : result with
  | ok a => exact ⟨a, rfl⟩
  | error f =>
      obtain ⟨p, d, hpd⟩ := h.fails_iff.mp ⟨f, hr⟩
      exact absurd hpd (hnone p d)

theorem not_missing {result : Except Fault α} (h : FailsAtFirst missing result) {a : α}
    (hr : result = .ok a) (p : Path) (d : Digest) : ¬ missing p d := by
  intro hpd
  obtain ⟨f, hf⟩ := h.fails_iff.mpr ⟨p, d, hpd⟩
  rw [hr] at hf
  exact absurd hf (by simp)

/-- A check that found everything lets through exactly what follows it. -/
theorem map_eq_ok_iff {check : Except Fault Unit} (h : FailsAtFirst missing check)
    {g : Unit → α} {a : α} :
    check.map g = .ok a ↔ (∀ p d, ¬ missing p d) ∧ g () = a := by
  constructor
  · intro hmap
    cases hc : check with
    | error f => simp [hc, Except.map] at hmap
    | ok u => exact ⟨h.not_missing hc, by simpa [hc, Except.map] using hmap⟩
  · intro hall
    obtain ⟨u, hu⟩ := h.exists_ok hall.1
    rw [hu, ← hall.2]
    rfl

/-- The fault is never about an object alone. -/
theorem ne_objectNotFound {result : Except Fault α} (h : FailsAtFirst missing result)
    (d : Digest) : result ≠ .error (.objectNotFound d) := by
  intro hr
  obtain ⟨p, e, heq, -⟩ := h.names_first _ hr
  exact absurd heq (by simp)

end FailsAtFirst

variable {σ : Type} [ObjectStore σ]

/-- The snapshot names an object for the path that the store does not answer for. -/
def Snapshot.Missing (s : Snapshot) (store : σ) (p : Path) (d : Digest) : Prop :=
  s.lookup p = some d ∧ ObjectStore.contains store d = false

/-- The tree has a committed entry at the path whose object the store does not answer for. -/
def Tree.Missing (t : Tree) (store : σ) (p : Path) (d : Digest) : Prop :=
  t.lookup p = some (.committed d) ∧ ObjectStore.contains store d = false

theorem Tree.missing_committed_iff (t : Tree) (store : σ) (p : Path) (d : Digest) :
    t.committed.Missing store p d ↔ t.Missing store p d :=
  and_congr_left fun _ => lookup_committed_eq_some_iff

/-- Nothing is missing exactly when the store answers for every digest. -/
theorem Snapshot.not_missing_iff {s : Snapshot} {store : σ} :
    (∀ p d, ¬ s.Missing store p d) ↔
      ∀ p d, s.lookup p = some d → ObjectStore.contains store d = true := by
  simp only [Missing, not_and, Bool.not_eq_false]

theorem Tree.not_missing_iff {t : Tree} {store : σ} :
    (∀ p d, ¬ t.Missing store p d) ↔
      ∀ p d, t.lookup p = some (.committed d) → ObjectStore.contains store d = true := by
  simp only [Missing, not_and, Bool.not_eq_false]

/-- The tree of a snapshot misses what the snapshot misses. -/
theorem Tree.not_missing_ofSnapshot {s : Snapshot} {store : σ}
    (hfound : ∀ p d, ¬ s.Missing store p d) : ∀ p d, ¬ (ofSnapshot s).Missing store p d := by
  intro p d
  rw [← missing_committed_iff, committed_ofSnapshot]
  exact hfound p d

/-- **The check.**  It fails exactly when an object is missing, and names the first path. -/
theorem failsAtFirst_verify (s : Snapshot) (store : σ) :
    FailsAtFirst (s.Missing store) (s.verify store) := by
  unfold Snapshot.verify
  cases hfind : s.entries.find? fun _ d => !ObjectStore.contains store d with
  | none =>
      have hnone := OrderedMap.find?_eq_none_iff.mp hfind
      constructor
      · constructor
        · intro h
          obtain ⟨f, hf⟩ := h
          exact absurd hf (by simp)
        · intro h
          obtain ⟨p, d, hp, hd⟩ := h
          have hcontains := hnone p d hp
          rw [hd] at hcontains
          exact absurd hcontains (by decide)
      · intro f hf
        exact absurd hf (by simp)
  | some b =>
      obtain ⟨p, d⟩ := b
      obtain ⟨hp, hd, hleast⟩ := OrderedMap.find?_eq_some_iff.mp hfind
      have hmissing : s.Missing store p d := ⟨hp, by simpa using hd⟩
      constructor
      · exact ⟨fun _ => ⟨p, d, hmissing⟩, fun _ => ⟨.corrupt p d, rfl⟩⟩
      · intro f hf
        refine ⟨p, d, (Except.error.inj hf).symm, hmissing, ?_⟩
        intro q e hqe
        exact hleast q e hqe.1 (by simp [hqe.2])

/-! ## Operations that begin with the check -/

theorem Tree.load_eq_map (s : Snapshot) (store : σ) :
    Tree.load store s = (s.verify store).map fun _ => ofSnapshot s := by
  unfold Tree.load
  cases s.verify store <;> rfl

theorem Repository.load_eq_map (s : Snapshot) (store : σ) :
    Repository.load store s
      = (s.verify store).map fun _ => { tree := .ofSnapshot s, head := s, options := {} } := by
  unfold Repository.load
  rw [Tree.load_eq_map]
  cases s.verify store <;> rfl

/-- What a commit leaves behind once it has found everything. -/
def Tree.recorded (store : σ) (t : Tree) : Commit σ :=
  let walked := t.entries.gather record store
  { snapshot := ⟨walked.1⟩, tree := ofSnapshot ⟨walked.1⟩, store := walked.2 }

theorem Tree.commit_eq_map (t : Tree) (store : σ) :
    t.commit store = (t.committed.verify store).map fun _ => t.recorded store := by
  unfold Tree.commit
  cases t.committed.verify store <;> rfl

theorem Tree.report_eq_map (t : Tree) (store : σ) (s : Snapshot) (o : ReportOptions) :
    t.report o store s = (t.committed.verify store).map fun _ => t.digests.difference o s := by
  unfold Tree.report
  cases t.committed.verify store <;> rfl

theorem failsAtFirst_load (s : Snapshot) (store : σ) :
    FailsAtFirst (s.Missing store) (Tree.load store s) :=
  Tree.load_eq_map s store ▸ (failsAtFirst_verify s store).map _

theorem failsAtFirst_open (s : Snapshot) (store : σ) :
    FailsAtFirst (s.Missing store) (Repository.load store s) :=
  Repository.load_eq_map s store ▸ (failsAtFirst_verify s store).map _

theorem failsAtFirst_verify_committed (t : Tree) (store : σ) :
    FailsAtFirst (t.Missing store) (t.committed.verify store) :=
  (failsAtFirst_verify t.committed store).congr (t.missing_committed_iff store)

theorem failsAtFirst_commit (t : Tree) (store : σ) :
    FailsAtFirst (t.Missing store) (t.commit store) :=
  t.commit_eq_map store ▸ (failsAtFirst_verify_committed t store).map _

theorem failsAtFirst_report (t : Tree) (store : σ) (s : Snapshot) (o : ReportOptions) :
    FailsAtFirst (t.Missing store) (t.report o store s) :=
  t.report_eq_map store s o ▸ (failsAtFirst_verify_committed t store).map _

/-- A snapshot is loaded, as its tree, exactly when none of its objects is missing. -/
theorem Tree.load_eq_ok_iff {s : Snapshot} {store : σ} {t : Tree} :
    Tree.load store s = .ok t ↔ (∀ p d, ¬ s.Missing store p d) ∧ ofSnapshot s = t := by
  rw [load_eq_map]
  exact (failsAtFirst_verify s store).map_eq_ok_iff

/-- A tree is committed, and recorded, exactly when none of its objects is missing. -/
theorem Tree.commit_eq_ok_iff {t : Tree} {store : σ} {c : Commit σ} :
    t.commit store = .ok c ↔ (∀ p d, ¬ t.Missing store p d) ∧ t.recorded store = c := by
  rw [commit_eq_map]
  exact (failsAtFirst_verify_committed t store).map_eq_ok_iff

/-- A tree is reported on, by its digests, exactly when none of its objects is missing. -/
theorem Tree.report_eq_ok_iff {t : Tree} {store : σ} {s : Snapshot} {o : ReportOptions}
    {r : Report} :
    t.report o store s = .ok r ↔
      (∀ p d, ¬ t.Missing store p d) ∧ t.digests.difference o s = r := by
  rw [report_eq_map]
  exact (failsAtFirst_verify_committed t store).map_eq_ok_iff

end Worktree
