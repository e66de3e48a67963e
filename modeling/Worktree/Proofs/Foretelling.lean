import Worktree.Proofs.Committing
import Worktree.Proofs.Failing

/-!
# A report foretells the next commit

A report and a commit look at the same tree in two ways.  The report hashes what was written and
goes over the paths of tree and head together; the commit takes the digests that the store tells
and goes over the tree alone.  On a store that names contents by their digests they agree: either
both fail, with the same fault, or both succeed, and then the full report is the difference between
the head before the commit and the head after it.

* `Report.ListsDifference` says of a report, path by path, that it is the difference of two
  snapshots;
* `Snapshot.listsDifference_difference` and `Snapshot.lines_difference_eq_nil_iff` are about the
  comparison of any two snapshots;
* `Repository.head_of_commit` says which head a commit installs;
* `report_foretells_commit` puts them together.
-/

namespace Worktree

open ObjectStore (putAll)

/-- The report is the difference between an old and a new snapshot: each path of either has one
line, which tells in which of them it is and whether it kept its digest. -/
structure Report.ListsDifference (r : Report) (old new : Snapshot) : Prop where
  untracked_iff : ∀ p : Path, ⟨p.text, .untracked⟩ ∈ r.lines ↔
    new.contains p = true ∧ old.contains p = false
  deleted_iff : ∀ p : Path, ⟨p.text, .deleted⟩ ∈ r.lines ↔
    old.contains p = true ∧ new.contains p = false
  modified_iff : ∀ p : Path, ⟨p.text, .modified⟩ ∈ r.lines ↔
    ∃ d e, old.lookup p = some d ∧ new.lookup p = some e ∧ d ≠ e
  unmodified_iff : ∀ p : Path, ⟨p.text, .unmodified⟩ ∈ r.lines ↔
    ∃ d, old.lookup p = some d ∧ new.lookup p = some d
  unlisted_iff : ∀ p : Path, (∀ l ∈ r.lines, l.path ≠ p.text) ↔
    old.contains p = false ∧ new.contains p = false
  of_path : ∀ l ∈ r.lines, ∃ p : Path, l.path = p.text
  ascending : r.lines.Pairwise fun a b => Text.compare a.path b.path = .lt

/-- The table of the comparison, read from the status. -/
theorem Status.ofDigests_eq_some_iff {current recorded : Option Digest} {c : Status} :
    ofDigests current recorded = some c ↔
      (c = .untracked ∧ current.isSome = true ∧ recorded.isSome = false) ∨
      (c = .deleted ∧ recorded.isSome = true ∧ current.isSome = false) ∨
      (c = .modified ∧ ∃ d e, recorded = some d ∧ current = some e ∧ d ≠ e) ∨
      (c = .unmodified ∧ ∃ d, recorded = some d ∧ current = some d) := by
  cases current with
  | none => cases recorded <;> simp [ofDigests, eq_comm]
  | some e =>
      cases recorded with
      | none => simp [ofDigests, eq_comm]
      | some d => by_cases hsame : e = d <;> simp [ofDigests, hsame, eq_comm]

namespace Snapshot

theorem contains_eq_isSome (s : Snapshot) (p : Path) : s.contains p = (s.lookup p).isSome := rfl

theorem mem_lines_full_iff {new old : Snapshot} {p : Path} {c : Status} :
    ⟨p.text, c⟩ ∈ (new.difference .full old).lines ↔
      Status.ofDigests (new.lookup p) (old.lookup p) = some c := by
  rw [mem_lines_difference_iff]
  constructor
  · intro h
    obtain ⟨q, hq, hstatus, -⟩ := h
    rw [Path.text_injective hq]
    exact hstatus
  · intro h
    exact ⟨p, rfl, h, rfl⟩

/-- A path is left out of a full comparison exactly when it has no digest on either side. -/
theorem unlisted_full_iff {new old : Snapshot} {p : Path} :
    (∀ l ∈ (new.difference .full old).lines, l.path ≠ p.text) ↔
      new.lookup p = none ∧ old.lookup p = none := by
  have hnone : Status.ofDigests (new.lookup p) (old.lookup p) = none ↔
      new.lookup p = none ∧ old.lookup p = none := by
    cases new.lookup p <;> cases old.lookup p <;> simp [Status.ofDigests]
  rw [← hnone, Option.eq_none_iff_forall_ne_some]
  constructor
  · intro h c hc
    exact h ⟨p.text, c⟩ (mem_lines_full_iff.mpr hc) rfl
  · intro h l hl hpath
    apply h l.status
    apply mem_lines_full_iff.mp
    rw [← hpath]
    exact hl

/-- Comparing two snapshots in full gives their difference. -/
theorem listsDifference_difference (new old : Snapshot) :
    (new.difference .full old).ListsDifference old new where
  untracked_iff p := by
    simp [mem_lines_full_iff, Status.ofDigests_eq_some_iff, contains_eq_isSome]
  deleted_iff p := by
    simp [mem_lines_full_iff, Status.ofDigests_eq_some_iff, contains_eq_isSome]
  modified_iff p := by
    simp [mem_lines_full_iff, Status.ofDigests_eq_some_iff]
  unmodified_iff p := by
    simp [mem_lines_full_iff, Status.ofDigests_eq_some_iff]
  unlisted_iff p := by
    simp [unlisted_full_iff, contains_eq_isSome, and_comm]
  of_path l hl := by
    obtain ⟨p, hp, -⟩ := mem_lines_difference_iff.mp hl
    exact ⟨p, hp⟩
  ascending := by
    rw [lines_difference]
    exact pairwise_admittedLines .full _

/-- A brief comparison lists nothing exactly when there is no difference. -/
theorem lines_difference_eq_nil_iff {new old : Snapshot} :
    (new.difference {} old).lines = [] ↔ new = old := by
  rw [List.eq_nil_iff_forall_not_mem]
  constructor
  · intro h
    refine ext_lookup fun p => ?_
    have hunlisted : ∀ c, c ≠ .unmodified →
        Status.ofDigests (new.lookup p) (old.lookup p) ≠ some c := by
      intro c hc hstatus
      apply h ⟨p.text, c⟩
      exact mem_lines_difference_iff.mpr ⟨p, rfl, hstatus, by simp [ReportOptions.admits, hc]⟩
    cases hnew : new.lookup p with
    | none =>
        cases hold : old.lookup p with
        | none => rfl
        | some d => exact absurd (by rw [hnew, hold]; rfl) (hunlisted .deleted (by decide))
    | some e =>
        cases hold : old.lookup p with
        | none => exact absurd (by rw [hnew, hold]; rfl) (hunlisted .untracked (by decide))
        | some d =>
            by_cases hsame : e = d
            · rw [hsame]
            · refine absurd ?_ (hunlisted .modified (by decide))
              rw [hnew, hold]
              exact congrArg some (if_neg hsame)
  · rintro rfl l hl
    obtain ⟨p, -, hstatus, hadmitted⟩ := mem_lines_difference_iff.mp hl
    have hunmodified : l.status = .unmodified := by
      rw [Status.ofDigests_eq_some_iff] at hstatus
      grind
    rw [hunmodified] at hadmitted
    exact absurd hadmitted (by decide)

end Snapshot

namespace Repository

variable {σ : Type} [ObjectStore σ]

theorem reportWith_eq_map (o : ReportOptions) (store : σ) (r : Repository) :
    r.reportWith o store
      = (r.tree.committed.verify store).map fun _ => r.tree.digests.difference o r.head :=
  r.tree.report_eq_map store r.head o

/-- Reporting fails as committing does: both begin with the same check. -/
theorem reportWith_eq_error_iff {o : ReportOptions} {store : σ} {r : Repository} {f : Fault} :
    r.reportWith o store = .error f ↔ r.commit store = .error f := by
  rw [reportWith_eq_map, commit_eq_map, Tree.commit_eq_map, map_eq_error_iff, map_eq_error_iff,
    map_eq_error_iff]

/-- **The head that a commit installs** holds the digest of every file. -/
theorem head_of_commit [ContentAddressed σ] {store store' : σ} {r r' : Repository}
    (h : r.commit store = .ok (r', store')) : r'.head = r.tree.digests := by
  rw [commit_eq_map, map_eq_ok_iff] at h
  obtain ⟨c, hc, heq⟩ := h
  obtain ⟨rfl, -⟩ := Prod.mk.inj heq
  obtain ⟨-, rfl⟩ := Tree.commit_eq_ok_iff.mp hc
  exact congrArg Commit.snapshot (Tree.recorded_eq r.tree store)

end Repository

/-- **A report foretells the next commit.**  On a store that names contents by their digests, and
that may have lost any objects in either way, a report and a commit of one repository fail with the
same fault or both succeed.  When they succeed, the full report is the difference between the old
head and the one that the commit installs, and the brief report is empty exactly when the commit
leaves the head as it was. -/
theorem report_foretells_commit {σ : Type} [ObjectStore σ] [ContentAddressed σ] (store : σ)
    (r : Repository) :
    (∀ o f, r.reportWith o store = .error f ↔ r.commit store = .error f) ∧
    (∀ o, (∃ report, r.reportWith o store = .ok report) ↔
      ∃ r' store', r.commit store = .ok (r', store')) ∧
    (∀ f, r.commit store = .error f → ∃ p d, f = .corrupt p d) ∧
    ∀ r' store', r.commit store = .ok (r', store') →
      (∃ full, r.reportWith .full store = .ok full ∧ full.ListsDifference r.head r'.head) ∧
      ∃ brief, r.reportWith {} store = .ok brief ∧ (brief.lines = [] ↔ r'.head = r.head) := by
  have hreport : ∀ r' store', r.commit store = .ok (r', store') →
      ∀ o, r.reportWith o store = .ok (r'.head.difference o r.head) := by
    intro r' store' hcommit o
    rw [Repository.head_of_commit hcommit]
    cases hresult : r.reportWith o store with
    | error f =>
        rw [Repository.reportWith_eq_error_iff, hcommit] at hresult
        exact absurd hresult (by simp)
    | ok report =>
        obtain ⟨-, hlines⟩ := Tree.report_eq_ok_iff.mp hresult
        rw [hlines]
  refine ⟨?_, ?_, ?_, ?_⟩
  · intro o f
    exact Repository.reportWith_eq_error_iff
  · intro o
    constructor
    · intro h
      obtain ⟨report, hresult⟩ := h
      cases hcommit : r.commit store with
      | error f =>
          rw [← Repository.reportWith_eq_error_iff (o := o), hresult] at hcommit
          exact absurd hcommit (by simp)
      | ok done => exact ⟨done.1, done.2, rfl⟩
    · intro h
      obtain ⟨r', store', hcommit⟩ := h
      exact ⟨_, hreport r' store' hcommit o⟩
  · intro f hf
    rw [Repository.commit_eq_map, map_eq_error_iff] at hf
    obtain ⟨p, d, heq, -⟩ := (failsAtFirst_commit r.tree store).names_first f hf
    exact ⟨p, d, heq⟩
  · intro r' store' hcommit
    refine ⟨⟨_, hreport r' store' hcommit .full, ?_⟩, ⟨_, hreport r' store' hcommit {}, ?_⟩⟩
    · exact Snapshot.listsDifference_difference r'.head r.head
    · exact Snapshot.lines_difference_eq_nil_iff

/-- A repository with a path of each status, on a store that answers for its one object without
giving it out. -/
theorem report_foretells_commit_of_each_status :
    let store : DamagedStore :=
      ⟨putAll Store.empty [⟨#[97]⟩], .ofList [(.ofContent ⟨#[97]⟩, ⟨true, false⟩)]⟩
    let t : Tree := ⟨.ofList [(.ofString "changed", .written ⟨#[98]⟩),
      (.ofString "gone", .removed), (.ofString "kept", .committed (.ofContent ⟨#[97]⟩)),
      (.ofString "new", .written ⟨#[97]⟩)]⟩
    let head : Snapshot := .ofList [(.ofString "changed", .ofContent ⟨#[97]⟩),
      (.ofString "gone", .ofContent ⟨#[97]⟩), (.ofString "kept", .ofContent ⟨#[97]⟩)]
    let r : Repository := ⟨t, head, {}⟩
    ContentAddressed DamagedStore ∧ ∃ r' store' full, r.commit store = .ok (r', store') ∧
      r.reportWith .full store = .ok full ∧ full.ListsDifference r.head r'.head := by
  intro store t head r
  have hfound : ∀ p d, ¬ t.Missing store p d := by
    apply Tree.not_missing_iff.mpr
    intro p d hcommitted
    have hmem := List.mem_map_of_mem (f := Prod.snd) (OrderedMap.mem_of_get?_ofList hcommitted)
    obtain rfl : d = .ofContent ⟨#[97]⟩ := by simpa using hmem
    decide +kernel
  have hcommit : r.commit store = .ok (⟨(t.recorded store).tree, (t.recorded store).snapshot, {}⟩,
      (t.recorded store).store) := by
    rw [Repository.commit_eq_map, Tree.commit_eq_ok_iff.mpr ⟨hfound, rfl⟩]
    rfl
  obtain ⟨-, -, -, hsuccess⟩ := report_foretells_commit store r
  obtain ⟨⟨full, hfull, hlists⟩, -⟩ := hsuccess _ _ hcommit
  exact ⟨inferInstance, _, _, full, hcommit, hfull, hlists⟩

end Worktree
