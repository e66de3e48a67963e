import Worktree.Proofs.Foretelling
import Worktree.Proofs.Readback
import Worktree.Proofs.Sharing

/-!
# Checkpoints

A snapshot that a commit returns is a checkpoint.  Whatever happens to the store afterwards, and
whoever does it, the repository that the checkpoint opens has the files of the committing tree as
that tree could read them right after the commit.

The commit leaves all objects of the snapshot in the store, and a history only adds objects; so this
needs no assumption about digests.
-/

namespace Worktree

/-- A snapshot brings back files with given contents from a store: it survives being written down,
the store has all of it, and the repository that it opens, working tree and head alike, reads these
contents and has nothing to report. -/
structure Snapshot.Restores (s : Snapshot) (store : Store)
    (content : Path → Except Fault ByteArray) : Prop where
  reads_back : Snapshot.ofJson s.json = .ok s
  verified : s.verify store = .ok ()
  opens : ∃ r, Repository.load store s = .ok r ∧
    (∀ p, r.read store p = content p) ∧
    (∀ p, r.readHead store p = content p) ∧
    (∃ brief, r.reportWith {} store = .ok brief ∧ brief.lines = []) ∧
    ∃ full, r.reportWith .full store = .ok full ∧
      full.lines = s.paths.map fun p => ⟨p.text, .unmodified⟩
  recorded : ∀ p d, s.lookup p = some d → ∃ c, content p = .ok c
  others : ∀ p, s.lookup p = none → content p = .error (.notFound p)

/-- **Objects are all that is needed.**  A snapshot that a store has all objects of brings back its
files from every store that has grown from it. -/
theorem Snapshot.restores_of_within {store site : Store} (hgrown : store.Within site) {s : Snapshot}
    (hfound : ∀ p d, ¬ s.Missing store p d) :
    s.Restores site ((Tree.ofSnapshot s).read store) := by
  have hsite : ∀ p d, ¬ s.Missing site p d := Snapshot.not_missing_of_within hgrown hfound
  have htree : ∀ p d, ¬ (Tree.ofSnapshot s).Missing site p d := Tree.not_missing_ofSnapshot hsite
  have hread : ∀ p, (Tree.ofSnapshot s).read site p = (Tree.ofSnapshot s).read store p :=
    Tree.read_of_within hgrown (Tree.not_missing_ofSnapshot hfound)
  have hreport : ∀ o, (Tree.ofSnapshot s).report o site s = .ok (s.difference o s) := by
    intro o
    apply Tree.report_eq_ok_iff.mpr
    rw [Tree.digests_ofSnapshot]
    exact ⟨htree, rfl⟩
  constructor
  · exact s.ofJson_json
  · obtain ⟨_, hverified⟩ := (failsAtFirst_verify s site).exists_ok hsite
    exact hverified
  · refine ⟨⟨.ofSnapshot s, s, {}⟩, ?_, hread, ?_, ?_, ?_⟩
    · rw [Repository.load_eq_map, (failsAtFirst_verify s site).map_eq_ok_iff]
      exact ⟨hsite, rfl⟩
    · intro p
      rw [Repository.readHead_eq_read]
      exact hread p
    · exact ⟨_, hreport {}, Snapshot.lines_difference_eq_nil_iff.mpr rfl⟩
    · exact ⟨_, hreport .full, s.lines_difference_self⟩
  · intro p d hp
    obtain ⟨c, hc⟩ := Store.contains_iff.mp (Snapshot.not_missing_iff.mp hfound p d hp)
    refine ⟨c, ?_⟩
    rw [Tree.read, Tree.lookup_ofSnapshot, hp]
    exact Tree.fetch_eq_ok hc p
  · intro p hp
    rw [Tree.read, Tree.lookup_ofSnapshot, hp]
    rfl

/-- A change that comes to a snapshot is a change by an owner who is there, and the owner is left
with what the change made. -/
theorem Shared.change_of_step_eq {σ : Type} [ObjectStore σ] {site after : Shared σ} {i : Nat}
    {c : Change} {s : Snapshot} (h : site.step (.change i c) = (.ok (some s), after)) :
    ∃ (o : Owner) (x : Changed Owner σ), o.change site.store c = .ok x ∧ x.recorded = some s ∧
      after.owners[i]? = some x.now ∧ after.store = x.store := by
  cases ho : site.owners[i]? with
  | none => simp [step, ho] at h
  | some o =>
      cases hx : o.change site.store c with
      | error f => simp [step, ho, hx] at h
      | ok x =>
          simp only [step, ho, hx, Prod.mk.injEq, Except.ok.injEq] at h
          obtain ⟨hrecorded, rfl⟩ := h
          obtain ⟨hi, -⟩ := List.getElem?_eq_some_iff.mp ho
          exact ⟨o, x, hx, hrecorded, by simp [hi], rfl⟩

/-- **Checkpoints stay restorable.**  Let an owner commit, after any history on a shared store.
From then on, whatever else happens, the snapshot brings back from the store what the owner could
read right after the commit. -/
theorem checkpoints_stay_restorable (store : Store) (before : List Event) (i : Nat) {s : Snapshot}
    {after : Shared Store}
    (h : (Shared.run ⟨[], store⟩ before).step (.change i .commit) = (.ok (some s), after)) :
    ∃ o, after.owners[i]? = some o ∧
      ∀ later, s.Restores (after.run later).store (o.working.read after.store) := by
  obtain ⟨o, x, hx, hrecorded, hthere, hstore⟩ := Shared.change_of_step_eq h
  obtain ⟨y, hy, rfl⟩ := Owner.change_eq_ok hx
  obtain ⟨hfound, htree⟩ := Tree.recorded_of_change hy hrecorded
  refine ⟨_, hthere, ?_⟩
  intro later
  rw [Owner.working_replace, htree]
  apply Snapshot.restores_of_within (after.within_run later)
  rw [hstore]
  exact hfound

/-- A tree commits a file and then writes over it, and a repository that had the same content before
gives it up. -/
theorem checkpoints_stay_restorable_after_overwriting :
    let site := Shared.run ⟨[], .empty⟩ [.newTree, .newRepository, .put ⟨#[97]⟩,
      .change 1 (.write "y" ⟨#[98]⟩), .change 1 .commit, .change 0 (.write "a/../x" ⟨#[98]⟩)]
    let s : Snapshot := .ofList [(.ofString "x", .ofContent ⟨#[98]⟩)]
    let after := (site.step (.change 0 .commit)).2
    let later : List Event := [.change 0 (.write "x" ⟨#[99]⟩), .change 1 (.remove "y"),
      .openRepository s, .change 1 .commit, .change 0 .commit]
    let content := (Tree.ofSnapshot s).read after.store
    site.step (.change 0 .commit) = (.ok (some s), after) ∧
      content (.ofString "/x") = .ok ⟨#[98]⟩ ∧ s.Restores (after.run later).store content := by
  intro site s after later content
  have hstep : site.step (.change 0 .commit) = (.ok (some s), after) :=
    Prod.ext (by decide +kernel) rfl
  have hthere : after.owners[0]? = some (.tree (.ofSnapshot s)) := by decide +kernel
  obtain ⟨o, ho, hrestores⟩ := checkpoints_stay_restorable .empty _ 0 hstep
  obtain rfl : Owner.tree (.ofSnapshot s) = o := Option.some.inj (hthere.symm.trans ho)
  exact ⟨hstep, by decide +kernel, hrestores later⟩

end Worktree
