import Worktree.Proofs.Comparison
import Worktree.Proofs.Walking
import Worktree.Proofs.Written

/-!
# Walkthroughs of a fresh repository

Nothing can fail in a repository without files over a store without objects: the file is not there,
it is written, what is written reads back, and the tree refers to no object.  As nothing was ever
committed, the file is untracked, whatever the report is asked to list.

* `Tree.report_eq_ok_of_uncommitted` says what is reported where nothing was committed;
* `Walkthrough.run_empty` is the whole walkthrough;
* `fresh_walkthroughs_succeed` also says how each form of the report reads.
-/

namespace Worktree

/-- A tree without committed entries refers to no object, so it is always reported on; where there
is no commit to compare with, all its files are untracked. -/
theorem Tree.report_eq_ok_of_uncommitted {σ : Type} [ObjectStore σ] (store : σ) {t : Tree}
    (h : ∀ p d, t.lookup p ≠ some (.committed d)) (o : ReportOptions) :
    t.report o store .empty = .ok (.ofLines (t.paths.map fun p => ⟨p.text, .untracked⟩)) := by
  rw [report_eq_ok_iff]
  constructor
  · exact fun p d hmissing => h p d hmissing.1
  · rw [paths_eq_paths_digests, ← Snapshot.lines_difference_empty o, Report.ofLines_lines]

/-- The one line of a report is not moved. -/
theorem Report.lines_ofLines_singleton (l : Line) : (ofLines [l]).lines = [l] :=
  List.mergeSort_singleton l

/-- What is written for one untracked file. -/
theorem Report.render_untracked (path : String) :
    (ofLines [⟨path, .untracked⟩]).render .human = "untracked " ++ path ++ "\n" ∧
    (ofLines [⟨path, .untracked⟩]).render .porcelain = "?? " ++ path ++ "\n" := by
  have hlines := lines_ofLines_singleton ⟨path, .untracked⟩
  constructor
  · rw [render, human, isClean, hlines]
    rfl
  · rw [render, porcelain, hlines]
    rfl

namespace Walkthrough

/-- The file is not there, so it is written. -/
theorem prepare_empty (config : Config) (options : ReportOptions) :
    prepare config (Repository.empty.withOptions options) =
      { tree := Tree.empty.write (.ofString config.path) config.content.toUTF8
        head := .empty
        options } :=
  rfl

/-- A walkthrough of an empty repository, over any store. -/
theorem run_empty {σ : Type} [ObjectStore σ] (config : Config) (store : σ)
    (options : ReportOptions) :
    run config store (Repository.empty.withOptions options) =
      { output := opening false ++ middle config.content
          ++ (Report.ofLines [⟨Path.normalize config.path, .untracked⟩]).render config.format
        result := .ok (.ofLines [⟨Path.normalize config.path, .untracked⟩])
        repository := prepare config (Repository.empty.withOptions options) } := by
  have hentry : ∀ p d, (Tree.empty.write (.ofString config.path) config.content.toUTF8).lookup p
      ≠ some (.committed d) := by
    intro p d
    rw [Tree.lookup_write]
    split <;> nofun
  refine run_of_report ?_ ?_
  · rw [prepare_empty]
    exact Tree.readText_write store Tree.empty _ config.content
  · rw [prepare_empty]
    exact Tree.report_eq_ok_of_uncommitted store hentry options

end Walkthrough

open Walkthrough in
/-- **Walkthroughs of a fresh repository succeed**, whatever the path, the content, the form and the
report options are; the path may be spelled in any way and may come to the root.  The report has one
line, by which the file is untracked under its canonical name, and the transcript shows the content
as it was configured and then the report: as one line in the two text forms, and otherwise as a
text that reads back as this report. -/
theorem fresh_walkthroughs_succeed (config : Config) :
    let path := Path.normalize config.path
    let report := Report.ofLines [⟨path, .untracked⟩]
    let heading := "Checking if file exists...\nExists: false\nWriting file...\nReading file...\n"
      ++ "Content: " ++ config.content ++ "\n" ++ "Status:\n"
    (runFresh config).result = .ok report ∧
    report.lines = [⟨path, .untracked⟩] ∧
    (runFresh config).output = heading ++ report.render config.format ∧
    match config.format with
    | .human => report.render config.format = "untracked " ++ path ++ "\n"
    | .porcelain => report.render config.format = "?? " ++ path ++ "\n"
    | .json => ∃ t, report.render config.format = t ++ "\n" ∧ Report.ofJson t = .ok report := by
  intro path report heading
  have hrun := run_empty config Store.empty config.options
  have hheading : opening false ++ middle config.content = heading := by
    have hopening : opening false =
        "Checking if file exists...\nExists: false\nWriting file...\nReading file...\n" := by
      decide
    rw [hopening, middle]
    simp only [heading, String.append_assoc]
  obtain ⟨hhuman, hporcelain⟩ := Report.render_untracked path
  refine ⟨?_, Report.lines_ofLines_singleton _, ?_, ?_⟩
  · rw [runFresh, hrun]
  · rw [runFresh, hrun, ← hheading]
  · cases config.format with
    | human => exact hhuman
    | porcelain => exact hporcelain
    | json => exact ⟨report.json, rfl, report.ofJson_json⟩

/-- A file at the root, shown with a line feed in it. -/
example : (Walkthrough.runFresh
    { path := "/a/..", content := "é\n", format := .porcelain, options := .full }).output =
      "Checking if file exists...\nExists: false\nWriting file...\nReading file...\n"
        ++ "Content: é\n\nStatus:\n?? \n" := by
  decide +kernel

end Worktree
