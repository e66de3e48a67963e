import Worktree.Proofs.Hosting
import Worktree.Proofs.ReadingText
import Worktree.Proofs.TextForms
import Worktree.Store.Damaged
import Worktree.Walkthrough

/-!
# How walkthroughs end

A walkthrough looks for a file, writes it if it is not there, reads it back and reports.
`Walkthrough.run` is one function of a repository and a store.  Here a walkthrough is also made step
by step on a host, and each part of the transcript is written before the next step is taken, so that
what a failure leaves behind is not a matter of how the function is put together.

* `Walkthrough.steps` are the steps, and `Walkthrough.on_steps` says that they end as
  `Walkthrough.run` does;
* `Walkthrough.transcript` is all that can be written, part by part, and the last part may be empty:
  `Report.render_eq_empty_iff` says when;
* `Walkthrough.prepare_prepare` and `Walkthrough.missing_prepare_iff` say that the file is written
  once, and that the tree refers to the same objects after it;
* `Walkthrough.result_run` says which step decides the result.

`walkthroughs_end_exactly` says when and how a walkthrough fails, and what it leaves.  A walkthrough
that fails has not always written less than the whole transcript: where the report is empty in the
form for a program, `reporting_failure_may_come_last` has a failure after the last character.
-/

namespace Worktree

/-! ## Texts that break off -/

/-- The whole goes on after its beginning. -/
def Text.ProperlyBegins (beginning whole : String) : Prop :=
  ∃ rest, rest ≠ "" ∧ whole = beginning ++ rest

theorem Text.properlyBegins_append_iff {beginning rest : String} :
    ProperlyBegins beginning (beginning ++ rest) ↔ rest ≠ "" := by
  constructor
  · intro h
    obtain ⟨other, hother, heq⟩ := h
    have hchars := congrArg String.toList heq
    rw [String.toList_append, String.toList_append] at hchars
    rwa [String.toList_injective (List.append_cancel_left hchars)]
  · exact fun h => ⟨rest, h, rfl⟩

/-- A reader is always shown something. -/
theorem Report.human_ne_empty (r : Report) : r.human ≠ "" := by
  intro hempty
  cases hclean : r.isClean with
  | true =>
      rw [human, if_pos hclean] at hempty
      exact absurd hempty (by decide)
  | false =>
      cases hlines : r.lines with
      | nil => exact absurd hclean (by simp [isClean, hlines])
      | cons l rest =>
          have hchars := congrArg String.toList hempty
          rw [human, if_neg (by simp [hclean]), hlines, String.toList_join, List.map_cons,
            List.flatMap_cons, Line.toList_human] at hchars
          exact absurd hchars (by simp)

/-- Nothing is written for a report in the form for a program if there is nothing to commit, and
only then. -/
theorem Report.render_eq_empty_iff {format : Format} {r : Report} :
    r.render format = "" ↔ format = .porcelain ∧ r.isClean = true := by
  cases format with
  | human => exact iff_of_false r.human_ne_empty (by simp)
  | porcelain => exact porcelain_eq_empty_iff.trans (by simp)
  | json =>
      refine iff_of_false ?_ (by simp)
      intro hempty
      have hchars := congrArg String.toList hempty
      rw [render, String.toList_append] at hchars
      exact absurd hchars (by simp)

namespace Walkthrough

/-! ## The transcript -/

/-- The parts that are written before the file is read. -/
def beginning (live : Bool) : List String :=
  ["Checking if file exists...\n", "Exists: " ++ (if live then "true" else "false") ++ "\n"]
    ++ (if live then [] else ["Writing file...\n"]) ++ ["Reading file...\n"]

/-- The parts that are written between reading the file and reporting. -/
def showing (text : String) : List String :=
  ["Content: " ++ text ++ "\n", "Status:\n"]

/-- The parts of the transcript when the file is there or not, holds a text, and a report is
made. -/
def transcript (config : Config) (live : Bool) (text : String) (report : Report) : List String :=
  beginning live ++ showing text ++ [report.render config.format]

theorem join_beginning (live : Bool) : String.join (beginning live) = opening live := by
  cases live <;> decide

theorem join_showing (text : String) : String.join (showing text) = middle text := by
  simp [showing, middle]

theorem join_transcript (config : Config) (live : Bool) (text : String) (report : Report) :
    String.join (transcript config live text report) =
      opening live ++ middle text ++ report.render config.format := by
  simp [transcript, join_beginning, join_showing, String.append_assoc]

theorem middle_append_ne_empty (text rest : String) : middle text ++ rest ≠ "" := by
  intro hempty
  have hchars := congrArg String.toList hempty
  simp [middle] at hchars

/-! ## Step by step -/

/-- A walkthrough under way: the host that it is on, and the parts written so far. -/
structure Tour (σ : Type) where
  host : Host σ
  written : List String

/-- Steps of a walkthrough.  A step that fails keeps what the steps before it did and wrote. -/
abbrev Steps (σ α : Type) := ExceptT Failure (StateM (Tour σ)) α

namespace Steps

variable {σ α β : Type}

/-- What steps come to on a tour, and the tour after them. -/
def on (a : Steps σ α) (t : Tour σ) : Except Failure α × Tour σ :=
  StateT.run (ExceptT.run a) t

/-- Writes a part of the transcript. -/
def say (part : String) : Steps σ Unit :=
  modify fun t => { t with written := t.written ++ [part] }

/-- Asks the host something, which may fail. -/
def ask (failure : Fault → Failure) (question : Host σ → Except Fault α) : Steps σ α := do
  match question (← get).host with
  | .ok a => return a
  | .error f => throw (failure f)

theorem on_bind_of_ok {a : Steps σ α} {next : α → Steps σ β} {t u : Tour σ} {x : α}
    (ha : a.on t = (.ok x, u)) : (a >>= next).on t = (next x).on u :=
  run_bind_of_ok ha

theorem on_bind_of_error {a : Steps σ α} {next : α → Steps σ β} {t u : Tour σ} {f : Failure}
    (ha : a.on t = (.error f, u)) : (a >>= next).on t = (.error f, u) :=
  run_bind_of_error ha

theorem on_get (t : Tour σ) : (get : Steps σ (Tour σ)).on t = (.ok t, t) := rfl

theorem on_say (part : String) (t : Tour σ) :
    (say part).on t = (.ok (), { t with written := t.written ++ [part] }) := rfl

theorem on_ask_of_ok {failure : Fault → Failure} {question : Host σ → Except Fault α} {t : Tour σ}
    {a : α} (h : question t.host = .ok a) : (ask failure question).on t = (.ok a, t) := by
  rw [ask, on_bind_of_ok (on_get t), h]
  rfl

theorem on_ask_of_error {failure : Fault → Failure} {question : Host σ → Except Fault α}
    {t : Tour σ} {f : Fault} (h : question t.host = .error f) :
    (ask failure question).on t = (.error (failure f), t) := by
  rw [ask, on_bind_of_ok (on_get t), h]
  rfl

end Steps

open Steps

variable {σ : Type} [ObjectStore σ]

/-- Looks for the file, and writes it if it is not there. -/
def arrive (config : Config) : Steps σ Unit := do
  say "Checking if file exists...\n"
  let live := (← get).host.repository.isLive (.ofString config.path)
  say ("Exists: " ++ (if live then "true" else "false") ++ "\n")
  unless live do
    say "Writing file...\n"
    modify fun t =>
      { t with host := (t.host.change (.write config.path config.content.toUTF8)).2 }

/-- The walkthrough, step by step. -/
def steps (config : Config) : Steps σ Report := do
  arrive config
  say "Reading file...\n"
  let text ← ask (.reading config.path) fun h =>
    h.repository.readText h.store (.ofString config.path)
  say ("Content: " ++ text ++ "\n")
  say "Status:\n"
  let report ← ask .reporting fun h => h.repository.report h.store
  say (report.render config.format)
  return report

variable {config : Config} {store : σ} {r : Repository}

theorem run_of_read_error {f : Fault}
    (h : (prepare config r).readText store (.ofString config.path) = .error f) :
    run config store r =
      { output := opening (r.isLive (.ofString config.path))
        result := .error (.reading config.path f)
        repository := prepare config r } := by
  rw [run, h]

theorem run_of_report_error {text : String} {f : Fault}
    (htext : (prepare config r).readText store (.ofString config.path) = .ok text)
    (h : (prepare config r).report store = .error f) :
    run config store r =
      { output := opening (r.isLive (.ofString config.path)) ++ middle text
        result := .error (.reporting f)
        repository := prepare config r } := by
  rw [run, htext]
  simp only [h]

theorem run_of_report {text : String} {report : Report}
    (htext : (prepare config r).readText store (.ofString config.path) = .ok text)
    (h : (prepare config r).report store = .ok report) :
    run config store r =
      { output := opening (r.isLive (.ofString config.path)) ++ middle text
          ++ report.render config.format
        result := .ok report
        repository := prepare config r } := by
  rw [run, htext]
  simp only [h]

/-- After the first steps the file is there, and it is about to be read. -/
theorem on_arrive (config : Config) (store : σ) (r : Repository) :
    (do arrive config; say "Reading file...\n" : Steps σ Unit).on ⟨⟨r, store⟩, []⟩ =
      (.ok (), ⟨⟨prepare config r, store⟩, beginning (r.isLive (.ofString config.path))⟩) := by
  unfold arrive prepare
  simp only [bind_assoc]
  rw [on_bind_of_ok (on_say _ _), on_bind_of_ok (on_get _), on_bind_of_ok (on_say _ _)]
  cases r.isLive (.ofString config.path) <;> rfl

theorem on_steps_of_read_error {f : Fault}
    (h : (prepare config r).readText store (.ofString config.path) = .error f) :
    (steps config).on ⟨⟨r, store⟩, []⟩ = (.error (.reading config.path f),
      ⟨⟨prepare config r, store⟩, beginning (r.isLive (.ofString config.path))⟩) := by
  rw [steps, ← bind_assoc, on_bind_of_ok (on_arrive config store r),
    on_bind_of_error (on_ask_of_error h)]

theorem on_steps_of_report_error {text : String} {f : Fault}
    (htext : (prepare config r).readText store (.ofString config.path) = .ok text)
    (h : (prepare config r).report store = .error f) :
    (steps config).on ⟨⟨r, store⟩, []⟩ = (.error (.reporting f),
      ⟨⟨prepare config r, store⟩,
        beginning (r.isLive (.ofString config.path)) ++ showing text⟩) := by
  rw [steps, ← bind_assoc, on_bind_of_ok (on_arrive config store r),
    on_bind_of_ok (on_ask_of_ok htext), on_bind_of_ok (on_say _ _), on_bind_of_ok (on_say _ _),
    on_bind_of_error (on_ask_of_error h)]
  simp [showing]

theorem on_steps_of_report {text : String} {report : Report}
    (htext : (prepare config r).readText store (.ofString config.path) = .ok text)
    (h : (prepare config r).report store = .ok report) :
    (steps config).on ⟨⟨r, store⟩, []⟩ = (.ok report,
      ⟨⟨prepare config r, store⟩,
        transcript config (r.isLive (.ofString config.path)) text report⟩) := by
  rw [steps, ← bind_assoc, on_bind_of_ok (on_arrive config store r),
    on_bind_of_ok (on_ask_of_ok htext), on_bind_of_ok (on_say _ _), on_bind_of_ok (on_say _ _),
    on_bind_of_ok (on_ask_of_ok h), on_bind_of_ok (on_say _ _)]
  simp [transcript, showing]
  rfl

/-! ## The file -/

theorem prepare_of_live (h : r.isLive (.ofString config.path) = true) : prepare config r = r :=
  if_pos h

theorem prepare_of_not_live (h : r.isLive (.ofString config.path) = false) :
    prepare config r = r.write (.ofString config.path) config.content.toUTF8 :=
  if_neg (Bool.eq_false_iff.mp h)

theorem lookup_prepare_of_not_live (h : r.isLive (.ofString config.path) = false) (p : Path) :
    (prepare config r).tree.lookup p =
      if p = .ofString config.path then some (.written config.content.toUTF8)
      else r.tree.lookup p := by
  rw [prepare_of_not_live h]
  exact Tree.lookup_write r.tree _ p _

/-- Only the tree is written to. -/
theorem head_prepare (config : Config) (r : Repository) :
    (prepare config r).head = r.head ∧ (prepare config r).options = r.options := by
  unfold prepare
  split <;> exact ⟨rfl, rfl⟩

theorem isLive_prepare (config : Config) (r : Repository) :
    (prepare config r).isLive (.ofString config.path) = true := by
  cases h : r.isLive (.ofString config.path) with
  | true => rw [prepare_of_live h, h]
  | false =>
      rw [Repository.isLive, Tree.isLive_eq_any, lookup_prepare_of_not_live h, if_pos rfl]
      rfl

/-- A file that was written is there. -/
theorem prepare_prepare (config : Config) (r : Repository) :
    prepare config (prepare config r) = prepare config r :=
  prepare_of_live (isLive_prepare config r)

/-- A file that is written does not take the place of a committed one, so the tree refers to the
same objects. -/
theorem missing_prepare_iff {p : Path} {d : Digest} :
    (prepare config r).tree.Missing store p d ↔ r.tree.Missing store p d := by
  cases h : r.isLive (.ofString config.path) with
  | true => rw [prepare_of_live h]
  | false =>
      refine and_congr_left fun _ => ?_
      rw [lookup_prepare_of_not_live h]
      split
      case isFalse => rfl
      case isTrue hp =>
          subst hp
          rw [Repository.isLive, Tree.isLive_eq_any] at h
          constructor
          · exact fun hwritten => absurd hwritten (by simp)
          · intro hcommitted
            rw [hcommitted] at h
            exact absurd h (by simp [Entry.isLive])

/-- Writing the file does not make a report fail or succeed. -/
theorem exists_report_prepare_error_iff :
    (∃ f, (prepare config r).report store = .error f) ↔ ∃ p d, r.tree.Missing store p d := by
  have hfails := failsAtFirst_report (prepare config r).tree store (prepare config r).head
    (prepare config r).options
  exact (hfails.congr fun _ _ => missing_prepare_iff).fails_iff

/-- Reading fails only if the file was there, since what is written reads back. -/
theorem readText_prepare_eq_error_iff {f : Fault} :
    (prepare config r).readText store (.ofString config.path) = .error f ↔
      r.isLive (.ofString config.path) = true ∧
        r.readText store (.ofString config.path) = .error f := by
  cases h : r.isLive (.ofString config.path) with
  | true => simp [prepare_of_live h]
  | false =>
      have hback : (prepare config r).readText store (.ofString config.path)
          = .ok config.content := by
        rw [prepare_of_not_live h]
        exact Tree.readText_write store r.tree _ config.content
      simp [hback]

/-! ## The end -/

theorem repository_run (config : Config) (store : σ) (r : Repository) :
    (run config store r).repository = prepare config r := by
  simp only [run]
  split
  · rfl
  · split <;> rfl

/-- The steps that can fail, in their order. -/
theorem result_run (config : Config) (store : σ) (r : Repository) :
    (run config store r).result =
      match (prepare config r).readText store (.ofString config.path),
        (prepare config r).report store with
      | .error f, _ => .error (.reading config.path f)
      | .ok _, .error f => .error (.reporting f)
      | .ok _, .ok report => .ok report := by
  cases htext : (prepare config r).readText store (.ofString config.path) with
  | error f => rw [run_of_read_error htext]
  | ok text =>
      cases hreport : (prepare config r).report store with
      | error f => rw [run_of_report_error htext hreport]
      | ok report => rw [run_of_report htext hreport]

theorem result_run_eq_reading_iff {name : String} {f : Fault} :
    (run config store r).result = .error (.reading name f) ↔
      name = config.path ∧
        (prepare config r).readText store (.ofString config.path) = .error f := by
  rw [result_run]
  split <;> simp [*, eq_comm]

theorem result_run_eq_reporting_iff {f : Fault} :
    (run config store r).result = .error (.reporting f) ↔
      (∃ text, (prepare config r).readText store (.ofString config.path) = .ok text) ∧
        (prepare config r).report store = .error f := by
  rw [result_run]
  split <;> simp [*]

theorem result_run_eq_ok_iff {report : Report} :
    (run config store r).result = .ok report ↔
      (∃ text, (prepare config r).readText store (.ofString config.path) = .ok text) ∧
        (prepare config r).report store = .ok report := by
  rw [result_run]
  split <;> simp [*]

/-- **The steps** end as the walkthrough does, and leave the store as it is. -/
theorem on_steps (config : Config) (store : σ) (r : Repository) :
    ∃ written, (steps config).on ⟨⟨r, store⟩, []⟩
        = ((run config store r).result, ⟨⟨(run config store r).repository, store⟩, written⟩) ∧
      String.join written = (run config store r).output := by
  cases htext : (prepare config r).readText store (.ofString config.path) with
  | error f =>
      rw [run_of_read_error htext]
      exact ⟨_, on_steps_of_read_error htext, join_beginning _⟩
  | ok text =>
      cases hreport : (prepare config r).report store with
      | error f =>
          rw [run_of_report_error htext hreport]
          refine ⟨_, on_steps_of_report_error htext hreport, ?_⟩
          rw [String.join_append, join_beginning, join_showing]
      | ok report =>
          rw [run_of_report htext hreport]
          exact ⟨_, on_steps_of_report htext hreport, join_transcript ..⟩

end Walkthrough

open Walkthrough in
/-- **Walkthroughs end exactly.**  On any repository over any store:

* made step by step, a walkthrough leaves the store as it is, and otherwise what `run` says;
* the head and the options stay, and so does the tree if the file was there; if not, the tree has
  the content at its path and is otherwise as it was, however the walkthrough ends;
* reading fails exactly if the file was there and does not read as text, because its object is not
  given out or because its content is no text, and then all parts from the content on are missing
  from the transcript, which properly goes on after the output;
* reporting fails exactly if the file reads and the store denies having an object of the tree, and
  then only the report is missing from the transcript, which properly goes on after the output
  unless the form is that for a program and the report has nothing to commit;
* a walkthrough that succeeds gives the report by the repository's own options and has written the
  whole transcript, and the next one changes nothing and gives the same report. -/
theorem walkthroughs_end_exactly {σ : Type} [ObjectStore σ] (config : Config) (store : σ)
    (r : Repository) :
    let path := Path.ofString config.path
    let live := r.isLive path
    let out := run config store r
    let walked := (steps config).on ⟨⟨r, store⟩, []⟩
    (walked.1 = out.result ∧ walked.2.host = ⟨out.repository, store⟩ ∧
      String.join walked.2.written = out.output) ∧
    (out.repository.head = r.head ∧ out.repository.options = r.options ∧
      (live = true → out.repository.tree = r.tree) ∧
      (live = false → ∀ p, out.repository.tree.lookup p =
        if p = path then some (.written config.content.toUTF8) else r.tree.lookup p)) ∧
    (∀ name f, out.result = .error (.reading name f) ↔
      name = config.path ∧ live = true ∧ r.readText store path = .error f) ∧
    (∀ name f, out.result = .error (.reading name f) →
      ((∃ d, f = .corrupt path d) ∨ ∃ m, f = .invalidEncoding path m) ∧
      ∀ text report,
        transcript config live text report =
          walked.2.written ++ (showing text ++ [report.render config.format]) ∧
        Text.ProperlyBegins out.output (String.join (transcript config live text report))) ∧
    ((∃ f, out.result = .error (.reporting f)) ↔
      (∃ text, out.repository.readText store path = .ok text) ∧
        ∃ p d, r.tree.Missing store p d) ∧
    (∀ f, out.result = .error (.reporting f) →
      ∃ text, out.repository.readText store path = .ok text ∧
        ∀ report,
          transcript config live text report =
            walked.2.written ++ [report.render config.format] ∧
          String.join (transcript config live text report) =
            out.output ++ report.render config.format ∧
          (Text.ProperlyBegins out.output (String.join (transcript config live text report)) ↔
            ¬ (config.format = .porcelain ∧ report.isClean = true))) ∧
    ∀ report, out.result = .ok report →
      out.repository.reportWith r.options store = .ok report ∧
      (∃ text, out.repository.readText store path = .ok text ∧
        walked.2.written = transcript config live text report) ∧
      (run config store out.repository).repository = out.repository ∧
      (run config store out.repository).result = .ok report := by
  intro path live out walked
  have hrepository : out.repository = prepare config r := repository_run config store r
  obtain ⟨hhead, hoptions⟩ := head_prepare config r
  refine ⟨?_, ⟨?_, ?_, ?_, ?_⟩, ?_, ?_, ?_, ?_, ?_⟩
  · obtain ⟨written, hwalked, hjoin⟩ := on_steps config store r
    rw [show walked = _ from hwalked]
    exact ⟨rfl, rfl, hjoin⟩
  · rw [hrepository, hhead]
  · rw [hrepository, hoptions]
  · intro hlive
    rw [hrepository, prepare_of_live hlive]
  · intro hlive
    rw [hrepository]
    exact lookup_prepare_of_not_live hlive
  · intro name f
    rw [← readText_prepare_eq_error_iff]
    exact result_run_eq_reading_iff
  · intro name f hf
    obtain ⟨-, htext⟩ := result_run_eq_reading_iff.mp hf
    obtain ⟨hlive, hread⟩ := readText_prepare_eq_error_iff.mp htext
    refine ⟨Tree.readText_error_cases hlive hread, fun text report => ⟨?_, ?_⟩⟩
    · rw [show walked = _ from on_steps_of_read_error htext]
      exact List.append_assoc _ _ _
    · rw [show out = _ from run_of_read_error htext, join_transcript, String.append_assoc]
      exact Text.properlyBegins_append_iff.mpr (middle_append_ne_empty text _)
  · rw [hrepository, ← exists_report_prepare_error_iff, ← exists_and_left]
    exact exists_congr fun f => result_run_eq_reporting_iff
  · intro f hf
    obtain ⟨⟨text, htext⟩, hreport⟩ := result_run_eq_reporting_iff.mp hf
    have houtput : ∀ report, String.join (transcript config live text report) =
        out.output ++ report.render config.format := by
      intro report
      rw [show out = _ from run_of_report_error htext hreport]
      exact join_transcript ..
    refine ⟨text, hrepository ▸ htext, fun report => ⟨?_, houtput report, ?_⟩⟩
    · rw [show walked = _ from on_steps_of_report_error htext hreport]
      rfl
    · rw [houtput report, Text.properlyBegins_append_iff]
      exact not_congr Report.render_eq_empty_iff
  · intro report hok
    obtain ⟨⟨text, htext⟩, hreport⟩ := result_run_eq_ok_iff.mp hok
    rw [hrepository, show walked = _ from on_steps_of_report htext hreport]
    refine ⟨hoptions ▸ hreport, ⟨text, htext, rfl⟩, ?_, ?_⟩
    · rw [repository_run, prepare_prepare]
    · rw [result_run_eq_ok_iff, prepare_prepare]
      exact ⟨⟨text, htext⟩, hreport⟩

open Walkthrough in
/-- A committed file whose object the store denies having although it gives it out, and then the
other way round. -/
theorem walkthroughs_end_exactly_over_lost_object :
    let a : ByteArray := ⟨#[0x61]⟩
    let damaged : Damage → DamagedStore :=
      (DamagedStore.ofStore (ObjectStore.putAll Store.empty [a])).setDamage (.ofContent a)
    let r : Repository :=
      { tree := ⟨.ofList [(.ofString "d/kept", .committed (.ofContent a))]⟩
        head := .ofList [(.ofString "d/kept", .ofContent a)]
        options := {} }
    let beside : Config := { path := "d//new", content := "é" }
    let kept : Config := { path := "/d/./kept" }
    (∃ f, (run beside (damaged ⟨false, true⟩) r).result = .error (.reporting f)) ∧
      (run beside (damaged ⟨false, true⟩) r).repository.tree.lookup (.ofString "d/new")
        = some (.written ⟨#[0xc3, 0xa9]⟩) ∧
      (∃ text, ∀ report, Text.ProperlyBegins (run beside (damaged ⟨false, true⟩) r).output
        (String.join (transcript beside false text report))) ∧
      (∃ f, (run kept (damaged ⟨false, true⟩) r).result = .error (.reporting f)) ∧
      (run kept (damaged ⟨true, false⟩) r).result
        = .error (.reading "/d/./kept" (.corrupt (.ofString "d/kept") (.ofContent a))) ∧
      (run kept (damaged ⟨true, false⟩) r).repository.tree = r.tree ∧
      ∀ text report, Text.ProperlyBegins (run kept (damaged ⟨true, false⟩) r).output
        (String.join (transcript kept true text report)) := by
  intro a damaged r beside kept
  have hmissing : r.tree.Missing (damaged ⟨false, true⟩) (.ofString "d/kept") (.ofContent a) := by
    exact ⟨by decide +kernel, by decide +kernel⟩
  have hnew : r.isLive (.ofString beside.path) = false := by decide +kernel
  have hkept : r.isLive (.ofString kept.path) = true := by decide +kernel
  obtain ⟨-, ⟨-, -, -, hwritten⟩, -, -, hbeside, hbroken, -⟩ :=
    walkthroughs_end_exactly beside (damaged ⟨false, true⟩) r
  obtain ⟨-, -, -, -, hdenied, -⟩ := walkthroughs_end_exactly kept (damaged ⟨false, true⟩) r
  obtain ⟨-, ⟨-, -, hkeeps, -⟩, hreading, hunread, -⟩ :=
    walkthroughs_end_exactly kept (damaged ⟨true, false⟩) r
  have hreports : ∃ f, (run beside (damaged ⟨false, true⟩) r).result = .error (.reporting f) :=
    hbeside.mpr ⟨⟨"é", by decide +kernel⟩, _, _, hmissing⟩
  have hreads : (run kept (damaged ⟨true, false⟩) r).result
      = .error (.reading "/d/./kept" (.corrupt (.ofString "d/kept") (.ofContent a))) :=
    (hreading _ _).mpr ⟨rfl, hkept, by decide +kernel⟩
  refine ⟨hreports, ?_, ?_, hdenied.mpr ⟨⟨"a", by decide +kernel⟩, _, _, hmissing⟩, hreads,
    hkeeps hkept, ?_⟩
  · rw [hwritten hnew]
    decide +kernel
  · obtain ⟨f, hf⟩ := hreports
    obtain ⟨text, -, hparts⟩ := hbroken f hf
    rw [hnew] at hparts
    exact ⟨text, fun report => (hparts report).2.2.mpr (by simp [beside])⟩
  · obtain ⟨-, hparts⟩ := hunread _ _ hreads
    rw [hkept] at hparts
    exact fun text report => (hparts text report).2

open Walkthrough in
/-- **A failure may come last.**  A file is written and committed, and then the store denies having
its object.  As nothing has changed, the report is empty in the form for a program, so a walkthrough
that fails for want of the report has written all that the same walkthrough writes over the intact
store, and the whole does not properly go on after it. -/
theorem reporting_failure_may_come_last :
    let a : ByteArray := ⟨#[0x61]⟩
    let committed : Host Store :=
      (((⟨.empty, .empty⟩ : Host Store).change (.write "d/kept" a)).2.change .commit).2
    let r := committed.repository
    let intact := DamagedStore.ofStore committed.store
    let denying := intact.setDamage (.ofContent a) ⟨false, true⟩
    let config : Config := { path := "d/kept", format := .porcelain }
    (run config denying r).result
        = .error (.reporting (.corrupt (.ofString "d/kept") (.ofContent a))) ∧
      (run config intact r).result = .ok (.ofLines []) ∧
      (run config intact r).output = String.join (transcript config true "a" (.ofLines [])) ∧
      ¬ Text.ProperlyBegins (run config denying r).output (run config intact r).output := by
  intro a committed r intact denying config
  refine ⟨by decide +kernel, by decide +kernel, by decide +kernel, ?_⟩
  have hsame : (run config intact r).output = (run config denying r).output ++ "" := by
    decide +kernel
  rw [hsame, Text.properlyBegins_append_iff]
  exact not_not_intro rfl

end Worktree
