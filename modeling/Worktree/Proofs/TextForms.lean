import Mathlib.Data.List.Basic
import Worktree.Report

/-!
# The two text forms of a report

A report is written for a reader, a line for each of its lines or one line that says that all is
clean; and it is written for a program, with a code of two characters in place of the status and
without the lines that are unmodified.  This file reads both forms back and compares them.

* `Text.lines?` cuts a text at its line feeds; `Line.ofHuman?` and `Line.ofPorcelain?` take one line
  of either form apart.
* `Report.readLines?_join` says when a form reads back: each line has a body without line feeds, and
  the reader knows the line from its body.
* `Report.isClean_iff`, `Report.porcelain_eq_empty_iff` and `Report.human_eq_cleanText_iff` say how
  a clean report shows in each form.

`Report.text_forms_lose_nothing` collects this.
-/

namespace Worktree

/-! ## Reading the forms -/

namespace Text

/-- The lines of a text, each without the line feed at its end; nothing if the last line has no line
feed. -/
def lines? (t : String) : Option (List (List Char)) :=
  let pieces := t.toList.splitOn '\n'
  if pieces.getLast? = some [] then some pieces.dropLast else none

/-- Lines with a line feed at the end of each are cut there. -/
theorem splitOn_flatMap_feed {lines : List (List Char)} (h : ∀ l ∈ lines, '\n' ∉ l) :
    (lines.flatMap (· ++ ['\n'])).splitOn '\n' = lines ++ [[]] := by
  induction lines with
  | nil => rfl
  | cons l rest ih =>
      have hl : '\n' ∉ l := h l List.mem_cons_self
      have hrest := ih fun m hm => h m (List.mem_cons_of_mem l hm)
      rw [List.flatMap_cons, List.append_assoc, List.singleton_append,
        List.splitOn_append_cons_self, List.splitOn_eq_singleton hl, hrest]
      rfl

theorem lines?_eq_some {t : String} {lines : List (List Char)}
    (ht : t.toList = lines.flatMap (· ++ ['\n'])) (h : ∀ l ∈ lines, '\n' ∉ l) :
    lines? t = some lines := by
  unfold lines?
  rw [ht, splitOn_flatMap_feed h]
  simp

end Text

namespace Status

/-- The status with a given code. -/
def ofCode? (code : String) : Option Status :=
  all.find? fun s => s.code? == some code

end Status

namespace Line

/-- A line for a reader, taken apart: the status before the first blank, the path after it. -/
def ofHuman? (cs : List Char) : Option Line :=
  match cs.dropWhile (· != ' ') with
  | [] => none
  | _ :: path =>
    (Status.ofLabel? (String.ofList (cs.takeWhile (· != ' ')))).map fun s =>
      ⟨String.ofList path, s⟩

/-- A line for a program, taken apart: the code in the first two characters, then one blank, and the
path. -/
def ofPorcelain? : List Char → Option Line
  | a :: b :: ' ' :: path =>
    (Status.ofCode? (String.ofList [a, b])).map fun s => ⟨String.ofList path, s⟩
  | _ => none

end Line

namespace Report

/-- Reads a text line by line. -/
def readLines? (reader : List Char → Option Line) (t : String) : Option (List Line) := do
  let lines ← Text.lines? t
  lines.mapM reader

end Report

/-! ## One line -/

namespace Status

theorem ofLabel?_label (s : Status) : ofLabel? s.label = some s := by
  cases s <;> decide

theorem ofCode?_of_code? {s : Status} {code : String} (h : s.code? = some code) :
    ofCode? code = some s := by
  cases s with
  | unmodified => exact absurd h nofun
  | _ =>
      obtain rfl := Option.some.inj h
      decide

/-- A label holds no blank and no line feed. -/
theorem plain_label (s : Status) : ∀ c ∈ s.label.toList, c ≠ ' ' ∧ c ≠ '\n' := by
  cases s <;> simp [label]

/-- A code is two characters, and a blank may be one of them. -/
theorem exists_of_code? {s : Status} {code : String} (h : s.code? = some code) :
    ∃ a b, code.toList = [a, b] ∧ a ≠ '\n' ∧ b ≠ '\n' := by
  cases s with
  | unmodified => exact absurd h nofun
  | _ =>
      obtain rfl := Option.some.inj h
      exact ⟨_, _, rfl, by decide, by decide⟩

theorem code?_eq_none_iff {s : Status} : s.code? = none ↔ s = .unmodified := by
  cases s <;> simp [code?]

end Status

namespace Line

/-- What stands before the line feed, when a path comes after a label or a code. -/
def body (mark path : String) : List Char :=
  mark.toList ++ ' ' :: path.toList

theorem toList_human (l : Line) : l.human.toList = body l.status.label l.path ++ ['\n'] := by
  simp [human, body]

theorem toList_porcelain {l : Line} {code : String} (h : l.status.code? = some code) :
    l.porcelain.toList = body code l.path ++ ['\n'] := by
  simp [porcelain, h, body]

/-- What stands before the line feed in the form for a program, if the line is listed there. -/
def porcelainBody (l : Line) : List Char :=
  body (l.status.code?.getD "") l.path

theorem porcelainBody_eq {l : Line} {code : String} (h : l.status.code? = some code) :
    l.porcelainBody = body code l.path := by
  rw [porcelainBody, h, Option.getD_some]

theorem feed_not_mem_body {mark path : String} (hmark : '\n' ∉ mark.toList)
    (hpath : '\n' ∉ path.toList) : '\n' ∉ body mark path := by
  simp [body, hmark, hpath]

/-- The first blank ends the label, whatever the path begins with. -/
theorem ofHuman?_body (l : Line) : ofHuman? (body l.status.label l.path) = some l := by
  have hblank : ∀ c ∈ l.status.label.toList, (c != ' ') = true := by
    intro c hc
    simpa using (l.status.plain_label c hc).1
  have htake : (body l.status.label l.path).takeWhile (· != ' ') = l.status.label.toList := by
    rw [body, List.takeWhile_append_of_pos hblank]
    simp
  have hdrop : (body l.status.label l.path).dropWhile (· != ' ') = ' ' :: l.path.toList := by
    rw [body, List.dropWhile_append_of_pos hblank]
    simp
  unfold ofHuman?
  rw [hdrop, htake]
  simp only [String.ofList_toList, Status.ofLabel?_label]
  rfl

/-- The code ends after two characters, even if there is a blank among them. -/
theorem ofPorcelain?_body {l : Line} {code : String} (h : l.status.code? = some code) :
    ofPorcelain? (body code l.path) = some l := by
  obtain ⟨a, b, hcode, -, -⟩ := Status.exists_of_code? h
  have hback : String.ofList [a, b] = code := by rw [← hcode, String.ofList_toList]
  rw [body, hcode]
  show (Status.ofCode? (String.ofList [a, b])).map _ = some l
  rw [hback, Status.ofCode?_of_code? h, String.ofList_toList]
  rfl

end Line

/-! ## Whole reports -/

namespace Report

/-- **A form reads back** when every line is written as a body and a line feed, no body has a line
feed in it, and the reader knows each line from its body. -/
theorem readLines?_join {reader : List Char → Option Line} {write : Line → String}
    {bodyOf : Line → List Char} {lines : List Line}
    (hwrite : ∀ l ∈ lines, (write l).toList = bodyOf l ++ ['\n'])
    (hfeed : ∀ l ∈ lines, '\n' ∉ bodyOf l) (hread : ∀ l ∈ lines, reader (bodyOf l) = some l) :
    readLines? reader (String.join (lines.map write)) = some lines := by
  have htext : (String.join (lines.map write)).toList =
      (lines.map bodyOf).flatMap (· ++ ['\n']) := by
    rw [String.toList_join, List.flatMap_map, List.flatMap_map]
    exact List.flatMap_congr hwrite
  have hlines : Text.lines? (String.join (lines.map write)) = some (lines.map bodyOf) :=
    Text.lines?_eq_some htext (List.forall_mem_map.mpr hfeed)
  have hall : (lines.map bodyOf).mapM reader = some lines := by
    clear hwrite hfeed htext hlines
    induction lines with
    | nil => rfl
    | cons l rest ih =>
        have hrest := ih fun m hm => hread m (List.mem_cons_of_mem l hm)
        rw [List.map_cons, List.mapM_cons, hread l List.mem_cons_self, hrest]
        rfl
  unfold readLines?
  rw [hlines]
  exact hall

theorem readLines?_human {lines : List Line} (h : ∀ l ∈ lines, '\n' ∉ l.path.toList) :
    readLines? Line.ofHuman? (String.join (lines.map Line.human)) = some lines := by
  refine readLines?_join (fun l _ => l.toList_human) ?_ (fun l _ => l.ofHuman?_body)
  intro l hl
  exact Line.feed_not_mem_body (fun hmem => (l.status.plain_label _ hmem).2 rfl) (h l hl)

/-- The lines that the form for a program shows. -/
def changes (r : Report) : List Line :=
  r.lines.filter fun l => l.status != .unmodified

theorem exists_code_of_mem_changes {r : Report} {l : Line} (h : l ∈ r.changes) :
    ∃ code, l.status.code? = some code := by
  have hchanged : l.status ≠ .unmodified := by simpa using (List.mem_filter.mp h).2
  exact Option.ne_none_iff_exists'.mp (mt Status.code?_eq_none_iff.mp hchanged)

/-- Lines that are not shown leave no trace in the text. -/
theorem porcelain_eq_join_changes (r : Report) :
    r.porcelain = String.join (r.changes.map Line.porcelain) := by
  apply String.toList_injective
  rw [porcelain, changes, String.toList_join, String.toList_join]
  induction r.lines with
  | nil => rfl
  | cons l rest ih =>
      by_cases hl : l.status = .unmodified
      · have hnone : l.porcelain = "" := by rw [Line.porcelain, hl]; rfl
        simp [hl, hnone, ih]
      · simp [hl, ih]

theorem readLines?_porcelain {r : Report} (h : ∀ l ∈ r.lines, '\n' ∉ l.path.toList) :
    readLines? Line.ofPorcelain? r.porcelain = some r.changes := by
  have hwrite : ∀ l ∈ r.changes, l.porcelain.toList = l.porcelainBody ++ ['\n'] := by
    intro l hl
    obtain ⟨code, hcode⟩ := exists_code_of_mem_changes hl
    rw [Line.porcelainBody_eq hcode, Line.toList_porcelain hcode]
  rw [porcelain_eq_join_changes]
  refine readLines?_join hwrite ?_ ?_
  · intro l hl
    have hpath : '\n' ∉ l.path.toList := h l (List.mem_filter.mp hl).1
    obtain ⟨code, hcode⟩ := exists_code_of_mem_changes hl
    obtain ⟨a, b, hchars, ha, hb⟩ := Status.exists_of_code? hcode
    rw [Line.porcelainBody_eq hcode]
    exact Line.feed_not_mem_body (by simp [hchars, ha.symm, hb.symm]) hpath
  · intro l hl
    obtain ⟨code, hcode⟩ := exists_code_of_mem_changes hl
    rw [Line.porcelainBody_eq hcode, Line.ofPorcelain?_body hcode]

/-! ### Clean reports -/

theorem isClean_iff {r : Report} : r.isClean = true ↔ ∀ l ∈ r.lines, l.status = .unmodified := by
  simp [isClean]

theorem changes_eq_nil_iff {r : Report} : r.changes = [] ↔ r.isClean = true := by
  rw [isClean_iff, changes, List.filter_eq_nil_iff]
  simp

theorem porcelain_eq_empty_iff {r : Report} : r.porcelain = "" ↔ r.isClean = true := by
  rw [← changes_eq_nil_iff, porcelain_eq_join_changes]
  constructor
  · intro hempty
    cases hchanges : r.changes with
    | nil => rfl
    | cons l rest =>
        obtain ⟨code, hcode⟩ := exists_code_of_mem_changes (hchanges ▸ List.mem_cons_self)
        have hchars := congrArg String.toList hempty
        rw [hchanges, String.toList_join, List.map_cons, List.flatMap_cons,
          Line.toList_porcelain hcode] at hchars
        exact absurd hchars (by simp)
  · intro hnil
    rw [hnil]
    rfl

/-- What says that all is clean begins as no line does. -/
theorem human_eq_cleanText_iff {r : Report} : r.human = cleanText ↔ r.isClean = true := by
  cases hclean : r.isClean with
  | true => simp [human, hclean]
  | false =>
      have hbegin : ∀ l : Line, ∀ rest, (l.human.toList ++ rest).head? ≠ some 'n' := by
        intro l rest
        rw [Line.toList_human, Line.body]
        cases l.status <;> simp [Status.label]
      cases hlines : r.lines with
      | nil => exact absurd hclean (by simp [isClean, hlines])
      | cons l rest =>
          have hhuman : r.human.toList =
              l.human.toList ++ (rest.map Line.human).flatMap String.toList := by
            simp [human, hclean, hlines]
          refine iff_of_false ?_ (by decide)
          intro heq
          apply hbegin l ((rest.map Line.human).flatMap String.toList)
          rw [← hhuman, heq]
          rfl

/-- No line reads as what says that all is clean. -/
theorem readLines?_cleanText : readLines? Line.ofHuman? cleanText = none := by
  decide +kernel

theorem count_eq_zero_iff {r : Report} {s : Status} :
    r.count s = 0 ↔ ∀ l ∈ r.lines, l.status ≠ s := by
  rw [count, List.countP_eq_zero]
  simp

/-- Every line is counted once. -/
theorem countP_add_countP (lines : List Line) :
    lines.countP (·.status == .untracked) + lines.countP (·.status == .added)
      + lines.countP (·.status == .modified) + lines.countP (·.status == .deleted)
      + lines.countP (·.status == .unmodified) = lines.length := by
  induction lines with
  | nil => rfl
  | cons l rest ih =>
      simp only [List.countP_cons, List.length_cons]
      cases l.status <;> simp <;> omega

/-- **The text forms lose nothing.**  A report is clean exactly if the form for a program is empty,
exactly if the form for a reader is the one line that says so, and exactly if nothing but unmodified
lines is counted; all counts together are the number of lines.

If no path has a line feed in it, the form for a program, cut at its line feeds, gives back all
lines that are not unmodified, in order; and the form for a reader gives back all lines, in order,
unless the report is clean.  Then it is no listing at all. -/
theorem text_forms_lose_nothing (r : Report) :
    (r.isClean = true ↔ r.porcelain = "") ∧
    (r.isClean = true ↔ r.human = "nothing to commit, working tree clean\n") ∧
    (r.isClean = true ↔ r.summary.untracked = 0 ∧ r.summary.added = 0 ∧ r.summary.modified = 0 ∧
      r.summary.deleted = 0) ∧
    r.summary.untracked + r.summary.added + r.summary.modified + r.summary.deleted
      + r.summary.unmodified = r.size ∧
    ((∀ l ∈ r.lines, '\n' ∉ l.path.toList) →
      readLines? Line.ofPorcelain? r.porcelain
        = some (r.lines.filter fun l => l.status != .unmodified) ∧
      (r.isClean = false → readLines? Line.ofHuman? r.human = some r.lines) ∧
      (r.isClean = true → readLines? Line.ofHuman? r.human = none)) := by
  refine ⟨porcelain_eq_empty_iff.symm, human_eq_cleanText_iff.symm, ?_, ?_, ?_⟩
  · simp only [summary, count_eq_zero_iff, isClean_iff]
    constructor
    · intro hclean
      refine ⟨?_, ?_, ?_, ?_⟩ <;> intro l hl <;> simp [hclean l hl]
    · intro hcounts l hl
      obtain ⟨huntracked, hadded, hmodified, hdeleted⟩ := hcounts
      cases hs : l.status with
      | unmodified => rfl
      | untracked => exact absurd hs (huntracked l hl)
      | added => exact absurd hs (hadded l hl)
      | modified => exact absurd hs (hmodified l hl)
      | deleted => exact absurd hs (hdeleted l hl)
  · exact countP_add_countP r.lines
  · intro h
    refine ⟨readLines?_porcelain h, ?_, ?_⟩
    · intro hchanged
      rw [human, if_neg (by simp [hchanged])]
      exact readLines?_human h
    · intro hclean
      rw [human, if_pos hclean]
      exact readLines?_cleanText

/-- Paths that are empty, that begin or end with a blank, and that look like labels, codes or the
line for a clean report. -/
theorem text_forms_lose_nothing_of_odd_paths :
    let r : Report := ⟨[⟨"", .modified⟩, ⟨"", .unmodified⟩, ⟨" M ", .added⟩,
      ⟨"nothing to commit, working tree clean", .untracked⟩, ⟨"untracked x", .deleted⟩],
      by decide +kernel⟩
    r.porcelain = " M \nA   M \n?? nothing to commit, working tree clean\n D untracked x\n" ∧
      (∀ l ∈ r.lines, '\n' ∉ l.path.toList) ∧ r.isClean = false ∧
      readLines? Line.ofPorcelain? r.porcelain = some [⟨"", .modified⟩, ⟨" M ", .added⟩,
        ⟨"nothing to commit, working tree clean", .untracked⟩, ⟨"untracked x", .deleted⟩] ∧
      readLines? Line.ofHuman? r.human = some r.lines := by
  intro r
  have hfeed : ∀ l ∈ r.lines, '\n' ∉ l.path.toList := by decide
  have hchanged : r.isClean = false := rfl
  obtain ⟨-, -, -, -, hback⟩ := text_forms_lose_nothing r
  obtain ⟨hporcelain, hhuman, -⟩ := hback hfeed
  exact ⟨by decide +kernel, hfeed, hchanged, hporcelain, hhuman hchanged⟩

end Report

end Worktree
