import Mathlib.Data.List.Nodup
import Worktree.Proofs.Spellings
import Worktree.Proofs.Written

/-!
# Reports are sorted, and searched by halving

Lines are looked for by halving a list that must be in path order, so every way of making a report
has to restore that order, also when the lines come from outside.

* `Line.exists_search` — a list in path order that has a line with a path is never halved so that
  all such lines are lost;
* `Report.get?_eq_none_iff` and `Report.mem_of_get?_eq_some` — what a report answers;
* `Report.perm_ofLines` and `Report.filter_ofLines` — sorting keeps the lines, and those with the
  same path in their order;
* `Line.Form` — the JSON values that stand for a line, and `Report.ofJson_of_forms`.
-/

namespace Worktree

namespace Line

/-! ## Halving -/

variable {path : String} {lines : List Line}

/-- Whatever is found is one of the lines and has the path. -/
theorem of_search {l : Line} (h : search path lines = some l) : l ∈ lines ∧ l.path = path := by
  fun_induction search path lines with
  | case1 lines _ _ _ ih =>
      obtain ⟨hl, hpath⟩ := ih h
      exact ⟨List.mem_of_mem_take hl, hpath⟩
  | case2 lines _ _ _ ih =>
      obtain ⟨hl, hpath⟩ := ih h
      exact ⟨List.mem_of_mem_drop hl, hpath⟩
  | case3 lines _ =>
      obtain ⟨hhead, hcompare⟩ := Option.filter_eq_some_iff.mp h
      refine ⟨List.mem_of_mem_head? hhead, ?_⟩
      exact @Std.LawfulEqCmp.eq_of_compare _ Text.compare _ _ _ (of_decide_eq_true hcompare)

theorem precedes_getElem (hsorted : lines.Pairwise fun a b => a.precedes b = true) {i j : Nat}
    (hij : i ≤ j) (hj : j < lines.length) :
    Text.precedes lines[i].path lines[j].path = true := by
  rcases Nat.eq_or_lt_of_le hij with rfl | hlt
  · exact Text.precedes_refl _
  · exact List.pairwise_iff_getElem.mp hsorted i j (by omega) hj hlt

/-- If a line comes after the path, so do all from there on, and they may be left out. -/
theorem exists_mem_take (hsorted : lines.Pairwise fun a b => a.precedes b = true) {n k : Nat}
    (hn : n < lines.length) (hgt : Text.compare lines[n].path path = .gt) (hk : n ≤ k)
    (h : ∃ l ∈ lines, l.path = path) : ∃ l ∈ lines.take k, l.path = path := by
  obtain ⟨l, hl, rfl⟩ := h
  obtain ⟨i, hi, rfl⟩ := List.getElem_of_mem hl
  have hik : i < k := by
    apply Nat.lt_of_not_le
    intro hki
    have hle := precedes_getElem hsorted (Nat.le_trans hk hki) hi
    rw [Text.precedes, hgt] at hle
    exact absurd hle (by decide)
  exact ⟨lines[i], List.mem_take_iff_getElem.mpr ⟨i, by omega, rfl⟩, rfl⟩

/-- If a line does not come after the path, those before it may be left out. -/
theorem exists_mem_drop (hsorted : lines.Pairwise fun a b => a.precedes b = true) {n : Nat}
    (hn : n < lines.length) (hle : Text.compare lines[n].path path ≠ .gt)
    (h : ∃ l ∈ lines, l.path = path) : ∃ l ∈ lines.drop n, l.path = path := by
  obtain ⟨l, hl, rfl⟩ := h
  obtain ⟨i, hi, rfl⟩ := List.getElem_of_mem hl
  have hmem : ∀ {j}, n ≤ j → (hj : j < lines.length) → lines[j] ∈ lines.drop n := by
    intro j hnj hj
    rw [List.mem_drop_iff_getElem]
    exact ⟨j - n, by omega, by simp [Nat.add_sub_cancel' hnj]⟩
  by_cases hni : n ≤ i
  · exact ⟨lines[i], hmem hni hi, rfl⟩
  · -- An earlier line has the path only if this one has it too.
    have hfrom : Text.precedes lines[n].path lines[i].path = true :=
      Ordering.isLE_iff_ne_gt.mpr hle
    have hto := precedes_getElem hsorted (Nat.le_of_not_le hni) hn
    exact ⟨lines[n], hmem (Nat.le_refl n) hn, Text.precedes_antisymm hfrom hto⟩

/-- **Halving finds a line** if there is one. -/
theorem exists_search (hsorted : lines.Pairwise fun a b => a.precedes b = true)
    (h : ∃ l ∈ lines, l.path = path) : ∃ l, search path lines = some l := by
  -- Each step keeps a sorted part, and a line with the path in it.
  fun_induction search path lines with
  | case1 lines _ hn hgt ih =>
      exact ih (hsorted.sublist (List.take_sublist _ _))
        (exists_mem_take hsorted hn hgt (by omega) h)
  | case2 lines _ hn hle ih =>
      exact ih (hsorted.sublist (List.drop_sublist _ _)) (exists_mem_drop hsorted hn hle h)
  | case3 lines hshort =>
      obtain ⟨l, hl, rfl⟩ := h
      obtain ⟨m, rfl⟩ := List.length_eq_one_iff.mp
        (Nat.le_antisymm (Nat.le_of_not_lt hshort) (List.length_pos_of_mem hl))
      obtain rfl := List.mem_singleton.mp hl
      exact ⟨l, by simp⟩

end Line

namespace Report

/-! ## What a report answers -/

/-- Nothing is answered exactly if no line has the path. -/
theorem get?_eq_none_iff {r : Report} {path : String} :
    r.get? path = none ↔ ∀ l ∈ r.lines, l.path ≠ path := by
  rw [get?, Option.map_eq_none_iff]
  constructor
  · intro hnone l hl hpath
    obtain ⟨m, hm⟩ := Line.exists_search r.ascending ⟨l, hl, hpath⟩
    exact absurd (hnone.symm.trans hm) nofun
  · intro hne
    cases hsearch : Line.search path r.lines with
    | none => rfl
    | some l =>
        obtain ⟨hl, hpath⟩ := Line.of_search hsearch
        exact absurd hpath (hne l hl)

/-- What is answered is what a line says. -/
theorem mem_of_get?_eq_some {r : Report} {path : String} {s : Status} (h : r.get? path = some s) :
    ⟨path, s⟩ ∈ r.lines := by
  obtain ⟨l, hsearch, rfl⟩ := Option.map_eq_some_iff.mp h
  obtain ⟨hl, rfl⟩ := Line.of_search hsearch
  exact hl

/-! ## Sorting -/

variable {lines : List Line}

theorem perm_ofLines (lines : List Line) : (ofLines lines).lines.Perm lines :=
  List.mergeSort_perm lines Line.precedes

/-- Lines with the same path keep their order. -/
theorem filter_ofLines (lines : List Line) (path : String) :
    ((ofLines lines).lines.filter fun l => path == l.path) =
      lines.filter fun l => path == l.path :=
  Text.filter_mergeSort Line.path lines path

/-- **Look-ups are exact** when every path comes once. -/
theorem get?_ofLines_eq_some_iff (h : (lines.map Line.path).Nodup) {path : String} {s : Status} :
    (ofLines lines).get? path = some s ↔ ⟨path, s⟩ ∈ lines := by
  have hmem : ∀ {l}, l ∈ (ofLines lines).lines ↔ l ∈ lines := (perm_ofLines lines).mem_iff
  constructor
  · intro hs
    exact hmem.mp (mem_of_get?_eq_some hs)
  · intro hlisted
    cases hanswer : (ofLines lines).get? path with
    | none => exact absurd rfl (get?_eq_none_iff.mp hanswer _ (hmem.mpr hlisted))
    | some u =>
        have hfound := hmem.mp (mem_of_get?_eq_some hanswer)
        have hsame := List.inj_on_of_nodup_map h hfound hlisted rfl
        exact congrArg (fun l => some l.status) hsame

/-- **The order of the lines does not matter** when every path comes once. -/
theorem ofLines_of_perm {others : List Line} (h : (lines.map Line.path).Nodup)
    (hperm : others.Perm lines) : ofLines others = ofLines lines := by
  apply ext_lines
  have hall := (perm_ofLines others).trans (hperm.trans (perm_ofLines lines).symm)
  refine hall.eq_of_pairwise ?_ (ofLines others).ascending (ofLines lines).ascending
  intro a b ha hb hab hba
  have hlisted : a ∈ lines := hperm.mem_iff.mp ((perm_ofLines others).mem_iff.mp ha)
  exact List.inj_on_of_nodup_map h hlisted ((perm_ofLines lines).mem_iff.mp hb)
    (Text.precedes_antisymm hab hba)

end Report

/-! ## Lines as JSON -/

/-- The JSON values that stand for a status: its name, or an object that gives null under it. -/
inductive Status.Form : Json.Node → Status → Prop where
  | name (s : Status) : Form s.toNode s
  | variant (s : Status) : Form (.object [(.text s.label, .null)] true) s

theorem Status.ofNode_of_form {n : Json.Node} {s : Status} (h : Form n s) : ofNode n = .ok s := by
  cases h with
  | name => exact ofNode_toNode s
  | variant => cases s <;> rfl

namespace Line

/-- A member of an object that is no field of a line. -/
structure IsFurther (m : Json.Literal × Json.Node) : Prop where
  name : ∃ t, m.1 = .text t ∧ t ≠ "path" ∧ t ≠ "classification"
  complete : m.2.isComplete = true

/-- The JSON values that stand for a line: an array of its two parts, or an object that has them as
fields, in either order, with further members anywhere. -/
inductive Form : Json.Node → Line → Prop where
  | array {l : Line} {n : Json.Node} (h : Status.Form n l.status) :
      Form (.array [.text l.path, n] true) l
  | pathFirst {l : Line} {n : Json.Node} {before between after : List (Json.Literal × Json.Node)}
      (h : Status.Form n l.status) (hbefore : ∀ m ∈ before, IsFurther m)
      (hbetween : ∀ m ∈ between, IsFurther m) (hafter : ∀ m ∈ after, IsFurther m) :
      Form (.object (before ++ (.text "path", .text l.path) ::
        (between ++ (.text "classification", n) :: after)) true) l
  | statusFirst {l : Line} {n : Json.Node} {before between after : List (Json.Literal × Json.Node)}
      (h : Status.Form n l.status) (hbefore : ∀ m ∈ before, IsFurther m)
      (hbetween : ∀ m ∈ between, IsFurther m) (hafter : ∀ m ∈ after, IsFurther m) :
      Form (.object (before ++ (.text "classification", n) ::
        (between ++ (.text "path", .text l.path) :: after)) true) l

namespace Fields

variable {f g : Fields} {members : List (Json.Literal × Json.Node)}

theorem take_further (f : Fields) {m : Json.Literal × Json.Node} (h : IsFurther m) :
    f.take m = .ok f := by
  obtain ⟨key, n⟩ := m
  obtain ⟨t, rfl, hpath, hstatus⟩ := h.name
  have hskip : n.skip = .ok () := if_pos h.complete
  have hkey : (Json.Literal.text t).asText = .ok t := rfl
  simp only [take, hkey, bind, Except.bind, if_neg hpath, if_neg hstatus, hskip]
  rfl

theorem take_path (hf : f.path = none) (path : String) :
    f.take (.text "path", .text path) = .ok { f with path := some path } := by
  obtain ⟨_, status⟩ := f
  obtain rfl := hf
  rfl

theorem take_status (hf : f.status = none) {n : Json.Node} {s : Status} (h : Status.Form n s) :
    f.take (.text "classification", n) = .ok { f with status := some s } := by
  obtain ⟨path, _⟩ := f
  obtain rfl := hf
  have hread := Status.ofNode_of_form h
  show (do
    let status ← Status.ofNode n
    return { path, status := some status : Fields }) = _
  rw [hread]
  rfl

/-- Further members change nothing. -/
theorem foldlM_take_further (f : Fields) (h : ∀ m ∈ members, IsFurther m) :
    members.foldlM take f = .ok f := by
  induction members with
  | nil => rfl
  | cons m rest ih =>
      rw [List.foldlM_cons, take_further f (h m List.mem_cons_self)]
      exact ih fun x hx => h x (List.mem_cons_of_mem m hx)

/-- Further members before a field change nothing. -/
theorem foldlM_take_append {m : Json.Literal × Json.Node} {rest : List (Json.Literal × Json.Node)}
    (h : ∀ m ∈ members, IsFurther m) (hm : f.take m = .ok g) :
    (members ++ m :: rest).foldlM take f = rest.foldlM take g := by
  rw [List.foldlM_append, foldlM_take_further f h]
  show (do
    let g ← f.take m
    rest.foldlM take g) = _
  rw [hm]
  rfl

end Fields

/-- **Lines read back** from every form of theirs. -/
theorem ofNode_of_form {n : Json.Node} {l : Line} (h : Form n l) : ofNode n = .ok l := by
  cases h with
  | @array _ n hs =>
      have hread := Status.ofNode_of_form hs
      show (do
        let status ← Status.ofNode n
        return (⟨l.path, status⟩ : Line)) = _
      rw [hread]
      rfl
  | pathFirst hs hbefore hbetween hafter =>
      rw [ofNode, Fields.foldlM_take_append hbefore (Fields.take_path rfl l.path),
        Fields.foldlM_take_append hbetween (Fields.take_status rfl hs),
        Fields.foldlM_take_further _ hafter]
      rfl
  | statusFirst hs hbefore hbetween hafter =>
      rw [ofNode, Fields.foldlM_take_append hbefore (Fields.take_status rfl hs),
        Fields.foldlM_take_append hbetween (Fields.take_path rfl l.path),
        Fields.foldlM_take_further _ hafter]
      rfl

end Line

/-- **Reports are read** from arrays of lines in any order and form, and sorted. -/
theorem Report.ofJson_of_forms {items : List Json.Node} {lines : List Line} {t : String}
    (h : List.Forall₂ Line.Form items lines) (ht : (Json.Node.array items true).HasText t) :
    ofJson t = .ok (ofLines lines) := by
  have hread := Json.mapM_eq_ok (h.imp fun _ _ => Line.ofNode_of_form)
  rw [ofJson, Json.Document.read_of_hasText ofNode ht, ofNode, hread]
  rfl

/-- **Reports are sorted and searched.**  An array of forms of some lines, however it is written, is
read as the report of these lines.  A report lists the lines that it was made of in path order, and
those with the same path in the order in which they came.  It answers nothing for a path exactly if
no line has that path, and otherwise what one of these lines says.  So if every path comes once,
look-ups are exact, and the same lines in any order make the same report. -/
theorem Report.sorted_and_searched :
    (∀ (items : List Json.Node) (lines : List Line) (t : String),
      List.Forall₂ Line.Form items lines → (Json.Node.array items true).HasText t →
      ofJson t = .ok (ofLines lines)) ∧
    (∀ lines : List Line,
      (ofLines lines).lines.Pairwise (fun a b => Text.precedes a.path b.path = true) ∧
      (ofLines lines).lines.Perm lines ∧
      ∀ path, ((ofLines lines).lines.filter fun l => path == l.path) =
        lines.filter fun l => path == l.path) ∧
    (∀ (r : Report) (path : String),
      (r.get? path = none ↔ ∀ l ∈ r.lines, l.path ≠ path) ∧
      ∀ s, r.get? path = some s → ⟨path, s⟩ ∈ r.lines) ∧
    ∀ lines : List Line, (lines.map Line.path).Nodup →
      (∀ path s, (ofLines lines).get? path = some s ↔ ⟨path, s⟩ ∈ lines) ∧
      ∀ others : List Line, others.Perm lines → ofLines others = ofLines lines := by
  refine ⟨fun _ _ _ => ofJson_of_forms, ?_, ?_, ?_⟩
  · intro lines
    exact ⟨(ofLines lines).ascending, perm_ofLines lines, filter_ofLines lines⟩
  · intro r path
    exact ⟨get?_eq_none_iff, fun s => mem_of_get?_eq_some⟩
  · intro lines h
    exact ⟨fun path s => get?_ofLines_eq_some_iff h, fun others => ofLines_of_perm h⟩

/-- Three forms in one array, with a path that comes twice; and a report in which none does. -/
theorem Report.sorted_and_searched_over_forms :
    let t := "\n" ++ (Json.Node.array [
      .array [.text "b", .text "deleted"] true,
      .object [(.text "size", .bool true), (.text "classification",
        .object [(.text "added", .null)] true), (.text "path", .text "a")] true,
      .object [(.text "path", .text "b"), (.text "note", .array [] true),
        (.text "classification", .text "untracked")] true] true).render
    ofJson t = .ok (ofLines [⟨"b", .deleted⟩, ⟨"a", .added⟩, ⟨"b", .untracked⟩]) ∧
      (ofLines [⟨"b", .deleted⟩, ⟨"a", .added⟩]).get? "a" = some .added := by
  obtain ⟨hread, -, -, hexact⟩ := sorted_and_searched
  constructor
  · have hsize : Line.IsFurther (.text "size", .bool true) :=
      ⟨⟨"size", rfl, by decide, by decide⟩, rfl⟩
    have hnote : Line.IsFurther (.text "note", .array [] true) :=
      ⟨⟨"note", rfl, by decide, by decide⟩, rfl⟩
    have hnone : ∀ m ∈ [], Line.IsFurther m := nofun
    refine hread _ _ _ ?_ ((Json.Node.hasText_render rfl).blank (c := '\n') (by decide))
    refine .cons ?_ (.cons ?_ (.cons ?_ .nil))
    · exact .array (l := ⟨"b", .deleted⟩) (.name .deleted)
    · exact .statusFirst (l := ⟨"a", .added⟩) (.variant .added)
        (List.forall_mem_singleton.mpr hsize) hnone hnone
    · exact .pathFirst (l := ⟨"b", .untracked⟩) (.name .untracked) hnone
        (List.forall_mem_singleton.mpr hnote) hnone
  · exact ((hexact [⟨"b", .deleted⟩, ⟨"a", .added⟩] (by decide)).1 "a" .added).mpr (by decide)

end Worktree
