import Worktree.Proofs.FirstMissing

/-!
# What a report lists

A report compares the files of a tree with a snapshot by digest.  This file says exactly what it
lists, for every tree, every snapshot and every store:

* `Tree.WorkingDigest` is the digest of the content that a path has in the tree;
* `Tree.Stands` is the table of the comparison, one rule for each status that it can give;
* `lines_difference` says that sorting has nothing to do, since the paths come in order;
* `mem_lines_difference_iff` reads the lines of a report off the digests of the two sides;
* `Tree.reportByPath` makes a report in one pass over the paths, which looks for each object when the
  turn of its path comes, and `Tree.reportByPath_eq_report` says that it is the same report;
* `report_lists_exactly` puts this together with the way a report fails.
-/

namespace Worktree

/-! ## Lines -/

namespace Snapshot

theorem get?_statuses (current recorded : Snapshot) (p : Path) :
    (current.statuses recorded).get? p
      = Status.ofDigests (current.lookup p) (recorded.lookup p) :=
  OrderedMap.get?_merge (fun _ => rfl) current.entries recorded.entries p

/-- The statuses that the options admit, as lines. -/
def admittedLines (o : ReportOptions) (statuses : OrderedMap Path Status) : List Line :=
  (statuses.toList.filter fun b => o.admits b.2).map fun b => ⟨b.1.text, b.2⟩

/-- Lines made from a map come in strictly ascending byte order of their paths. -/
theorem pairwise_admittedLines (o : ReportOptions) (statuses : OrderedMap Path Status) :
    (admittedLines o statuses).Pairwise fun a b => Text.compare a.path b.path = .lt :=
  List.pairwise_map.mpr (statuses.ascending.filter _)

/-- Sorting a report has nothing to do: its lines are the admitted statuses in path order. -/
theorem lines_difference (o : ReportOptions) (current recorded : Snapshot) :
    (current.difference o recorded).lines = admittedLines o (current.statuses recorded) := by
  refine List.mergeSort_of_pairwise
    ((pairwise_admittedLines o (current.statuses recorded)).imp ?_)
  intro a b hlt
  show (Text.compare a.path b.path).isLE = true
  rw [hlt]
  rfl

/-- A report lists a path exactly with the status of its two digests, if that is admitted. -/
theorem mem_lines_difference_iff {o : ReportOptions} {current recorded : Snapshot} {l : Line} :
    l ∈ (current.difference o recorded).lines ↔
      ∃ p, l.path = p.text ∧
        Status.ofDigests (current.lookup p) (recorded.lookup p) = some l.status ∧
        o.admits l.status = true := by
  rw [lines_difference, admittedLines, List.mem_map]
  constructor
  · intro h
    obtain ⟨⟨p, s⟩, hmem, rfl⟩ := h
    obtain ⟨hlisted, hadmitted⟩ := List.mem_filter.mp hmem
    refine ⟨p, rfl, ?_, hadmitted⟩
    rw [← get?_statuses]
    exact OrderedMap.get?_eq_some_iff.mpr hlisted
  · intro h
    obtain ⟨p, hpath, hstatus, hadmitted⟩ := h
    rw [← get?_statuses] at hstatus
    have hlisted := OrderedMap.get?_eq_some_iff.mp hstatus
    refine ⟨(p, l.status), List.mem_filter.mpr ⟨hlisted, hadmitted⟩, ?_⟩
    rw [← hpath]

/-- A full report of a snapshot against itself lists its paths, all of them unmodified. -/
theorem lines_difference_self (s : Snapshot) :
    (s.difference .full s).lines = s.paths.map fun p => ⟨p.text, .unmodified⟩ := by
  have hstatuses : s.statuses s = s.entries.mapWithKey fun _ _ => .unmodified := by
    refine OrderedMap.ext_get? fun p => ?_
    rw [get?_statuses, OrderedMap.get?_mapWithKey, lookup]
    cases s.entries.get? p <;> simp [Status.ofDigests]
  have hadmits : ∀ b ∈ (s.statuses s).toList, ReportOptions.full.admits b.2 = true :=
    fun _ _ => rfl
  rw [lines_difference, admittedLines, List.filter_eq_self.mpr hadmits, hstatuses]
  simp [OrderedMap.mapWithKey, paths, OrderedMap.keys]

/-- Against the snapshot without paths every path is untracked, whatever is asked for. -/
theorem lines_difference_empty (o : ReportOptions) (s : Snapshot) :
    (s.difference o .empty).lines = s.paths.map fun p => ⟨p.text, .untracked⟩ := by
  have hstatuses : s.statuses .empty = s.entries.mapWithKey fun _ _ => .untracked := by
    refine OrderedMap.ext_get? fun p => ?_
    rw [get?_statuses, OrderedMap.get?_mapWithKey, lookup]
    cases s.entries.get? p <;> rfl
  have hadmits : ∀ b ∈ (s.statuses .empty).toList, o.admits b.2 = true := by
    rw [hstatuses]
    intro b hb
    obtain ⟨c, -, rfl⟩ := List.mem_map.mp hb
    simp [ReportOptions.admits]
  rw [lines_difference, admittedLines, List.filter_eq_self.mpr hadmits, hstatuses]
  simp [OrderedMap.mapWithKey, paths, OrderedMap.keys]

end Snapshot

/-! ## The table -/

namespace Tree

/-- The path is live, and its content has this digest: the digest of what was written, or the
committed digest itself. -/
inductive WorkingDigest (t : Tree) (p : Path) : Digest → Prop where
  | written {content : ByteArray} (h : t.lookup p = some (.written content)) :
      WorkingDigest t p (.ofContent content)
  | committed {d : Digest} (h : t.lookup p = some (.committed d)) : WorkingDigest t p d

theorem lookup_digests_eq_some_iff {t : Tree} {p : Path} {d : Digest} :
    t.digests.lookup p = some d ↔ t.WorkingDigest p d := by
  rw [lookup_digests, Option.bind_eq_some_iff]
  constructor
  · intro h
    obtain ⟨e, he, hd⟩ := h
    cases e with
    | removed => exact absurd hd nofun
    | written content =>
        obtain rfl := Option.some.inj hd
        exact .written he
    | committed d' =>
        obtain rfl := Option.some.inj hd
        exact .committed he
  · intro h
    cases h with
    | written he => exact ⟨_, he, rfl⟩
    | committed he => exact ⟨_, he, rfl⟩

theorem lookup_digests_eq_none_iff {t : Tree} {p : Path} :
    t.digests.lookup p = none ↔ t.lookup p = none ∨ t.lookup p = some .removed := by
  rw [lookup_digests]
  cases t.lookup p with
  | none => simp
  | some e => cases e <;> simp [Entry.digest?]

/-- How a path of the tree stands against a snapshot.  A path that neither side has stands nowhere;
no path is ever `added`. -/
inductive Stands (t : Tree) (s : Snapshot) (o : ReportOptions) (p : Path) : Status → Prop where
  /-- Only the tree has a file of this name. -/
  | untracked (hlive : t.isLive p = true) (hs : s.lookup p = none) : Stands t s o p .untracked
  /-- Only the snapshot has the path; the tree removed it or never had it. -/
  | deleted (ht : t.lookup p = none ∨ t.lookup p = some .removed) {d : Digest}
      (hs : s.lookup p = some d) : Stands t s o p .deleted
  /-- Both have the path, with different digests. -/
  | modified {w d : Digest} (ht : t.WorkingDigest p w) (hs : s.lookup p = some d) (hne : w ≠ d) :
      Stands t s o p .modified
  /-- Both have the path with the same digest, and such paths are asked for. -/
  | unmodified {d : Digest} (ht : t.WorkingDigest p d) (hs : s.lookup p = some d)
      (ho : o.includeUnmodified = true) : Stands t s o p .unmodified

/-- The table is what the comparison of the two digests gives. -/
theorem stands_iff {t : Tree} {s : Snapshot} {o : ReportOptions} {p : Path} {c : Status} :
    t.Stands s o p c ↔
      Status.ofDigests (t.digests.lookup p) (s.lookup p) = some c ∧ o.admits c = true := by
  constructor
  · intro h
    cases h with
    | untracked hlive hs =>
        rw [← isSome_lookup_digests] at hlive
        obtain ⟨w, hw⟩ := Option.isSome_iff_exists.mp hlive
        rw [hw, hs]
        exact ⟨rfl, by simp [ReportOptions.admits]⟩
    | deleted ht hs =>
        rw [lookup_digests_eq_none_iff.mpr ht, hs]
        exact ⟨rfl, by simp [ReportOptions.admits]⟩
    | modified ht hs hne =>
        rw [lookup_digests_eq_some_iff.mpr ht, hs]
        exact ⟨by simp [Status.ofDigests, hne], by simp [ReportOptions.admits]⟩
    | unmodified ht hs ho =>
        rw [lookup_digests_eq_some_iff.mpr ht, hs]
        exact ⟨by simp [Status.ofDigests], by simp [ReportOptions.admits, ho]⟩
  · intro h
    obtain ⟨hc, hadmitted⟩ := h
    cases ht : t.digests.lookup p with
    | none =>
        cases hs : s.lookup p with
        | none => simp [ht, hs, Status.ofDigests] at hc
        | some d =>
            obtain rfl : Status.deleted = c := by simpa [ht, hs, Status.ofDigests] using hc
            exact .deleted (lookup_digests_eq_none_iff.mp ht) hs
    | some w =>
        have hw := lookup_digests_eq_some_iff.mp ht
        cases hs : s.lookup p with
        | none =>
            obtain rfl : Status.untracked = c := by simpa [ht, hs, Status.ofDigests] using hc
            exact .untracked (by rw [← isSome_lookup_digests, ht]; rfl) hs
        | some d =>
            by_cases heq : w = d
            · subst heq
              obtain rfl : Status.unmodified = c := by simpa [ht, hs, Status.ofDigests] using hc
              exact .unmodified hw hs (by simpa [ReportOptions.admits] using hadmitted)
            · obtain rfl : Status.modified = c := by simpa [ht, hs, Status.ofDigests, heq] using hc
              exact .modified hw hs heq

end Tree

/-- A path that the tree removed and the snapshot never had stands nowhere. -/
theorem Tree.not_stands_of_removed {t : Tree} {s : Snapshot} {o : ReportOptions} {p : Path}
    (ht : t.lookup p = some .removed) (hs : s.lookup p = none) (c : Status) :
    ¬ t.Stands s o p c := by
  intro h
  have hdigest : t.digests.lookup p = none := lookup_digests_eq_none_iff.mpr (.inr ht)
  have hc := (stands_iff.mp h).1
  rw [hdigest, hs] at hc
  exact absurd hc nofun

/-! ## Path by path

A report can also be made in one pass over the paths of both sides.  The object of a committed file
is looked for when the turn of its path comes, and the pass stops there if it is missing. -/

namespace Tree

variable {σ : Type} [ObjectStore σ]

/-- The paths of the files, and with them those of a snapshot, in order. -/
def pathsWith (s : Snapshot) (t : Tree) : List Path :=
  (OrderedMap.ofList ((t.paths ++ s.paths).map (·, ()))).keys

/-- The digest of a file, if there is one; the object of a committed one must be there. -/
def heldDigest (store : σ) (t : Tree) (p : Path) : Except Fault (Option Digest) :=
  match t.lookup p with
  | none => .ok none
  | some .removed => .ok none
  | some (.written content) => .ok (some (.ofContent content))
  | some (.committed d) =>
    if ObjectStore.contains store d then .ok (some d) else .error (.corrupt p d)

/-- Takes the turn of a path: its line is added to the lines if its status is admitted. -/
def listPath (o : ReportOptions) (store : σ) (s : Snapshot) (t : Tree) (lines : List Line)
    (p : Path) : Except Fault (List Line) := do
  match Status.ofDigests (← t.heldDigest store p) (s.lookup p) with
  | some c => return if o.admits c then lines ++ [⟨p.text, c⟩] else lines
  | none => return lines

/-- The report of a tree against a snapshot, made path by path. -/
def reportByPath (o : ReportOptions) (store : σ) (s : Snapshot) (t : Tree) :
    Except Fault Report := do
  let lines ← (t.pathsWith s).foldlM (t.listPath o store s) []
  return .ofLines lines

/-- The line of a path, if its status is admitted. -/
def line? (o : ReportOptions) (s : Snapshot) (t : Tree) (p : Path) : Option Line :=
  ((Status.ofDigests (t.digests.lookup p) (s.lookup p)).filter o.admits).map (⟨p.text, ·⟩)

variable {store : σ} {t : Tree} {s : Snapshot} {o : ReportOptions} {lines : List Line}
  {p : Path} {d : Digest}

/-! ### One path -/

theorem heldDigest_of_found (h : ∀ d, ¬ t.Missing store p d) :
    t.heldDigest store p = .ok (t.digests.lookup p) := by
  rw [lookup_digests, heldDigest]
  cases he : t.lookup p with
  | none => rfl
  | some e =>
      cases e with
      | removed => rfl
      | written content => rfl
      | committed d =>
          have hd : ObjectStore.contains store d = true := by
            cases hd : ObjectStore.contains store d with
            | true => rfl
            | false => exact absurd ⟨he, hd⟩ (h d)
          exact if_pos hd

theorem heldDigest_of_missing (h : t.Missing store p d) :
    t.heldDigest store p = .error (.corrupt p d) := by
  rw [heldDigest, h.1]
  exact if_neg (by simp [h.2])

theorem listPath_of_found (h : ∀ d, ¬ t.Missing store p d) :
    t.listPath o store s lines p = .ok (lines ++ (t.line? o s p).toList) := by
  rw [listPath, heldDigest_of_found h, line?]
  show (match Status.ofDigests (t.digests.lookup p) (s.lookup p) with
    | some c => _
    | none => _) = _
  cases Status.ofDigests (t.digests.lookup p) (s.lookup p) with
  | none => simp [pure, Except.pure]
  | some c => by_cases hc : o.admits c = true <;> simp [Option.filter, hc, pure, Except.pure]

theorem listPath_of_missing (h : t.Missing store p d) :
    t.listPath o store s lines p = .error (.corrupt p d) := by
  rw [listPath, heldDigest_of_missing h]
  rfl

/-! ### The pass -/

theorem foldlM_listPath_of_found {paths : List Path}
    (h : ∀ p ∈ paths, ∀ d, ¬ t.Missing store p d) :
    paths.foldlM (t.listPath o store s) lines
      = .ok (lines ++ paths.filterMap (t.line? o s)) := by
  induction paths generalizing lines with
  | nil => simp [pure, Except.pure]
  | cons p rest ih =>
      have hrest : ∀ q ∈ rest, ∀ d, ¬ t.Missing store q d :=
        fun q hq => h q (List.mem_cons_of_mem p hq)
      rw [List.foldlM_cons, listPath_of_found (h p List.mem_cons_self)]
      show rest.foldlM (t.listPath o store s) (lines ++ (t.line? o s p).toList) = _
      rw [ih hrest, List.append_assoc]
      cases hline : t.line? o s p <;> simp [hline]

/-- The pass stops at the first path whose object is missing. -/
theorem foldlM_listPath_of_missing {before after : List Path}
    (hbefore : ∀ q ∈ before, ∀ e, ¬ t.Missing store q e) (h : t.Missing store p d) :
    (before ++ p :: after).foldlM (t.listPath o store s) lines = .error (.corrupt p d) := by
  rw [List.foldlM_append, foldlM_listPath_of_found hbefore]
  show (p :: after).foldlM (t.listPath o store s) _ = _
  rw [List.foldlM_cons, listPath_of_missing h]
  rfl

/-- The paths of the pass are those that the comparison goes through. -/
theorem pathsWith_eq_keys (s : Snapshot) (t : Tree) :
    t.pathsWith s = (OrderedMap.unionKeys t.digests.entries s.entries).keys := by
  refine OrderedMap.keys_eq_of_isSome_eq fun p => ?_
  have hkeys : ((t.paths ++ s.paths).map (·, ())).map (·.1) = t.paths ++ s.paths := by
    rw [List.map_map]
    exact List.map_id _
  rw [Bool.eq_iff_iff, OrderedMap.isSome_get?_unionKeys, OrderedMap.ofList,
    OrderedMap.isSome_get?_foldl_insert, hkeys, List.mem_append, paths_eq_paths_digests]
  show (_ ∨ p ∈ t.digests.entries.keys ∨ p ∈ s.entries.keys) ↔ _
  rw [OrderedMap.mem_keys_iff, OrderedMap.mem_keys_iff]
  exact or_iff_right (by simp)

theorem mem_pathsWith_of_isLive (h : t.isLive p = true) : p ∈ t.pathsWith s := by
  rw [← isSome_lookup_digests] at h
  rw [pathsWith_eq_keys, OrderedMap.mem_keys_iff, OrderedMap.isSome_get?_unionKeys]
  exact .inl h

/-- A pass that is not stopped leaves the lines of the comparison. -/
theorem filterMap_line?_pathsWith (o : ReportOptions) (s : Snapshot) (t : Tree) :
    (t.pathsWith s).filterMap (t.line? o s) = Snapshot.admittedLines o (t.digests.statuses s) := by
  rw [Snapshot.admittedLines, Snapshot.statuses, OrderedMap.toList_merge, ← pathsWith_eq_keys,
    List.filter_filterMap, List.map_filterMap]
  refine congrArg (List.filterMap · _) (funext fun p => ?_)
  show (Option.filter _ (Status.ofDigests (t.digests.lookup p) (s.lookup p))).map _
    = ((Option.map _ (Status.ofDigests (t.digests.lookup p) (s.lookup p))).filter _).map _
  cases Status.ofDigests (t.digests.lookup p) (s.lookup p) with
  | none => rfl
  | some c => by_cases hc : o.admits c = true <;> simp [Option.filter, hc]

/-- **Path by path**, a report is the report made at once: it stops at the same path, or it has the
same lines. -/
theorem reportByPath_eq_report (o : ReportOptions) (store : σ) (s : Snapshot) (t : Tree) :
    t.reportByPath o store s = t.report o store s := by
  cases hreport : t.report o store s with
  | error f =>
      obtain ⟨p, d, rfl, hmissing, hleast⟩ :=
        (failsAtFirst_report t store s o).names_first f hreport
      have hlive : t.isLive p = true := by
        rw [isLive_eq_any, hmissing.1]
        rfl
      obtain ⟨before, after, hsplit⟩ := List.append_of_mem (mem_pathsWith_of_isLive (s := s) hlive)
      have hsorted : (before ++ p :: after).Pairwise fun a b => compare a b = .lt :=
        hsplit ▸ OrderedMap.pairwise_keys _
      -- An object that is missing before `p` would have been named in its place.
      have hbefore : ∀ q ∈ before, ∀ e, ¬ t.Missing store q e := by
        intro q hq e hqe
        have hlt : compare q p = .lt :=
          (List.pairwise_append.mp hsorted).2.2 q hq p List.mem_cons_self
        have hle : (compare p q).isLE = true := hleast q e hqe
        rw [Std.OrientedCmp.gt_of_lt hlt] at hle
        exact absurd hle (by decide)
      rw [reportByPath, hsplit, foldlM_listPath_of_missing hbefore hmissing]
      rfl
  | ok r =>
      obtain ⟨hfound, rfl⟩ := report_eq_ok_iff.mp hreport
      rw [reportByPath, foldlM_listPath_of_found fun p _ => hfound p, filterMap_line?_pathsWith]
      rfl

end Tree

/-- **What a report is, exactly.**  It fails when and only when an object of a committed entry is
missing, and names the first such path.  Otherwise its lines come in strictly ascending byte order
of their paths, and they are the ones of the table: nothing is left out, nothing is listed twice,
nothing is `added`, and a path removed before it was ever recorded is not listed.  A pass over the
paths that stops at the first missing object makes the same report. -/
theorem report_lists_exactly {σ : Type} [ObjectStore σ] (store : σ) (t : Tree) (s : Snapshot)
    (o : ReportOptions) :
    t.reportByPath o store s = t.report o store s ∧
      FailsAtFirst (t.Missing store) (t.report o store s) ∧
      ∀ r, t.report o store s = .ok r →
        r.lines.Pairwise (fun a b => Text.compare a.path b.path = .lt) ∧
        (∀ path c, ⟨path, c⟩ ∈ r.lines ↔ ∃ p : Path, path = p.text ∧ t.Stands s o p c) ∧
        (∀ l ∈ r.lines, l.status ≠ .added) ∧
        ∀ p, t.lookup p = some .removed → s.lookup p = none →
          ∀ l ∈ r.lines, l.path ≠ p.text := by
  refine ⟨t.reportByPath_eq_report o store s, failsAtFirst_report t store s o, ?_⟩
  intro r hr
  obtain ⟨-, rfl⟩ := Tree.report_eq_ok_iff.mp hr
  have hmem : ∀ path c, ⟨path, c⟩ ∈ (t.digests.difference o s).lines ↔
      ∃ p : Path, path = p.text ∧ t.Stands s o p c := by
    intro path c
    rw [Snapshot.mem_lines_difference_iff]
    exact exists_congr fun p => and_congr_right fun _ => Tree.stands_iff.symm
  refine ⟨?_, hmem, ?_, ?_⟩
  · rw [Snapshot.lines_difference]
    exact Snapshot.pairwise_admittedLines o _
  · intro l hl hadded
    obtain ⟨p, -, hstands⟩ := (hmem l.path l.status).mp hl
    rw [hadded] at hstands
    cases hstands
  · intro p ht hs l hl hpath
    obtain ⟨q, hq, hstands⟩ := (hmem l.path l.status).mp hl
    obtain rfl : q = p := Path.text_injective (hq.symm.trans hpath)
    exact Tree.not_stands_of_removed ht hs l.status hstands

end Worktree
