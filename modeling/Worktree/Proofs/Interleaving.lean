import Mathlib.Data.Set.Defs
import Worktree.Comparison
import Worktree.Tree.Lemmas

/-!
# Edits of different files

Two sequences of edits are made on one tree, and no path that the one names is named by the other.
Then it does not matter how the two are interleaved: an edit looks at the paths that it names and
touches no others, so each sequence finds its own paths as it would alone.

* `Tree.AgreeOn.edit` and `Tree.lookup_edit_of_not_mem` say this of one edit: trees that agree on
  the paths it names are edited alike there, and every other path stays;
* `Tree.AgreeOn.step` is one edit of an interleaving, seen by both sequences;
* `Tree.agreeOn_interleaved` is the whole interleaving: beside the joint tree it follows the tree of
  each sequence alone;
* `interleavings_of_apart_edits_agree` compares two interleavings.
-/

namespace Worktree

/-- A change to a tree that no store takes part in. -/
inductive Edit where
  | write (path : String) (content : ByteArray)
  | remove (path : String)
  | rename (source target : String)

/-- The paths that an edit names. -/
def Edit.paths : Edit → List Path
  | write path _ => [.ofString path]
  | remove path => [.ofString path]
  | rename source target => [.ofString source, .ofString target]

/-- The third list consists of the members of the first two, those of each in their order. -/
inductive Interleaved {α : Type} : List α → List α → List α → Prop where
  | nil : Interleaved [] [] []
  | left {x : α} {l r w : List α} (h : Interleaved l r w) : Interleaved (x :: l) r (x :: w)
  | right {x : α} {l r w : List α} (h : Interleaved l r w) : Interleaved l (x :: r) (x :: w)

theorem Interleaved.mem_iff {α : Type} {l r w : List α} (h : Interleaved l r w) {x : α} :
    x ∈ w ↔ x ∈ l ∨ x ∈ r := by
  induction h with
  | nil => simp
  | left _ ih => simp [ih, or_assoc]
  | right _ ih => simp [ih, or_left_comm]

namespace Tree

/-- What an edit comes to, and the tree after it; an edit that fails leaves the tree as it was. -/
def edit (t : Tree) : Edit → Except Fault Unit × Tree
  | .write path content => (.ok (), t.write (.ofString path) content)
  | .remove path => (.ok (), t.remove (.ofString path))
  | .rename source target =>
    match t.rename (.ofString source) (.ofString target) with
    | .ok u => (.ok (), u)
    | .error f => (.error f, t)

/-- The tree after some edits. -/
def after (t : Tree) (edits : List Edit) : Tree :=
  edits.foldl (fun t e => (t.edit e).2) t

/-- Some edits, each with what it comes to. -/
def trace (t : Tree) : List Edit → List (Edit × Except Fault Unit)
  | [] => []
  | e :: rest => (e, (t.edit e).1) :: trace (t.edit e).2 rest

variable {t u a b : Tree} {e : Edit}

/-! ## One edit -/

theorem edit_rename_of_none {source : String} (target : String)
    (h : t.file? (.ofString source) = none) :
    t.edit (.rename source target) = (.error (.notFound (.ofString source)), t) := by
  simp only [edit, rename, h]

theorem edit_rename_of_some {source : String} (target : String) {x : Entry}
    (h : t.file? (.ofString source) = some x) :
    t.edit (.rename source target) =
      (.ok (), if Path.ofString source = .ofString target then t
        else ⟨(t.entries.insert (.ofString source) .removed).insert (.ofString target) x⟩) := by
  by_cases hsame : Path.ofString source = .ofString target
  · simp only [edit, rename, h, if_pos hsame]
  · simp only [edit, rename, h, if_neg hsame]

/-- **An edit touches no path but those that it names.** -/
theorem lookup_edit_of_not_mem (t : Tree) {p : Path} (h : p ∉ e.paths) :
    (t.edit e).2.lookup p = t.lookup p := by
  cases e with
  | write path content =>
      have hne : p ≠ .ofString path := List.ne_of_not_mem_cons h
      exact OrderedMap.get?_insert_of_ne t.entries _ hne
  | remove path =>
      have hne : p ≠ .ofString path := List.ne_of_not_mem_cons h
      exact OrderedMap.get?_insert_of_ne t.entries _ hne
  | rename source target =>
      have hsource : p ≠ .ofString source := List.ne_of_not_mem_cons h
      have htarget : p ≠ .ofString target :=
        List.ne_of_not_mem_cons (List.not_mem_of_not_mem_cons h)
      cases hfile : t.file? (.ofString source) with
      | none => rw [edit_rename_of_none target hfile]
      | some x =>
          rw [edit_rename_of_some target hfile]
          by_cases hsame : Path.ofString source = .ofString target
          · rw [if_pos hsame]
          · rw [if_neg hsame]
            exact (OrderedMap.get?_insert_of_ne _ _ htarget).trans
              (OrderedMap.get?_insert_of_ne t.entries _ hsource)

/-- The trees know the same of some paths. -/
def AgreeOn (P : Set Path) (t u : Tree) : Prop :=
  ∀ p ∈ P, t.lookup p = u.lookup p

variable {P Q : Set Path}

theorem AgreeOn.refl (P : Set Path) (t : Tree) : AgreeOn P t t :=
  fun _ _ => rfl

/-- Setting the same entry keeps trees in agreement. -/
theorem AgreeOn.insert (h : AgreeOn P t u) (p : Path) (x : Entry) :
    AgreeOn P ⟨t.entries.insert p x⟩ ⟨u.entries.insert p x⟩ := by
  intro q hq
  have hold : t.entries.get? q = u.entries.get? q := h q hq
  unfold lookup
  rw [OrderedMap.get?_insert, OrderedMap.get?_insert, hold]

/-- **An edit looks at no path but those that it names.**  Trees that agree on paths among which
these are give the same outcome, and agree on those paths afterwards. -/
theorem AgreeOn.edit (h : AgreeOn P t u) (he : ∀ p ∈ e.paths, p ∈ P) :
    (t.edit e).1 = (u.edit e).1 ∧ AgreeOn P (t.edit e).2 (u.edit e).2 := by
  cases e with
  | write path content => exact ⟨rfl, h.insert _ _⟩
  | remove path => exact ⟨rfl, h.insert _ _⟩
  | rename source target =>
      have hsource : t.file? (.ofString source) = u.file? (.ofString source) := by
        unfold file?
        rw [h _ (he _ List.mem_cons_self)]
      cases hfile : u.file? (.ofString source) with
      | none =>
          rw [edit_rename_of_none target (hsource.trans hfile), edit_rename_of_none target hfile]
          exact ⟨rfl, h⟩
      | some x =>
          rw [edit_rename_of_some target (hsource.trans hfile), edit_rename_of_some target hfile]
          refine ⟨rfl, ?_⟩
          by_cases hsame : Path.ofString source = .ofString target
          · rw [if_pos hsame, if_pos hsame]
            exact h
          · rw [if_neg hsame, if_neg hsame]
            exact (h.insert _ _).insert _ _

/-- **One edit of an interleaving.**  The joint tree and the tree of the sequence that the edit
belongs to are edited alike; for the other sequence the joint tree stays as it was. -/
theorem AgreeOn.step (ha : AgreeOn P u a) (hb : AgreeOn Q u b) (hPQ : ∀ p ∈ P, p ∉ Q)
    (he : ∀ p ∈ e.paths, p ∈ P) :
    (u.edit e).1 = (a.edit e).1 ∧ AgreeOn P (u.edit e).2 (a.edit e).2 ∧
      AgreeOn Q (u.edit e).2 b := by
  obtain ⟨houtcome, hafter⟩ := ha.edit he
  refine ⟨houtcome, hafter, ?_⟩
  intro q hq
  have hother : q ∉ e.paths := fun hmem => hPQ q (he q hmem) hq
  rw [lookup_edit_of_not_mem u hother]
  exact hb q hq

/-! ## Sequences of edits -/

theorem lookup_after_of_not_mem {edits : List Edit} (t : Tree) {p : Path}
    (h : ∀ e ∈ edits, p ∉ e.paths) : (t.after edits).lookup p = t.lookup p := by
  induction edits generalizing t with
  | nil => rfl
  | cons e rest ih =>
      calc ((t.edit e).2.after rest).lookup p
          = (t.edit e).2.lookup p := ih _ fun x hx => h x (List.mem_cons_of_mem e hx)
        _ = t.lookup p := lookup_edit_of_not_mem t (h e List.mem_cons_self)

/-- **A whole interleaving.**  It goes for each of its two sequences as the sequence goes alone, on
a tree that agrees with the joint one on the paths that the sequence names. -/
theorem agreeOn_interleaved {l r w : List Edit} (h : Interleaved l r w) (hPQ : ∀ p ∈ P, p ∉ Q)
    (hl : ∀ e ∈ l, ∀ p ∈ e.paths, p ∈ P) (hr : ∀ e ∈ r, ∀ p ∈ e.paths, p ∈ Q)
    (ha : AgreeOn P u a) (hb : AgreeOn Q u b) :
    Interleaved (a.trace l) (b.trace r) (u.trace w) ∧
      AgreeOn P (u.after w) (a.after l) ∧ AgreeOn Q (u.after w) (b.after r) := by
  -- Each edit is one step of the joint tree and of the tree of its own sequence.
  induction h generalizing u a b with
  | nil => exact ⟨.nil, ha, hb⟩
  | @left e l r w _ ih =>
      obtain ⟨houtcome, hown, hother⟩ := ha.step hb hPQ (hl e List.mem_cons_self)
      obtain ⟨htrace, hleft, hright⟩ :=
        ih (fun x hx => hl x (List.mem_cons_of_mem e hx)) hr hown hother
      refine ⟨?_, hleft, hright⟩
      rw [trace, trace, houtcome]
      exact htrace.left
  | @right e l r w _ ih =>
      obtain ⟨houtcome, hown, hother⟩ :=
        hb.step ha (fun q hq hp => hPQ q hp hq) (hr e List.mem_cons_self)
      obtain ⟨htrace, hleft, hright⟩ :=
        ih hl (fun x hx => hr x (List.mem_cons_of_mem e hx)) hother hown
      refine ⟨?_, hleft, hright⟩
      rw [trace, trace, houtcome]
      exact htrace.right

end Tree

/-- The paths that some edits name. -/
def Edit.named (edits : List Edit) : Set Path :=
  {p | ∃ e ∈ edits, p ∈ e.paths}

/-- **Edits of different files do not disturb each other.**  Two sequences of edits name no path in
common, however they spell it.  Then all their interleavings leave the same tree, so that reports
and commits come out the same afterwards, on any store.  In an interleaving each edit comes to what
it comes to in its own sequence alone. -/
theorem interleavings_of_apart_edits_agree (t : Tree) {l r w w' : List Edit}
    (hapart : ∀ p ∈ Edit.named l, p ∉ Edit.named r) (hw : Interleaved l r w)
    (hw' : Interleaved l r w') :
    t.after w = t.after w' ∧ Interleaved (t.trace l) (t.trace r) (t.trace w) ∧
      ∀ (σ : Type) [ObjectStore σ] (store : σ),
        (∀ o s, (t.after w).report o store s = (t.after w').report o store s) ∧
        (t.after w).commit store = (t.after w').commit store := by
  have hrun : ∀ {v}, Interleaved l r v →
      Interleaved (t.trace l) (t.trace r) (t.trace v) ∧
        Tree.AgreeOn (Edit.named l) (t.after v) (t.after l) ∧
        Tree.AgreeOn (Edit.named r) (t.after v) (t.after r) := by
    intro v hv
    exact Tree.agreeOn_interleaved hv hapart (fun e he p hp => ⟨e, he, hp⟩)
      (fun e he p hp => ⟨e, he, hp⟩) (.refl _ t) (.refl _ t)
  obtain ⟨htrace, hleft, hright⟩ := hrun hw
  obtain ⟨-, hleft', hright'⟩ := hrun hw'
  have htree : t.after w = t.after w' := by
    refine Tree.ext_lookup fun p => ?_
    by_cases hp : p ∈ Edit.named l
    · rw [hleft p hp, hleft' p hp]
    by_cases hq : p ∈ Edit.named r
    · rw [hright p hq, hright' p hq]
    -- A path that neither sequence names is as it was at the beginning.
    have hstays : ∀ {v}, Interleaved l r v → (t.after v).lookup p = t.lookup p := by
      intro v hv
      apply Tree.lookup_after_of_not_mem
      intro e he hmem
      rcases hv.mem_iff.mp he with hl | hr
      · exact hp ⟨e, hl, hmem⟩
      · exact hq ⟨e, hr, hmem⟩
    rw [hstays hw, hstays hw']
  refine ⟨htree, htrace, ?_⟩
  intro σ _ store
  rw [htree]
  exact ⟨fun o s => rfl, rfl⟩

/-- One sequence moves a file away and back over a new one, the other fails to move a file that it
has removed; the paths are spelled in different ways. -/
theorem interleavings_of_apart_edits_agree_over_failure :
    let t : Tree := ⟨.ofList [(.ofString "a", .committed (.ofContent ⟨#[97]⟩)),
      (.ofString "c", .written ⟨#[99]⟩)]⟩
    let l : List Edit := [.rename "a" "d/../b", .write "/a" ⟨#[98]⟩, .rename "b" "./a"]
    let r : List Edit := [.remove "c/", .rename "./c" "a/b"]
    (∀ p ∈ Edit.named l, p ∉ Edit.named r) ∧
      t.after [.rename "a" "d/../b", .remove "c/", .write "/a" ⟨#[98]⟩, .rename "./c" "a/b",
          .rename "b" "./a"] =
        t.after (r ++ l) := by
  intro t l r
  have hapart : ∀ p ∈ Edit.named l, p ∉ Edit.named r := by
    have hall : ∀ x ∈ l, ∀ p ∈ x.paths, ∀ y ∈ r, p ∉ y.paths := by decide +kernel
    rintro p ⟨x, hx, hp⟩ ⟨y, hy, hq⟩
    exact hall x hx p hp y hy hq
  have hmixed : Interleaved l r [.rename "a" "d/../b", .remove "c/", .write "/a" ⟨#[98]⟩,
      .rename "./c" "a/b", .rename "b" "./a"] :=
    .left (.right (.left (.right (.left .nil))))
  have hlater : Interleaved l r (r ++ l) := .right (.right (.left (.left (.left .nil))))
  exact ⟨hapart, (interleavings_of_apart_edits_agree t hapart hmixed hlater).1⟩

end Worktree
