import Mathlib.Data.List.Perm.Basic
import Worktree.Snapshot.Json
import Worktree.Tree.Lemmas

/-!
# Several spellings of one path

A snapshot that is read may name one path by several keys, and name one key several times.  The
reader sorts what it has read by key and binds one after the other.  So of the spellings of a path
the greatest counts, and of its occurrences the last.

* `Text.filter_mergeSort` — sorting by key keeps what has the same key in its order;
* `Snapshot.lookup_ofSpellings_eq_some_iff` — what is recorded of a path;
* `Snapshot.ofSpellings_congr` — lists that agree on the last binding of every key make the same
  snapshot, in whatever order they list the keys.
-/

namespace Worktree

namespace Text

theorem precedes_refl (a : String) : precedes a a = true := by
  have hself : compare a a = .eq := Std.ReflCmp.compare_self
  rw [precedes, hself]
  rfl

theorem precedes_of_lt {a b : String} (h : compare a b = .lt) : precedes a b = true := by
  rw [precedes, h]
  rfl

theorem precedes_antisymm {a b : String} (hab : precedes a b = true) (hba : precedes b a = true) :
    a = b := by
  unfold precedes at hab hba
  rw [@Std.OrientedCmp.eq_swap _ compare _ b a] at hba
  cases hcompare : compare a b with
  | lt => simp [hcompare] at hba
  | eq => exact @Std.LawfulEqCmp.eq_of_compare _ compare _ a b hcompare
  | gt => simp [hcompare] at hab

variable {α : Type}

theorem lookup_filter_self (l : List (String × α)) (k : String) :
    (l.filter fun b => k == b.1).lookup k = l.lookup k := by
  induction l with
  | nil => rfl
  | cons b rest ih =>
      obtain ⟨j, a⟩ := b
      by_cases hk : k = j
      · simp [hk]
      · have hne : (k == j) = false := beq_false_of_ne hk
        simpa [List.lookup_cons, hne] using ih

/-- **Sorting is stable.**  Members with the same key keep their order. -/
theorem filter_mergeSort {β : Type} (key : β → String) (l : List β) (k : String) :
    ((l.mergeSort fun a b => precedes (key a) (key b)).filter fun b => k == key b) =
      l.filter fun b => k == key b := by
  -- These members are in order as they are, so they come through sorting as they are.
  have hordered : (l.filter fun b => k == key b).Pairwise
      fun a b => precedes (key a) (key b) = true := by
    apply List.pairwise_of_forall_mem_list
    intro a ha b hb
    have hak : k = key a := by simpa using (List.mem_filter.mp ha).2
    have hbk : k = key b := by simpa using (List.mem_filter.mp hb).2
    rw [← hak, ← hbk]
    exact precedes_refl k
  have hsub : (l.filter fun b => k == key b).Sublist
      (l.mergeSort fun a b => precedes (key a) (key b)) :=
    List.sublist_mergeSort (fun a b c => precedes_trans (key a) (key b) (key c))
      (fun a b => precedes_total (key a) (key b)) hordered List.filter_sublist
  have hfiltered := hsub.filter fun b => k == key b
  rw [List.filter_filter] at hfiltered
  simp only [Bool.and_self] at hfiltered
  have hperm := (l.mergeSort_perm fun a b => precedes (key a) (key b)).filter fun b => k == key b
  exact (hfiltered.eq_of_length hperm.length_eq.symm).symm

/-- The last binding of a key stays the last one when the bindings are sorted. -/
theorem lookup_reverse_mergeSort (l : List (String × α)) (k : String) :
    (l.mergeSort fun a b => precedes a.1 b.1).reverse.lookup k = l.reverse.lookup k := by
  rw [← lookup_filter_self, List.filter_reverse, filter_mergeSort Prod.fst, ← List.filter_reverse,
    lookup_filter_self]

end Text

namespace Snapshot

/-- Spellings that are in order already are entered in the order of the list. -/
theorem ofSpellings_of_pairwise {l : List (String × Digest)}
    (h : l.Pairwise fun a b => Text.precedes a.1 b.1 = true) :
    ofSpellings l = ofList (l.map fun b => (.ofString b.1, b.2)) := by
  rw [ofSpellings, List.mergeSort_of_pairwise h]

/-- Among the keys of a list, this one is the greatest that spells the path. -/
structure GreatestSpelling (l : List (String × Digest)) (p : Path) (k : String) : Prop where
  listed : k ∈ l.map Prod.fst
  spells : Path.ofString k = p
  greatest : ∀ j ∈ l.map Prod.fst, Path.ofString j = p → Text.precedes j k = true

theorem GreatestSpelling.unique {l : List (String × Digest)} {p : Path} {j k : String}
    (hj : GreatestSpelling l p j) (hk : GreatestSpelling l p k) : j = k :=
  Text.precedes_antisymm (hk.greatest j hj.listed hj.spells) (hj.greatest k hk.listed hk.spells)

theorem GreatestSpelling.of_keys {l r : List (String × Digest)} {p : Path} {k : String}
    (hk : GreatestSpelling l p k) (h : ∀ j, j ∈ l.map Prod.fst ↔ j ∈ r.map Prod.fst) :
    GreatestSpelling r p k where
  listed := (h k).mp hk.listed
  spells := hk.spells
  greatest j hj := hk.greatest j ((h j).mpr hj)

theorem exists_of_lookup_ofSpellings {l : List (String × Digest)} {p : Path} {d : Digest}
    (h : (ofSpellings l).lookup p = some d) :
    ∃ k, GreatestSpelling l p k ∧ l.reverse.lookup k = some d := by
  have hsorted := List.pairwise_mergeSort (fun a b c => Text.precedes_trans a.1 b.1 c.1)
    (fun a b => Text.precedes_total a.1 b.1) l
  have hmem : ∀ b, b ∈ (l.mergeSort fun a b => Text.precedes a.1 b.1).reverse ↔ b ∈ l := by
    intro b
    rw [List.mem_reverse, List.mem_mergeSort]
  have hstable := Text.lookup_reverse_mergeSort l
  have hlookup := OrderedMap.get?_ofList
    ((l.mergeSort fun a b => Text.precedes a.1 b.1).map fun b => (Path.ofString b.1, b.2)) p
  rw [← List.pairwise_reverse] at hsorted
  rw [← List.map_reverse] at hlookup
  -- Seen from the end of the sorted list, the binding found is the first that spells the path.
  generalize (l.mergeSort fun a b => Text.precedes a.1 b.1).reverse = r at *
  obtain ⟨before, after, hsplit, hbefore⟩ := List.lookup_eq_some_iff.mp (hlookup.symm.trans h)
  obtain ⟨rb, rest, rfl, rfl, hrest⟩ := List.map_eq_append_iff.mp hsplit
  obtain ⟨⟨k, e⟩, ra, rfl, hhere, rfl⟩ := List.map_eq_cons_iff.mp hrest
  obtain ⟨hspells, rfl⟩ := Prod.mk.inj hhere
  have hnone : ∀ b ∈ rb, Path.ofString b.1 ≠ p := by
    intro b hb
    have hne := hbefore _ (List.mem_map_of_mem hb)
    exact fun heq => (bne_iff_ne.mp hne) heq.symm
  refine ⟨k, ⟨?_, hspells, ?_⟩, ?_⟩
  · have hk := (hmem (k, e)).mp (List.mem_append_right rb List.mem_cons_self)
    exact List.mem_map_of_mem (f := Prod.fst) hk
  · intro j hj hspelled
    obtain ⟨b, hb, rfl⟩ := List.mem_map.mp hj
    rcases List.mem_append.mp ((hmem b).mpr hb) with hmem | hmem
    · exact absurd hspelled (hnone b hmem)
    rcases List.mem_cons.mp hmem with rfl | hmem
    · exact Text.precedes_refl _
    · exact (List.pairwise_cons.mp (List.pairwise_append.mp hsorted).2.1).1 b hmem
  · rw [← hstable, List.lookup_eq_some_iff]
    refine ⟨rb, ra, rfl, ?_⟩
    intro b hb
    exact bne_iff_ne.mpr fun heq => hnone b hb (heq ▸ hspells)

/-- **What is recorded of a path** is the last digest given under its greatest spelling. -/
theorem lookup_ofSpellings_eq_some_iff {l : List (String × Digest)} {p : Path} {d : Digest} :
    (ofSpellings l).lookup p = some d ↔
      ∃ k, GreatestSpelling l p k ∧ l.reverse.lookup k = some d := by
  constructor
  · exact exists_of_lookup_ofSpellings
  · intro h
    obtain ⟨k, hk, hd⟩ := h
    cases hlookup : (ofSpellings l).lookup p with
    | some e =>
        obtain ⟨j, hj, he⟩ := exists_of_lookup_ofSpellings hlookup
        rw [hj.unique hk, hd] at he
        exact he.symm
    | none =>
        have hnone := (OrderedMap.get?_ofList _ p).symm.trans hlookup
        obtain ⟨b, hb, hbk⟩ := List.mem_map.mp hk.listed
        have hlisted : (Path.ofString b.1, b.2) ∈
            ((l.mergeSort fun a b => Text.precedes a.1 b.1).map
              fun b => (Path.ofString b.1, b.2)).reverse :=
          List.mem_reverse.mpr (List.mem_map_of_mem (List.mem_mergeSort.mpr hb))
        have hne := List.lookup_eq_none_iff.mp hnone _ hlisted
        rw [hbk, hk.spells] at hne
        exact absurd rfl (bne_iff_ne.mp hne)

theorem isSome_lookup_reverse_iff {l : List (String × Digest)} {k : String} :
    (l.reverse.lookup k).isSome ↔ k ∈ l.map Prod.fst := by
  rw [List.lookup_isSome_iff, List.mem_map]
  constructor
  · intro h
    obtain ⟨b, hb, hk⟩ := h
    exact ⟨b, List.mem_reverse.mp hb, (beq_iff_eq.mp hk).symm⟩
  · intro h
    obtain ⟨b, hb, rfl⟩ := h
    exact ⟨b, List.mem_reverse.mpr hb, beq_self_eq_true b.1⟩

/-- Only the last digest given under each key matters. -/
theorem ofSpellings_congr {l r : List (String × Digest)}
    (h : ∀ k, l.reverse.lookup k = r.reverse.lookup k) : ofSpellings l = ofSpellings r := by
  have hlisted : ∀ k, k ∈ l.map Prod.fst ↔ k ∈ r.map Prod.fst := by
    intro k
    rw [← isSome_lookup_reverse_iff, ← isSome_lookup_reverse_iff, h]
  refine ext_lookup fun p => Option.ext fun d => ?_
  rw [lookup_ofSpellings_eq_some_iff, lookup_ofSpellings_eq_some_iff]
  refine exists_congr fun k => and_congr ?_ (by rw [h])
  exact ⟨fun hk => hk.of_keys hlisted, fun hk => hk.of_keys fun j => (hlisted j).symm⟩

end Snapshot

end Worktree
