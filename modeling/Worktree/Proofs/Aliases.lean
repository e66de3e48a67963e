import Worktree.Proofs.Readback
import Worktree.Proofs.Spellings

/-!
# Repeated and aliasing keys

There are two ways to make a snapshot of a list of spellings with digests, and both accept a list
that names a path more than once.  They settle it differently.  In a JSON object the greatest
spelling of a path counts, and of its repetitions the last; in a list that is entered as it is, the
last entry counts, however it is spelled.

* `Snapshot.Decides` — the pair that counts for a path in a JSON object;
* `Snapshot.lookup_ofSpellings_iff` and `Snapshot.lookup_ofEntries_iff` — what the two ways record;
* `Snapshot.ofSpellings_eq_ofEntries` — they agree when no path has two spellings;
* `Snapshot.ofJson_eq_ok_iff` — an object is read exactly if every text in it spells a digest;
* `Snapshot.Reordered` — the order of pairs with different keys does not matter in an object.
-/

namespace Worktree

/-! ## Lists whose members correspond -/

section

variable {α β : Type} {R : α → β → Prop}

theorem exists_split_of_forall₂ {before after : List α} {a : α} {r : List β}
    (h : List.Forall₂ R (before ++ a :: after) r) :
    ∃ rb b ra, r = rb ++ b :: ra ∧ R a b ∧ List.Forall₂ R after ra := by
  induction before generalizing r with
  | nil =>
      cases h with
      | cons hab hrest => exact ⟨[], _, _, rfl, hab, hrest⟩
  | cons x before ih =>
      cases h with
      | cons _ hrest =>
          obtain ⟨rb, b, ra, rfl, hab, hafter⟩ := ih hrest
          exact ⟨_ :: rb, b, ra, rfl, hab, hafter⟩

theorem exists_of_mem_left {l : List α} {r : List β} (h : List.Forall₂ R l r) {a : α}
    (ha : a ∈ l) : ∃ b ∈ r, R a b := by
  obtain ⟨before, after, rfl⟩ := List.append_of_mem ha
  obtain ⟨rb, b, ra, rfl, hab, -⟩ := exists_split_of_forall₂ h
  exact ⟨b, List.mem_append_right rb List.mem_cons_self, hab⟩

theorem exists_of_mem_right {l : List α} {r : List β} (h : List.Forall₂ R l r) {b : β}
    (hb : b ∈ r) : ∃ a ∈ l, R a b :=
  exists_of_mem_left (List.Forall₂.flip (R := fun b a => R a b) h) hb

/-- Seen from the end of a list, the first binding of a key is its last one. -/
theorem lookup_reverse_eq_some_iff [BEq α] [LawfulBEq α] {l : List (α × β)} {k : α} {x : β} :
    l.reverse.lookup k = some x ↔
      ∃ before after, l = before ++ (k, x) :: after ∧ ∀ b ∈ after, b.1 ≠ k := by
  rw [List.lookup_eq_some_iff]
  constructor
  · rintro ⟨after, before, hsplit, hne⟩
    refine ⟨before.reverse, after.reverse, ?_, ?_⟩
    · rw [← List.reverse_reverse l, hsplit]
      simp
    · intro b hb
      exact (bne_iff_ne.mp (hne b (List.mem_reverse.mp hb))).symm
  · rintro ⟨before, after, rfl, hne⟩
    refine ⟨after.reverse, before.reverse, by simp, ?_⟩
    intro b hb
    exact bne_iff_ne.mpr (hne b (List.mem_reverse.mp hb)).symm

end

namespace Snapshot

/-! ## The pair that counts -/

/-- Of pairs that begin with keys, this one counts for the path: its key is the greatest that spells
the path, and it is the last pair with this key. -/
structure Decides {α : Type} (pairs : List (String × α)) (q : Path) (b : String × α) : Prop where
  last : ∃ before after, pairs = before ++ b :: after ∧ ∀ a ∈ after, a.1 ≠ b.1
  spells : Path.ofString b.1 = q
  greatest : ∀ a ∈ pairs, Path.ofString a.1 = q → Text.precedes a.1 b.1 = true

/-- Pairs that correspond and have the same keys count for the same paths. -/
theorem Decides.of_forall₂ {α β : Type} {R : String × α → String × β → Prop}
    (hkey : ∀ {a b}, R a b → a.1 = b.1) {l : List (String × α)} {r : List (String × β)}
    (h : List.Forall₂ R l r) {q : Path} {a : String × α} (ha : Decides l q a) :
    ∃ b, R a b ∧ Decides r q b := by
  obtain ⟨before, after, rfl, hlast⟩ := ha.last
  obtain ⟨rb, b, ra, rfl, hab, hrest⟩ := exists_split_of_forall₂ h
  refine ⟨b, hab, ⟨rb, ra, rfl, ?_⟩, ?_, ?_⟩
  · intro y hy
    obtain ⟨x, hx, hxy⟩ := exists_of_mem_right hrest hy
    rw [← hkey hab, ← hkey hxy]
    exact hlast x hx
  · rw [← hkey hab]
    exact ha.spells
  · intro y hy hspells
    obtain ⟨x, hx, hxy⟩ := exists_of_mem_right h hy
    rw [← hkey hxy] at hspells ⊢
    rw [← hkey hab]
    exact ha.greatest x hx hspells

/-! ## What the two ways record -/

/-- The snapshot of spellings with digests, entered in the order of the list. -/
def ofEntries (l : List (String × Digest)) : Snapshot :=
  .ofList (l.map fun b => (.ofString b.1, b.2))

theorem lookup_ofEntries (l : List (String × Digest)) (q : Path) :
    (ofEntries l).lookup q = (l.map fun b => (Path.ofString b.1, b.2)).reverse.lookup q :=
  OrderedMap.get?_ofList _ q

/-- **Sorted by spelling**, the last pair with the greatest spelling of a path counts. -/
theorem lookup_ofSpellings_iff {l : List (String × Digest)} {q : Path} {d : Digest} :
    (ofSpellings l).lookup q = some d ↔ ∃ k, Decides l q (k, d) := by
  rw [lookup_ofSpellings_eq_some_iff]
  constructor
  · rintro ⟨k, hk, hd⟩
    refine ⟨k, lookup_reverse_eq_some_iff.mp hd, hk.spells, ?_⟩
    intro a ha
    exact hk.greatest a.1 (List.mem_map_of_mem ha)
  · rintro ⟨k, hk⟩
    obtain ⟨before, after, hsplit, hlast⟩ := hk.last
    have hlisted : (k, d) ∈ l := by simp [hsplit]
    refine ⟨k, ⟨List.mem_map_of_mem (f := Prod.fst) hlisted, hk.spells, ?_⟩, ?_⟩
    · intro j hj
      obtain ⟨a, ha, rfl⟩ := List.mem_map.mp hj
      exact hk.greatest a ha
    · exact lookup_reverse_eq_some_iff.mpr ⟨before, after, hsplit, hlast⟩

/-- **Entered as it is**, a list records of a path the last of its entries. -/
theorem lookup_ofEntries_iff {l : List (String × Digest)} {q : Path} {d : Digest} :
    (ofEntries l).lookup q = some d ↔
      ∃ before k after, l = before ++ (k, d) :: after ∧ Path.ofString k = q ∧
        ∀ a ∈ after, Path.ofString a.1 ≠ q := by
  rw [lookup_ofEntries, lookup_reverse_eq_some_iff]
  constructor
  · rintro ⟨before, after, hsplit, hne⟩
    obtain ⟨lb, rest, rfl, rfl, hrest⟩ := List.map_eq_append_iff.mp hsplit
    obtain ⟨⟨k, e⟩, la, rfl, hhere, rfl⟩ := List.map_eq_cons_iff.mp hrest
    obtain ⟨hspells, rfl⟩ := Prod.mk.inj hhere
    refine ⟨lb, k, la, rfl, hspells, ?_⟩
    intro a ha
    exact hne _ (List.mem_map_of_mem ha)
  · rintro ⟨before, k, after, rfl, rfl, hne⟩
    refine ⟨before.map _, after.map _, List.map_append, ?_⟩
    intro b hb
    obtain ⟨a, ha, rfl⟩ := List.mem_map.mp hb
    exact hne a ha

theorem lookup_ofEntries_eq_none_iff {l : List (String × Digest)} {q : Path} :
    (ofEntries l).lookup q = none ↔ ∀ b ∈ l, Path.ofString b.1 ≠ q := by
  rw [lookup_ofEntries, List.lookup_eq_none_iff]
  constructor
  · intro hne b hb
    exact (bne_iff_ne.mp (hne _ (List.mem_reverse.mpr (List.mem_map_of_mem hb)))).symm
  · intro hne b hb
    obtain ⟨a, ha, rfl⟩ := List.mem_map.mp (List.mem_reverse.mp hb)
    exact bne_iff_ne.mpr (hne a ha).symm

theorem lookup_ofSpellings_eq_none_iff {l : List (String × Digest)} {q : Path} :
    (ofSpellings l).lookup q = none ↔ ∀ b ∈ l, Path.ofString b.1 ≠ q := by
  show (ofEntries (l.mergeSort fun a b => Text.precedes a.1 b.1)).lookup q = none ↔ _
  rw [lookup_ofEntries_eq_none_iff]
  constructor
  · intro hne b hb
    exact hne b (List.mem_mergeSort.mpr hb)
  · intro hne b hb
    exact hne b (List.mem_mergeSort.mp hb)

/-- **The two ways agree** when different keys spell different paths. -/
theorem ofSpellings_eq_ofEntries {l : List (String × Digest)}
    (h : ∀ a ∈ l, ∀ b ∈ l, Path.ofString a.1 = Path.ofString b.1 → a.1 = b.1) :
    ofSpellings l = ofEntries l := by
  refine ext_lookup fun q => ?_
  cases hlookup : (ofEntries l).lookup q with
  | none => exact lookup_ofSpellings_eq_none_iff.mpr (lookup_ofEntries_eq_none_iff.mp hlookup)
  | some d =>
      obtain ⟨before, k, after, hsplit, hspells, hlast⟩ := lookup_ofEntries_iff.mp hlookup
      have hlisted : (k, d) ∈ l := by simp [hsplit]
      -- The path has no other spelling than `k`, so its last entry is the last with its greatest.
      refine lookup_ofSpellings_iff.mpr ⟨k, ⟨before, after, hsplit, ?_⟩, hspells, ?_⟩
      · rintro a ha rfl
        exact hlast a ha hspells
      · intro a ha hq
        rw [h a ha (k, d) hlisted (hq.trans hspells.symm)]
        exact Text.precedes_refl k

/-! ## Reading objects -/

/-- The JSON object of some keys with texts. -/
def nodeOfPairs (pairs : List (String × String)) : Json.Node :=
  .object (pairs.map fun b => (.text b.1, .text b.2)) true

/-- A key with a text, and the binding that they spell. -/
structure SpellsBinding (b : String × String) (e : String × Digest) : Prop where
  key : b.1 = e.1
  digest : Digest.ofHex b.2 = .ok e.2

theorem SpellsBinding.unique {b : String × String} {e e' : String × Digest}
    (h : SpellsBinding b e) (h' : SpellsBinding b e') : e = e' := by
  have hdigest : e.2 = e'.2 := Except.ok.inj (h.digest.symm.trans h'.digest)
  exact Prod.ext (h.key.symm.trans h'.key) hdigest

theorem readMember_text (k v : String) :
    readMember (.text k, .text v) = match Digest.ofHex v with
      | .ok d => .ok (k, d)
      | .error e => .error (.unfit (.spelling e.message)) := by
  have hkey : (Json.Literal.text k).asText = .ok k := rfl
  have htext : (Json.Node.text v).asText = .ok v := rfl
  simp only [readMember, Digest.ofNode, hkey, htext, bind, Except.bind]
  cases Digest.ofHex v <;> rfl

theorem readMember_of_spells {b : String × String} {e : String × Digest}
    (h : SpellsBinding b e) : readMember (.text b.1, .text b.2) = .ok e := by
  rw [readMember_text, h.digest, h.key]

theorem readMember_of_error {b : String × String} {e : HexError}
    (h : Digest.ofHex b.2 = .error e) :
    readMember (.text b.1, .text b.2) = .error (.unfit (.spelling e.message)) := by
  rw [readMember_text, h]

variable {pairs : List (String × String)} {l : List (String × Digest)} {t : String}

theorem forall₂_readMember (h : List.Forall₂ SpellsBinding pairs l) :
    List.Forall₂ (fun m e => readMember m = .ok e)
      (pairs.map fun b => (.text b.1, .text b.2)) l :=
  List.forall₂_map_left_iff.mpr (h.imp fun _ _ => readMember_of_spells)

theorem ofJson_of_spells (ht : (nodeOfPairs pairs).HasText t)
    (h : List.Forall₂ SpellsBinding pairs l) : ofJson t = .ok (ofSpellings l) := by
  have hread := Json.mapM_eq_ok (forall₂_readMember h)
  rw [ofJson, Json.Document.read_of_hasText ofNode ht, nodeOfPairs, ofNode, hread]
  rfl

/-- **The first text that spells no digest** decides the error. -/
theorem ofJson_of_error {b : String × String} {after : List (String × String)}
    {e : HexError} (ht : (nodeOfPairs (pairs ++ b :: after)).HasText t)
    (h : List.Forall₂ SpellsBinding pairs l) (hb : Digest.ofHex b.2 = .error e) :
    ofJson t = .error (.unfit (.spelling e.message)) := by
  have hread := Json.mapM_eq_error (forall₂_readMember h) (readMember_of_error hb)
    (after.map fun b => (.text b.1, .text b.2))
  rw [ofJson, Json.Document.read_of_hasText ofNode ht, nodeOfPairs, ofNode, List.map_append,
    List.map_cons, hread]
  rfl

/-- Either all texts spell digests or one of them is the first that does not. -/
theorem spelled_or_first_error (pairs : List (String × String)) :
    (∃ l, List.Forall₂ SpellsBinding pairs l) ∨
      ∃ before l b after e, pairs = before ++ b :: after ∧
        List.Forall₂ SpellsBinding before l ∧ Digest.ofHex b.2 = .error e := by
  induction pairs with
  | nil => exact .inl ⟨[], .nil⟩
  | cons b rest ih =>
      cases hb : Digest.ofHex b.2 with
      | error e => exact .inr ⟨[], [], b, rest, e, rfl, .nil, hb⟩
      | ok d =>
          have hspells : SpellsBinding b (b.1, d) := ⟨rfl, hb⟩
          rcases ih with ⟨l, hl⟩ | ⟨before, l, a, after, e, rfl, hl, ha⟩
          · exact .inl ⟨_ :: l, .cons hspells hl⟩
          · exact .inr ⟨b :: before, _ :: l, a, after, e, rfl, .cons hspells hl, ha⟩

theorem exists_spelled (h : ∀ b ∈ pairs, ∃ d, Digest.ofHex b.2 = .ok d) :
    ∃ l, List.Forall₂ SpellsBinding pairs l := by
  rcases spelled_or_first_error pairs with hall | ⟨before, l, b, after, e, rfl, -, hb⟩
  · exact hall
  · obtain ⟨d, hd⟩ := h b (List.mem_append_right before List.mem_cons_self)
    exact absurd (hb.symm.trans hd) nofun

/-- **An object is read** exactly if every text in it spells a digest. -/
theorem ofJson_eq_ok_iff (ht : (nodeOfPairs pairs).HasText t) {s : Snapshot} :
    ofJson t = .ok s ↔ ∃ l, List.Forall₂ SpellsBinding pairs l ∧ ofSpellings l = s := by
  constructor
  · intro hs
    rcases spelled_or_first_error pairs with ⟨l, hl⟩ | ⟨before, l, b, after, e, rfl, hl, hb⟩
    · exact ⟨l, hl, Except.ok.inj ((ofJson_of_spells ht hl).symm.trans hs)⟩
    · exact absurd ((ofJson_of_error ht hl hb).symm.trans hs) nofun
  · rintro ⟨l, hl, rfl⟩
    exact ofJson_of_spells ht hl

theorem exists_ofJson_iff (ht : (nodeOfPairs pairs).HasText t) :
    (∃ s, ofJson t = .ok s) ↔ ∀ b ∈ pairs, ∃ d, Digest.ofHex b.2 = .ok d := by
  constructor
  · rintro ⟨s, hs⟩ b hb
    obtain ⟨l, hl, -⟩ := (ofJson_eq_ok_iff ht).mp hs
    obtain ⟨e, -, he⟩ := exists_of_mem_left hl hb
    exact ⟨e.2, he.digest⟩
  · intro h
    obtain ⟨l, hl⟩ := exists_spelled h
    exact ⟨ofSpellings l, ofJson_of_spells ht hl⟩

/-- What is recorded of a path is what the pair that counts for it spells. -/
theorem lookup_of_spells (h : List.Forall₂ SpellsBinding pairs l) {q : Path} {d : Digest} :
    (ofSpellings l).lookup q = some d ↔
      ∃ b, Decides pairs q b ∧ Digest.ofHex b.2 = .ok d := by
  rw [lookup_ofSpellings_iff]
  constructor
  · rintro ⟨k, hk⟩
    have hback := List.Forall₂.flip (R := fun e b => SpellsBinding b e) h
    obtain ⟨b, hb, hdecides⟩ := hk.of_forall₂ (fun hbe => hbe.key.symm) hback
    exact ⟨b, hdecides, hb.digest⟩
  · rintro ⟨b, hb, hd⟩
    obtain ⟨e, he, hdecides⟩ := hb.of_forall₂ SpellsBinding.key h
    obtain rfl : e = (b.1, d) := he.unique ⟨rfl, hd⟩
    exact ⟨b.1, hdecides⟩

theorem lookup_of_spells_eq_none_iff (h : List.Forall₂ SpellsBinding pairs l) {q : Path} :
    (ofSpellings l).lookup q = none ↔ ∀ b ∈ pairs, Path.ofString b.1 ≠ q := by
  rw [lookup_ofSpellings_eq_none_iff]
  constructor
  · intro hne b hb
    obtain ⟨e, he, hbe⟩ := exists_of_mem_left h hb
    rw [hbe.key]
    exact hne e he
  · intro hne e he
    obtain ⟨b, hb, hbe⟩ := exists_of_mem_right h he
    rw [← hbe.key]
    exact hne b hb

/-! ## Other orders -/

/-- The same pairs in another order, in which those with the same key keep theirs. -/
def Reordered {α : Type} (l r : List (String × α)) : Prop :=
  ∀ k, (l.filter fun b => k == b.1) = r.filter fun b => k == b.1

/-- Pairs with different keys may come in any order. -/
theorem reordered_of_perm {α : Type} {l r : List (String × α)} (h : l.Perm r)
    (hkeys : (l.map Prod.fst).Nodup) : Reordered l r := by
  induction h with
  | nil => exact fun k => rfl
  | cons b _ ih =>
      intro k
      rw [List.filter_cons, List.filter_cons, ih (List.nodup_cons.mp hkeys).2 k]
  | swap a b l =>
      -- Neighbours with different keys: a filter by key keeps at most one of them.
      intro k
      have hne : b.1 ≠ a.1 := by
        intro heq
        simp [heq] at hkeys
      by_cases hb : k = b.1
      · have ha : k ≠ a.1 := hb ▸ hne
        simp [List.filter_cons, ha]
      · simp [List.filter_cons, hb]
  | trans hlm _ ihl ihr =>
      intro k
      have hnext := (hlm.map Prod.fst).nodup_iff.mp hkeys
      exact (ihl hkeys k).trans (ihr hnext k)

theorem Reordered.symm {α : Type} {l r : List (String × α)} (h : Reordered l r) :
    Reordered r l :=
  fun k => (h k).symm

theorem Reordered.mem {α : Type} {l r : List (String × α)} (h : Reordered l r)
    {b : String × α} (hb : b ∈ r) : b ∈ l := by
  have hfiltered : b ∈ r.filter fun a => b.1 == a.1 :=
    List.mem_filter.mpr ⟨hb, beq_self_eq_true b.1⟩
  rw [← h b.1] at hfiltered
  exact (List.mem_filter.mp hfiltered).1

/-- Reordered pairs spell reordered bindings. -/
theorem Reordered.of_spells {others : List (String × String)} {r : List (String × Digest)}
    (h : Reordered pairs others) (hl : List.Forall₂ SpellsBinding pairs l)
    (hr : List.Forall₂ SpellsBinding others r) : Reordered l r := by
  intro k
  have hfilter : ∀ {p : List (String × String)} {b : List (String × Digest)},
      List.Forall₂ SpellsBinding p b → List.Forall₂ SpellsBinding
        (p.filter fun b => k == b.1) (b.filter fun b => k == b.1) := by
    intro p b hpb
    refine List.rel_filter ?_ hpb
    intro a e hae
    simp only [hae.key]
  have hleft := hfilter hl
  rw [h k] at hleft
  exact List.right_unique_forall₂' (fun _ _ _ hae hae' => hae.unique hae') hleft (hfilter hr)

/-- **Order does not matter** among pairs with different keys. -/
theorem Reordered.ofSpellings_eq {r : List (String × Digest)} (h : Reordered l r) :
    ofSpellings l = ofSpellings r := by
  apply ofSpellings_congr
  intro k
  rw [← Text.lookup_filter_self, ← Text.lookup_filter_self r.reverse, List.filter_reverse,
    List.filter_reverse, h k]

theorem Reordered.ofJson_of_ok {others : List (String × String)} {u : String}
    (h : Reordered pairs others) (ht : (nodeOfPairs pairs).HasText t)
    (hu : (nodeOfPairs others).HasText u) {s : Snapshot} (hs : ofJson t = .ok s) :
    ofJson u = .ok s := by
  obtain ⟨l, hl, rfl⟩ := (ofJson_eq_ok_iff ht).mp hs
  have hdigests := (exists_ofJson_iff ht).mp ⟨_, hs⟩
  obtain ⟨r, hr⟩ := exists_spelled fun b hb => hdigests b (h.mem hb)
  rw [ofJson_of_spells hu hr, (h.of_spells hl hr).ofSpellings_eq]

/-- **Repeated and aliasing keys.**  A JSON object of keys with texts, however it is written, is read
as a snapshot exactly if every text spells a digest; otherwise the first text that does not decides
the error.  A path that no key spells is not recorded, and of the others the snapshot records what
the last pair with the greatest spelling says.  So pairs with different keys may come in any order.
A list that is entered as it is records of every path its last entry.  Both ways make the same
snapshot when different keys spell different paths. -/
theorem aliasing_keys_resolve :
    (∀ (pairs : List (String × String)) (t : String), (nodeOfPairs pairs).HasText t →
      ((∃ s, ofJson t = .ok s) ↔ ∀ b ∈ pairs, ∃ d, Digest.ofHex b.2 = .ok d) ∧
      (∀ before b after e, pairs = before ++ b :: after →
        (∀ a ∈ before, ∃ d, Digest.ofHex a.2 = .ok d) → Digest.ofHex b.2 = .error e →
          ofJson t = .error (.unfit (.spelling e.message))) ∧
      ∀ s, ofJson t = .ok s → ∀ q,
        (s.lookup q = none ↔ ∀ b ∈ pairs, Path.ofString b.1 ≠ q) ∧
        ∀ d, s.lookup q = some d ↔ ∃ b, Decides pairs q b ∧ Digest.ofHex b.2 = .ok d) ∧
    (∀ (pairs others : List (String × String)) (t u : String),
      (nodeOfPairs pairs).HasText t → (nodeOfPairs others).HasText u →
      (Reordered pairs others → ∀ s, ofJson t = .ok s ↔ ofJson u = .ok s) ∧
      (pairs.Perm others → (pairs.map Prod.fst).Nodup →
        ∀ s, ofJson t = .ok s ↔ ofJson u = .ok s)) ∧
    (∀ (l : List (String × Digest)) (q : Path),
      ((ofEntries l).lookup q = none ↔ ∀ b ∈ l, Path.ofString b.1 ≠ q) ∧
      ∀ d, (ofEntries l).lookup q = some d ↔
        ∃ before k after, l = before ++ (k, d) :: after ∧ Path.ofString k = q ∧
          ∀ a ∈ after, Path.ofString a.1 ≠ q) ∧
    ∀ (pairs : List (String × String)) (l : List (String × Digest)) (t : String),
      (nodeOfPairs pairs).HasText t → List.Forall₂ SpellsBinding pairs l →
      (∀ a ∈ l, ∀ b ∈ l, Path.ofString a.1 = Path.ofString b.1 → a.1 = b.1) →
      ofJson t = .ok (ofEntries l) := by
  refine ⟨?_, ?_, ?_, ?_⟩
  · intro pairs t ht
    refine ⟨exists_ofJson_iff ht, ?_, ?_⟩
    · rintro before b after e rfl hbefore hb
      obtain ⟨l, hl⟩ := exists_spelled hbefore
      exact ofJson_of_error ht hl hb
    · intro s hs q
      obtain ⟨l, hl, rfl⟩ := (ofJson_eq_ok_iff ht).mp hs
      exact ⟨lookup_of_spells_eq_none_iff hl, fun d => lookup_of_spells hl⟩
  · intro pairs others t u ht hu
    have hiff : Reordered pairs others → ∀ s, ofJson t = .ok s ↔ ofJson u = .ok s :=
      fun h s => ⟨h.ofJson_of_ok ht hu, h.symm.ofJson_of_ok hu ht⟩
    exact ⟨hiff, fun hperm hkeys => hiff (reordered_of_perm hperm hkeys)⟩
  · intro l q
    exact ⟨lookup_ofEntries_eq_none_iff, fun d => lookup_ofEntries_iff⟩
  · intro pairs l t ht hl hkeys
    rw [ofJson_of_spells ht hl, ofSpellings_eq_ofEntries hkeys]

/-- Four keys spell one path: in an object the second of the two greatest counts, in a list the
last. -/
theorem aliasing_keys_resolve_apart :
    let x : Digest := ⟨List.replicate 32 0, rfl⟩
    let y : Digest := ⟨List.replicate 32 255, rfl⟩
    let l : List (String × Digest) := [("./a", x), ("a", x), ("a", y), ("../a/", x)]
    let t := "\n" ++ (nodeOfPairs (l.map fun b => (b.1, b.2.hex))).render
    (∃ s, ofJson t = .ok s ∧ s.lookup (.ofString "a") = some y) ∧
      (ofEntries l).lookup (.ofString "a") = some x := by
  intro x y l t
  obtain ⟨hobject, -, hlist, -⟩ := aliasing_keys_resolve
  have ht : (nodeOfPairs (l.map fun b => (b.1, b.2.hex))).HasText t :=
    (Json.Node.hasText_render rfl).blank (c := '\n') (by decide)
  obtain ⟨hread, -, hlookup⟩ := hobject _ t ht
  constructor
  · obtain ⟨s, hs⟩ := hread.mpr fun b hb => by
      obtain ⟨a, -, rfl⟩ := List.mem_map.mp hb
      exact ⟨a.2, Digest.ofHex_hex a.2⟩
    refine ⟨s, hs, ((hlookup s hs _).2 y).mpr ⟨("a", y.hex), ⟨?_, rfl, ?_⟩, Digest.ofHex_hex y⟩⟩
    · refine ⟨[("./a", x.hex), ("a", x.hex)], [("../a/", x.hex)], rfl, ?_⟩
      simp
    · have hgreatest : ∀ k ∈ ["./a", "a", "a", "../a/"], Text.precedes k "a" = true := by decide
      intro b hb _
      exact hgreatest b.1 (List.mem_map_of_mem (f := Prod.fst) hb)
  · refine ((hlist l _).2 x).mpr ⟨[("./a", x), ("a", x), ("a", y)], "../a/", [], rfl, ?_, ?_⟩
    · decide
    · exact fun b hb => absurd hb List.not_mem_nil

end Snapshot

end Worktree
