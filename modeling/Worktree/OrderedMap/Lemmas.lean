import Worktree.OrderedMap.Basic

/-!
# What ordered maps answer

A map is seen through `get?`: each operation is described by what it does to look-ups, and a map is
determined by its look-ups.

* `get?_eq_some_iff` — a look-up finds exactly the bindings that are listed;
* `ext_get?` — two maps with the same look-ups are the same map;
* `get?_insert`, `get?_ofList`, `get?_mapWithKey`, `get?_filterMapWithKey`, `get?_merge` — the
  look-ups of what the operations make;
* `find?_eq_some_iff` — the first binding with a property is the one with the least key;
* `gather_fst`, `gather_snd` — what a walk keeps, and the state it ends in.
-/

namespace Worktree.OrderedMap

variable {κ α β γ σ : Type} [Ord κ]

/-! ## Look-ups and listings -/

/-- Keys are listed in strictly ascending order. -/
theorem pairwise_keys (m : OrderedMap κ α) : m.keys.Pairwise fun j k => compare j k = .lt :=
  List.pairwise_map.mpr m.ascending

@[simp] theorem get?_empty (k : κ) : (empty : OrderedMap κ α).get? k = none := rfl

/-- The bindings of a key that comes first and of one that does not. -/
theorem eq_or_lt_of_mem_cons {b c : κ × α} {rest : List (κ × α)}
    (h : (b :: rest).Pairwise fun a b => compare a.1 b.1 = .lt) (hc : c ∈ b :: rest) :
    c = b ∨ compare b.1 c.1 = .lt :=
  (List.mem_cons.mp hc).imp_right ((List.pairwise_cons.mp h).1 c)

theorem keys_mapWithKey (m : OrderedMap κ α) (f : κ → α → β) : (m.mapWithKey f).keys = m.keys := by
  simp [keys, mapWithKey]

/-! ## Walks -/

omit [Ord κ] in
theorem gatherBindings_fst {f : σ → κ → α → Option β × σ} {g : κ → α → Option β}
    (h : ∀ s k a, (f s k a).1 = g k a) (l : List (κ × α)) (s : σ) :
    (gatherBindings f l s).1 = l.filterMap (keepBinding g) := by
  induction l generalizing s with
  | nil => rfl
  | cons b rest ih =>
      cases hb : g b.1 b.2 <;> simp [gatherBindings, keepBinding, h, ih, hb]

omit [Ord κ] in
theorem gatherBindings_snd (f : σ → κ → α → Option β × σ) (l : List (κ × α)) (s : σ) :
    (gatherBindings f l s).2 = l.foldl (fun s b => (f s b.1 b.2).2) s := by
  induction l generalizing s with
  | nil => rfl
  | cons b rest ih => rw [gatherBindings, List.foldl_cons, ih]

omit [Ord κ] in
theorem keys_gatherBindings {f : σ → κ → α → Option β × σ} {keep : κ → α → Bool}
    (h : ∀ s k a, (f s k a).1.isSome = keep k a) (l : List (κ × α)) (s : σ) :
    (gatherBindings f l s).1.map (·.1) = (l.filter fun b => keep b.1 b.2).map (·.1) := by
  induction l generalizing s with
  | nil => rfl
  | cons b rest ih =>
      rw [List.filter_cons, ← h s b.1 b.2]
      cases hb : (f s b.1 b.2).1 with
      | none => simpa [gatherBindings, hb] using ih _
      | some c => simpa [gatherBindings, hb] using ih _

omit [Ord κ] in
theorem gatherBindings_filterMap {f : σ → κ → α → Option β × σ} {f' : σ → κ → γ → Option β × σ}
    {g : κ → α → Option γ} (h : ∀ s k a, f s k a = (g k a).elim (none, s) (f' s k))
    (l : List (κ × α)) (s : σ) :
    gatherBindings f' (l.filterMap (keepBinding g)) s = gatherBindings f l s := by
  induction l generalizing s with
  | nil => rfl
  | cons b rest ih =>
      cases hb : g b.1 b.2 with
      | none => simp [gatherBindings, keepBinding, h, hb, ih]
      | some c => simp [gatherBindings, keepBinding, h, hb, ih]

/-- Bindings that leave nothing and pass the state on may be dropped before a walk. -/
theorem gather_filterMapWithKey {f : σ → κ → α → Option β × σ} {f' : σ → κ → γ → Option β × σ}
    {g : κ → α → Option γ} (h : ∀ s k a, f s k a = (g k a).elim (none, s) (f' s k))
    (m : OrderedMap κ α) (s : σ) : (m.filterMapWithKey g).gather f' s = m.gather f s := by
  simp only [gather, filterMapWithKey, gatherBindings_filterMap h]

/-- A walk whose state has no say in which keys are kept keeps those keys. -/
theorem keys_gather {f : σ → κ → α → Option β × σ} {keep : κ → α → Bool}
    (h : ∀ s k a, (f s k a).1.isSome = keep k a) (m : OrderedMap κ α) (s : σ) :
    (m.gather f s).1.keys = (m.toList.filter fun b => keep b.1 b.2).map (·.1) :=
  keys_gatherBindings h m.toList s

/-- A walk whose state has no say in what is kept keeps what `filterMapWithKey` keeps. -/
theorem gather_fst {f : σ → κ → α → Option β × σ} {g : κ → α → Option β}
    (h : ∀ s k a, (f s k a).1 = g k a) (m : OrderedMap κ α) (s : σ) :
    (m.gather f s).1 = m.filterMapWithKey g :=
  ext (gatherBindings_fst h m.toList s)

theorem gather_snd (f : σ → κ → α → Option β × σ) (m : OrderedMap κ α) (s : σ) :
    (m.gather f s).2 = m.toList.foldl (fun s b => (f s b.1 b.2).2) s :=
  gatherBindings_snd f m.toList s

/-! ## Maps as look-ups -/

variable [Std.TransOrd κ]

theorem ne_of_compare_lt {j k : κ} (h : compare j k = .lt) : j ≠ k := by
  intro heq
  have hself : compare k k = .eq := Std.ReflCmp.compare_self
  rw [heq, hself] at h
  exact absurd h (by decide)

/-- No key is listed twice. -/
theorem nodup_keys (m : OrderedMap κ α) : m.keys.Nodup :=
  m.pairwise_keys.imp ne_of_compare_lt

variable [Std.LawfulEqOrd κ]

/-- In an ascending list a binding is the first one with its key. -/
theorem find?_eq_some_of_mem {l : List (κ × α)} {k : κ} {a : α}
    (hl : l.Pairwise fun a b => compare a.1 b.1 = .lt) (h : (k, a) ∈ l) :
    (l.find? fun b => compare b.1 k == .eq) = some (k, a) := by
  induction l with
  | nil => exact absurd h List.not_mem_nil
  | cons b rest ih =>
      rcases eq_or_lt_of_mem_cons hl h with rfl | hlt
      · simp
      · have hmem : (k, a) ∈ rest :=
          (List.mem_cons.mp h).resolve_left fun heq =>
            ne_of_compare_lt hlt (congrArg Prod.fst heq).symm
        rw [List.find?_cons_of_neg (by simp [hlt])]
        exact ih (List.pairwise_cons.mp hl).2 hmem

/-- **Look-ups and listings agree.**  A look-up finds exactly the bindings that are listed. -/
theorem get?_eq_some_iff {m : OrderedMap κ α} {k : κ} {a : α} :
    m.get? k = some a ↔ (k, a) ∈ m.toList := by
  constructor
  · intro h
    obtain ⟨⟨j, b⟩, hfind, rfl⟩ := Option.map_eq_some_iff.mp h
    have hkey : compare j k = .eq := by simpa using List.find?_some hfind
    rw [← Std.LawfulEqCmp.eq_of_compare hkey]
    exact List.mem_of_find?_eq_some hfind
  · intro h
    rw [get?, find?_eq_some_of_mem m.ascending h]
    rfl

theorem get?_eq_none_iff {m : OrderedMap κ α} {k : κ} : m.get? k = none ↔ k ∉ m.keys := by
  constructor
  · intro h hmem
    obtain ⟨⟨j, a⟩, hb, rfl⟩ := List.mem_map.mp hmem
    rw [get?_eq_some_iff.mpr hb] at h
    exact absurd h (by simp)
  · intro h
    cases hget : m.get? k with
    | none => rfl
    | some a => exact absurd (List.mem_map.mpr ⟨(k, a), get?_eq_some_iff.mp hget, rfl⟩) h

theorem mem_keys_iff {m : OrderedMap κ α} {k : κ} : k ∈ m.keys ↔ (m.get? k).isSome := by
  constructor
  · intro h
    rw [Option.isSome_iff_ne_none]
    exact fun hnone => get?_eq_none_iff.mp hnone h
  · intro h
    obtain ⟨a, ha⟩ := Option.isSome_iff_exists.mp h
    exact List.mem_map.mpr ⟨(k, a), get?_eq_some_iff.mp ha, rfl⟩

omit [Std.LawfulEqOrd κ] in
/-- Ascending lists with the same members are the same list. -/
theorem eq_of_mem_iff_mem {l r : List (κ × α)}
    (hl : l.Pairwise fun a b => compare a.1 b.1 = .lt)
    (hr : r.Pairwise fun a b => compare a.1 b.1 = .lt) (h : ∀ b, b ∈ l ↔ b ∈ r) : l = r := by
  induction l generalizing r with
  | nil =>
      cases r with
      | nil => rfl
      | cons c rest => exact absurd ((h c).mpr List.mem_cons_self) List.not_mem_nil
  | cons b rest ih =>
      cases r with
      | nil => exact absurd ((h b).mp List.mem_cons_self) List.not_mem_nil
      | cons c others =>
          have hbc : b = c := by
            rcases eq_or_lt_of_mem_cons hr ((h b).mp List.mem_cons_self) with heq | hlt
            · exact heq
            · rcases eq_or_lt_of_mem_cons hl ((h c).mpr List.mem_cons_self) with heq | hgt
              · exact heq.symm
              · exact absurd rfl (ne_of_compare_lt (Std.TransCmp.lt_trans hlt hgt))
          subst hbc
          have hrest : ∀ d, d ∈ rest ↔ d ∈ others := by
            intro d
            have hne_of_lt : compare b.1 d.1 = .lt → d ≠ b :=
              fun hlt heq => ne_of_compare_lt hlt (congrArg Prod.fst heq).symm
            constructor
            · intro hd
              have hne := hne_of_lt ((List.pairwise_cons.mp hl).1 d hd)
              exact (List.mem_cons.mp ((h d).mp (List.mem_cons_of_mem b hd))).resolve_left hne
            · intro hd
              have hne := hne_of_lt ((List.pairwise_cons.mp hr).1 d hd)
              exact (List.mem_cons.mp ((h d).mpr (List.mem_cons_of_mem b hd))).resolve_left hne
          rw [ih (List.pairwise_cons.mp hl).2 (List.pairwise_cons.mp hr).2 hrest]

/-- **Maps are determined by their look-ups.** -/
theorem ext_get? {m n : OrderedMap κ α} (h : ∀ k, m.get? k = n.get? k) : m = n := by
  refine ext (eq_of_mem_iff_mem m.ascending n.ascending ?_)
  rintro ⟨k, a⟩
  rw [← get?_eq_some_iff, ← get?_eq_some_iff, h k]

/-! ## Insertion -/

theorem mem_insertBinding_iff {k : κ} {a : α} {c : κ × α} {l : List (κ × α)}
    (hl : l.Pairwise fun a b => compare a.1 b.1 = .lt) :
    c ∈ insertBinding k a l ↔ c = (k, a) ∨ (c.1 ≠ k ∧ c ∈ l) := by
  induction l with
  | nil => simp [insertBinding]
  | cons b rest ih =>
      obtain ⟨hb, hrest⟩ := List.pairwise_cons.mp hl
      unfold insertBinding
      split
      · next hlt =>
        have hne : ∀ d ∈ b :: rest, d.1 ≠ k := by
          intro d hd
          rcases List.mem_cons.mp hd with rfl | hd
          · exact (ne_of_compare_lt hlt).symm
          · exact (ne_of_compare_lt (Std.TransCmp.lt_trans hlt (hb d hd))).symm
        constructor
        · intro hc
          exact (List.mem_cons.mp hc).imp_right fun hmem => ⟨hne c hmem, hmem⟩
        · rintro (rfl | ⟨-, hmem⟩)
          · exact List.mem_cons_self
          · exact List.mem_cons_of_mem _ hmem
      · next heq =>
        have hkey : k = b.1 := Std.LawfulEqCmp.eq_of_compare heq
        constructor
        · intro hc
          refine (List.mem_cons.mp hc).imp_right fun hmem => ⟨?_, List.mem_cons_of_mem b hmem⟩
          exact (ne_of_compare_lt (hkey ▸ hb c hmem)).symm
        · rintro (rfl | ⟨hne, hmem⟩)
          · exact List.mem_cons_self
          · rcases List.mem_cons.mp hmem with rfl | hmem
            · exact absurd hkey.symm hne
            · exact List.mem_cons_of_mem _ hmem
      · next hgt =>
        have hbk : b.1 ≠ k := ne_of_compare_lt (Std.OrientedCmp.gt_iff_lt.mp hgt)
        rw [List.mem_cons, ih hrest, List.mem_cons]
        constructor
        · rintro (rfl | h)
          · exact .inr ⟨hbk, .inl rfl⟩
          · exact h.imp_right fun h => ⟨h.1, .inr h.2⟩
        · rintro (rfl | ⟨hne, rfl | hmem⟩)
          · exact .inr (.inl rfl)
          · exact .inl rfl
          · exact .inr (.inr ⟨hne, hmem⟩)

@[simp] theorem get?_insert_self (m : OrderedMap κ α) (k : κ) (a : α) :
    (m.insert k a).get? k = some a :=
  get?_eq_some_iff.mpr ((mem_insertBinding_iff m.ascending).mpr (.inl rfl))

theorem get?_insert_of_ne (m : OrderedMap κ α) {j k : κ} (a : α) (h : j ≠ k) :
    (m.insert k a).get? j = m.get? j := by
  refine Option.ext fun c => ?_
  rw [get?_eq_some_iff, get?_eq_some_iff]
  have hmem := mem_insertBinding_iff (k := k) (a := a) (c := (j, c)) m.ascending
  constructor
  · intro hc
    rcases hmem.mp hc with heq | hc
    · exact absurd (congrArg Prod.fst heq) h
    · exact hc.2
  · intro hc
    exact hmem.mpr (.inr ⟨h, hc⟩)

theorem get?_insert [DecidableEq κ] (m : OrderedMap κ α) (j k : κ) (a : α) :
    (m.insert k a).get? j = if j = k then some a else m.get? j := by
  by_cases h : j = k
  · rw [h, get?_insert_self, if_pos rfl]
  · rw [get?_insert_of_ne m a h, if_neg h]

/-- The last binding of a key in a list counts; a key that is not in the list keeps what it had. -/
theorem get?_foldl_insert [DecidableEq κ] (l : List (κ × α)) (m : OrderedMap κ α) (k : κ) :
    (l.foldl (fun m b => m.insert b.1 b.2) m).get? k
      = (l.reverse.lookup k).or (m.get? k) := by
  induction l generalizing m with
  | nil => simp
  | cons b rest ih =>
      obtain ⟨j, a⟩ := b
      rw [List.foldl_cons, ih, get?_insert, List.reverse_cons, List.lookup_append, Option.or_assoc]
      by_cases h : k = j
      · simp [h]
      · have hne : (k == j) = false := beq_false_of_ne h
        simp [List.lookup_cons, h, hne]

/-- A map made of a list binds a key to its last value there. -/
theorem get?_ofList [DecidableEq κ] (l : List (κ × α)) (k : κ) :
    (ofList l).get? k = l.reverse.lookup k := by
  rw [ofList, get?_foldl_insert, get?_empty, Option.or_none]

theorem mem_of_get?_ofList [DecidableEq κ] {l : List (κ × α)} {k : κ} {a : α}
    (h : (ofList l).get? k = some a) : (k, a) ∈ l := by
  rw [get?_ofList, List.lookup_eq_some_iff] at h
  obtain ⟨before, after, heq, -⟩ := h
  have hmem : (k, a) ∈ l.reverse := by simp [heq]
  exact List.mem_reverse.mp hmem

/-- Looking a key up from the end of the bindings finds its only binding. -/
theorem lookup_reverse_toList [DecidableEq κ] (m : OrderedMap κ α) (k : κ) :
    m.toList.reverse.lookup k = m.get? k := by
  refine Option.ext fun a => ?_
  rw [get?_eq_some_iff]
  constructor
  · intro h
    rw [← get?_ofList] at h
    exact mem_of_get?_ofList h
  · intro h
    obtain ⟨before, after, heq⟩ := List.append_of_mem (List.mem_reverse.mpr h)
    apply List.lookup_eq_some_iff.mpr
    refine ⟨before, after, heq, ?_⟩
    intro b hb
    have hdescending : m.toList.reverse.Pairwise fun a b => compare b.1 a.1 = .lt :=
      List.pairwise_reverse.mpr m.ascending
    rw [heq, List.pairwise_append] at hdescending
    have hlt : compare k b.1 = .lt := hdescending.2.2 b hb (k, a) List.mem_cons_self
    simpa using ne_of_compare_lt hlt

/-- Inserting the bindings of a map overrides what was there. -/
theorem get?_foldl_insert_toList [DecidableEq κ] (n m : OrderedMap κ α) (k : κ) :
    (n.toList.foldl (fun m b => m.insert b.1 b.2) m).get? k = (n.get? k).or (m.get? k) := by
  rw [get?_foldl_insert, lookup_reverse_toList]

@[simp] theorem ofList_toList [DecidableEq κ] (m : OrderedMap κ α) : ofList m.toList = m := by
  refine ext_get? fun k => ?_
  rw [get?_ofList, lookup_reverse_toList]

/-! ## Whole-map operations -/

@[simp] theorem get?_mapWithKey (m : OrderedMap κ α) (f : κ → α → β) (k : κ) :
    (m.mapWithKey f).get? k = (m.get? k).map (f k) := by
  refine Option.ext fun c => ?_
  rw [get?_eq_some_iff, Option.map_eq_some_iff]
  constructor
  · intro hc
    obtain ⟨⟨j, a⟩, hmem, heq⟩ := List.mem_map.mp hc
    obtain ⟨rfl, rfl⟩ := Prod.mk.inj heq
    exact ⟨a, get?_eq_some_iff.mpr hmem, rfl⟩
  · rintro ⟨a, ha, rfl⟩
    exact List.mem_map.mpr ⟨(k, a), get?_eq_some_iff.mp ha, rfl⟩

@[simp] theorem get?_filterMapWithKey (m : OrderedMap κ α) (f : κ → α → Option β) (k : κ) :
    (m.filterMapWithKey f).get? k = (m.get? k).bind (f k) := by
  refine Option.ext fun c => ?_
  rw [get?_eq_some_iff, Option.bind_eq_some_iff]
  constructor
  · intro hc
    obtain ⟨⟨j, a⟩, hmem, heq⟩ := List.mem_filterMap.mp hc
    obtain ⟨d, hd, heq⟩ := Option.map_eq_some_iff.mp heq
    obtain ⟨rfl, rfl⟩ := Prod.mk.inj heq
    exact ⟨a, get?_eq_some_iff.mpr hmem, hd⟩
  · rintro ⟨a, ha, hc⟩
    exact List.mem_filterMap.mpr ⟨(k, a), get?_eq_some_iff.mp ha, by simp [keepBinding, hc]⟩

/-- Binding more keys keeps those that are bound. -/
theorem isSome_get?_foldl_insert (l : List (κ × β)) (u : OrderedMap κ Unit) (k : κ) :
    ((l.foldl (fun u b => u.insert b.1 ()) u).get? k).isSome
      ↔ (u.get? k).isSome ∨ k ∈ l.map (·.1) := by
  induction l generalizing u with
  | nil => simp
  | cons b rest ih =>
      rw [List.foldl_cons, ih, List.map_cons, List.mem_cons, ← or_assoc]
      refine or_congr_left ?_
      constructor
      · intro h
        cases Classical.em (k = b.1) with
        | inl heq => exact .inr heq
        | inr hne => exact .inl (get?_insert_of_ne u () hne ▸ h)
      · rintro (h | rfl)
        · cases Classical.em (k = b.1) with
          | inl heq => rw [heq, get?_insert_self]; rfl
          | inr hne => exact (get?_insert_of_ne u () hne).symm ▸ h
        · rw [get?_insert_self]; rfl

theorem isSome_get?_unionKeys (m : OrderedMap κ α) (n : OrderedMap κ β) (k : κ) :
    ((unionKeys m n).get? k).isSome ↔ (m.get? k).isSome ∨ (n.get? k).isSome := by
  rw [unionKeys, isSome_get?_foldl_insert, get?_mapWithKey, Option.isSome_map]
  exact or_congr_right mem_keys_iff

/-- What `merge` binds a key to depends on what the two maps bind it to. -/
theorem get?_merge {f : κ → Option α → Option β → Option γ} (hf : ∀ k, f k none none = none)
    (m : OrderedMap κ α) (n : OrderedMap κ β) (k : κ) :
    (merge f m n).get? k = f k (m.get? k) (n.get? k) := by
  rw [merge, get?_filterMapWithKey]
  cases hu : (unionKeys m n).get? k with
  | some u => rfl
  | none =>
      have hneither : ¬((m.get? k).isSome ∨ (n.get? k).isSome) := by
        rw [← isSome_get?_unionKeys, hu]
        exact Bool.false_ne_true
      have hm : m.get? k = none := Option.not_isSome_iff_eq_none.mp fun h => hneither (.inl h)
      have hn : n.get? k = none := Option.not_isSome_iff_eq_none.mp fun h => hneither (.inr h)
      rw [hm, hn, hf k]
      rfl

omit [Std.LawfulEqOrd κ] in
/-- The bindings of a merged map are made of the keys of either map, in order. -/
theorem toList_merge (f : κ → Option α → Option β → Option γ) (m : OrderedMap κ α)
    (n : OrderedMap κ β) :
    (merge f m n).toList
      = (unionKeys m n).keys.filterMap fun k => (f k (m.get? k) (n.get? k)).map (k, ·) := by
  rw [keys, List.filterMap_map]
  rfl

theorem keys_eq_of_isSome_eq {m : OrderedMap κ α} {n : OrderedMap κ β}
    (h : ∀ k, (m.get? k).isSome = (n.get? k).isSome) : m.keys = n.keys := by
  have hmap : (m.mapWithKey fun _ _ => ()) = n.mapWithKey fun _ _ => () := by
    refine ext_get? fun k => ?_
    have hk := h k
    rw [get?_mapWithKey, get?_mapWithKey]
    cases hm : m.get? k <;> cases hn : n.get? k <;> simp_all
  rw [← keys_mapWithKey m fun _ _ => (), hmap, keys_mapWithKey]

/-! ## First bindings -/

/-- In an ascending list the first binding with a property is the one with the least key. -/
theorem find?_eq_some_iff_of_pairwise {l : List (κ × α)} {p : κ × α → Bool} {b : κ × α}
    (hl : l.Pairwise fun a b => compare a.1 b.1 = .lt) :
    l.find? p = some b ↔
      b ∈ l ∧ p b = true ∧ ∀ c ∈ l, p c = true → (compare b.1 c.1).isLE = true := by
  induction l with
  | nil => simp
  | cons first rest ih =>
      obtain ⟨hfirst, hrest⟩ := List.pairwise_cons.mp hl
      by_cases hp : p first = true
      · rw [List.find?_cons_of_pos hp, Option.some.injEq]
        constructor
        · intro heq
          subst heq
          refine ⟨List.mem_cons_self, hp, ?_⟩
          intro c hc _
          rcases eq_or_lt_of_mem_cons hl hc with rfl | hlt
          · simp
          · simp [hlt]
        · intro h
          obtain ⟨hmem, -, hleast⟩ := h
          rcases eq_or_lt_of_mem_cons hl hmem with rfl | hlt
          · rfl
          · have hle := hleast first List.mem_cons_self hp
            rw [Std.OrientedCmp.gt_iff_lt.mpr hlt] at hle
            exact absurd hle (by decide)
      · rw [List.find?_cons_of_neg hp, ih hrest]
        constructor
        · intro h
          obtain ⟨hmem, hb, hleast⟩ := h
          refine ⟨List.mem_cons_of_mem first hmem, hb, ?_⟩
          intro c hc hpc
          rcases List.mem_cons.mp hc with rfl | hc
          · exact absurd hpc hp
          · exact hleast c hc hpc
        · intro h
          obtain ⟨hmem, hb, hleast⟩ := h
          have hmem' : b ∈ rest :=
            (List.mem_cons.mp hmem).resolve_left fun heq => hp (heq ▸ hb)
          refine ⟨hmem', hb, ?_⟩
          intro c hc
          exact hleast c (List.mem_cons_of_mem first hc)

/-- **The first binding with a property.**  It has the property, and its key comes no later than
that of any other binding with the property. -/
theorem find?_eq_some_iff {m : OrderedMap κ α} {p : κ → α → Bool} {k : κ} {a : α} :
    m.find? p = some (k, a) ↔
      m.get? k = some a ∧ p k a = true ∧
        ∀ j b, m.get? j = some b → p j b = true → (compare k j).isLE = true := by
  rw [find?, find?_eq_some_iff_of_pairwise m.ascending, get?_eq_some_iff]
  refine and_congr_right fun _ => and_congr_right fun _ => ?_
  constructor
  · exact fun h j b hj hb => h (j, b) (get?_eq_some_iff.mp hj) hb
  · exact fun h c hc hp => h c.1 c.2 (get?_eq_some_iff.mpr hc) hp

theorem find?_eq_none_iff {m : OrderedMap κ α} {p : κ → α → Bool} :
    m.find? p = none ↔ ∀ k a, m.get? k = some a → p k a = false := by
  rw [find?, List.find?_eq_none]
  constructor
  · exact fun h k a hk => Bool.eq_false_iff.mpr (h (k, a) (get?_eq_some_iff.mp hk))
  · exact fun h b hb => Bool.eq_false_iff.mp (h b.1 b.2 (get?_eq_some_iff.mpr hb))

end Worktree.OrderedMap
